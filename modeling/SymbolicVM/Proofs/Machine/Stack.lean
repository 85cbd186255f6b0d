import SymbolicVM.Proofs.Machine.Apply

/-!
# What a delta does to the stack

Writing registers, variables and environments changes the current frame and leaves its callers as
they are; of the current frame it changes only what belongs to the running code, not where the frame
returns to (`Frame.Evolves`). So a delta either keeps the stack in this sense
(`State.effect_of_keeps`), puts one frame on top of it (`State.effect_of_pushes`), or takes the
current frame away (`State.effect_of_pops`).
-/

namespace SymbolicVM

/-- The frame `g` is the activation `f` further on: its registers, locals and owned environment may
differ, and nothing else. -/
structure Frame.Evolves (f g : Frame) : Prop where
  function : g.function = f.function
  returnLabel : g.returnLabel = f.returnLabel
  returnOffset : g.returnOffset = f.returnOffset
  resultRegister : g.resultRegister = f.resultRegister
  closureEnv : g.closureEnv = f.closureEnv

/-- The frame that a delta asks for. -/
def Frame.ofPush (push : CallPush) : Frame :=
  { function := push.function, returnLabel := push.returnLabel, closureEnv := push.closureEnv }

namespace Frame.Evolves

theorem refl (f : Frame) : f.Evolves f :=
  ⟨rfl, rfl, rfl, rfl, rfl⟩

theorem trans {f g h : Frame} (hfg : f.Evolves g) (hgh : g.Evolves h) : f.Evolves h where
  function := hgh.function.trans hfg.function
  returnLabel := hgh.returnLabel.trans hfg.returnLabel
  returnOffset := hgh.returnOffset.trans hfg.returnOffset
  resultRegister := hgh.resultRegister.trans hfg.resultRegister
  closureEnv := hgh.closureEnv.trans hfg.closureEnv

end Frame.Evolves

namespace State

/-- The current frame of `s` runs on in `t`, above the same callers. -/
def Continues (s t : State) : Prop :=
  ∀ f callers, s.frames = f :: callers → ∃ g, t.frames = g :: callers ∧ f.Evolves g

namespace Continues

variable {s t u : State}

theorem of_frames_eq (h : t.frames = s.frames) : s.Continues t :=
  fun f _ hf => ⟨f, h.trans hf, .refl f⟩

theorem trans (hst : s.Continues t) (htu : t.Continues u) : s.Continues u := by
  intro f callers hf
  obtain ⟨g, hg, hfg⟩ := hst f callers hf
  obtain ⟨h, hh, hgh⟩ := htu g callers hg
  exact ⟨h, hh, hfg.trans hgh⟩

theorem foldl {α : Type} {step : State → α → State}
    (hstep : ∀ (s : State) (a : α), s.Continues (step s a))
    (l : List α) (s : State) : s.Continues (l.foldl step s) := by
  induction l generalizing s with
  | nil => exact of_frames_eq rfl
  | cons a l ih => exact (hstep s a).trans (ih (step s a))

end Continues

/-! ### Single changes -/

theorem frames_modifyCurrent {s : State} {f : Frame} {callers : List Frame}
    (h : s.frames = f :: callers) (change : Frame → Frame) :
    (s.modifyCurrent change).frames = change f :: callers := by
  unfold modifyCurrent
  rw [h]

theorem continues_modifyCurrent (s : State) {change : Frame → Frame}
    (h : ∀ f : Frame, f.Evolves (change f)) : s.Continues (s.modifyCurrent change) :=
  fun f _ hf => ⟨change f, frames_modifyCurrent hf change, h f⟩

theorem continues_writeRegister (s : State) (reg : String) (v : Value) :
    s.Continues (s.writeRegister reg v) :=
  continues_modifyCurrent s fun _ => ⟨rfl, rfl, rfl, rfl, rfl⟩

theorem continues_installClosure (s : State) (c : NewClosure) :
    s.Continues (s.installClosure c) := by
  refine Continues.trans (t := { s with closures := s.closures.insert c.id ⟨c.bindings, c.parent⟩ })
    (.of_frames_eq rfl) (continues_modifyCurrent _ fun f => ?_)
  exact ⟨rfl, rfl, rfl, rfl, rfl⟩

theorem continues_store (s : State) (name : String) (v : Value) :
    s.Continues (s.store name v) := by
  unfold store
  split
  · exact .of_frames_eq rfl
  · dsimp only
    split
    · exact .of_frames_eq rfl
    · -- the owned environment is not on the stack, so only the local is seen here
      have howned : ∀ t : State, t.frames = s.frames →
          s.Continues (t.modifyCurrent fun frame =>
            { frame with locals := frame.locals.insert name v }) := by
        intro t ht
        exact (Continues.of_frames_eq ht).trans
          (continues_modifyCurrent t fun _ => ⟨rfl, rfl, rfl, rfl, rfl⟩)
      apply howned
      split
      · split
        · rfl
        · rfl
      · rfl

/-! ### The stages of a delta -/

variable {s : State} {d : Delta}

theorem continues_install (s : State) (d : Delta) : s.Continues (s.install d) := by
  have hobjects : (d.newObjects.foldl installObject s).frames = s.frames := by
    apply foldl_untouched frames
    intro s obj
    rfl
  unfold install
  cases d.newClosure with
  | none => exact .of_frames_eq hobjects
  | some c => exact (Continues.of_frames_eq hobjects).trans (continues_installClosure _ c)

/-- Of a recorded delta only the registers are on the stack. -/
theorem frames_record (s : State) (d : Delta) :
    (s.record d).frames =
      (d.registerWrites.entries.foldl (fun s e => s.writeRegister e.1 e.2) s).frames := by
  have hfields : ∀ t : State, (d.heapWrites.foldl writeField t).frames = t.frames := by
    apply foldl_untouched frames
    intro s w
    rfl
  unfold record
  cases d.pathCondition with
  | none => exact hfields _
  | some cond => exact hfields _

theorem continues_record (s : State) (d : Delta) : s.Continues (s.record d) :=
  (Continues.foldl (fun s (e : String × Value) => continues_writeRegister s e.1 e.2) _ s).trans
    (.of_frames_eq (frames_record s d))

/-- The registers of the current frame after a list of writes. -/
theorem frames_foldl_writeRegister {f : Frame} {callers : List Frame} (es : List (String × Value))
    (h : s.frames = f :: callers) :
    (es.foldl (fun s e => s.writeRegister e.1 e.2) s).frames =
      { f with registers := es.foldl (fun r e => r.insert e.1 e.2) f.registers } :: callers := by
  induction es generalizing s f with
  | nil => exact h
  | cons e es ih =>
    rw [List.foldl_cons, List.foldl_cons]
    exact ih (frames_modifyCurrent h _)

/-- A register that a delta writes holds the written value when the delta is recorded. -/
theorem register?_record {f : Frame} {callers : List Frame} (h : s.frames = f :: callers)
    {reg : String} {v : Value} (hwrite : d.registerWrites.get? reg = some v) :
    ∃ g, (s.record d).frames = g :: callers ∧ g.registers.get? reg = some v := by
  refine ⟨_, (frames_record s d).trans (frames_foldl_writeRegister _ h), ?_⟩
  exact Dict.get?_insertAll_of_get? f.registers hwrite

theorem continues_writeVars (s : State) (pushed : Bool) (vars : Dict Value) :
    s.Continues (s.writeVars pushed vars) := by
  unfold writeVars
  apply Continues.foldl
  intro s e
  split_ifs
  · exact continues_modifyCurrent s fun _ => ⟨rfl, rfl, rfl, rfl, rfl⟩
  · exact continues_store s e.1 e.2

/-- The current frame when a delta is recorded, before the stack moves. -/
theorem continues_record_install (s : State) (d : Delta) :
    s.Continues ((s.install d).record d) :=
  (continues_install s d).trans (continues_record _ d)

/-! ### The three effects on the stack -/

theorem effect_of_keeps (hpush : d.callPush = none) (hpop : d.callPop = false) :
    s.Continues (s.effect d).1 ∧ (s.effect d).2 = none := by
  unfold effect moveStack
  rw [hpush, hpop]
  exact ⟨(continues_record_install s d).trans (continues_writeVars _ _ _), rfl⟩

/-- A pushed frame stands above the frame that it was pushed from. The variables of the delta are
its locals, so the new frame differs in them only from the one that is asked for, and the caller has
changed by the delta's registers only. -/
theorem effect_of_pushes {push : CallPush} (hpush : d.callPush = some push)
    (hpop : d.callPop = false) {f : Frame} {callers : List Frame} (hf : s.frames = f :: callers) :
    ∃ callee caller, (s.effect d).1.frames = callee :: caller :: callers ∧ f.Evolves caller ∧
      (Frame.ofPush push).Evolves callee ∧ (s.effect d).2 = none ∧
      ∀ reg v, d.registerWrites.get? reg = some v → caller.registers.get? reg = some v := by
  obtain ⟨g, hg, -⟩ := continues_install s d f callers hf
  obtain ⟨caller, hcaller, hevolves⟩ := continues_record_install s d f callers hf
  obtain ⟨callee, hcallee, hcalled⟩ :=
    continues_writeVars (((s.install d).record d).pushFrame push) true d.varWrites _ _ rfl
  rw [hcaller] at hcallee
  refine ⟨callee, caller, ?_, hevolves, hcalled, ?_, fun reg v hwrite => ?_⟩
  · unfold effect moveStack
    rw [hpush, hpop]
    exact hcallee
  · unfold effect moveStack
    rw [hpop]
    rfl
  · obtain ⟨g', hg', hreg⟩ := register?_record hg hwrite
    rw [hcaller] at hg'
    obtain rfl := (List.cons.inj hg').1
    exact hreg

/-- Popping takes the current frame away, unless it is the outermost one. -/
theorem effect_of_pops (hpush : d.callPush = none) (hpop : d.callPop = true) {f : Frame}
    {callers : List Frame} (hf : s.frames = f :: callers) :
    ∃ g, f.Evolves g ∧
      ((callers = [] ∧ (s.effect d).1.frames = [g] ∧ (s.effect d).2 = none) ∨
        (callers ≠ [] ∧ (s.effect d).1.frames = callers ∧ (s.effect d).2 = some g)) := by
  have hvars := (continues_record_install s d).trans
    (continues_writeVars ((s.install d).record d) false d.varWrites)
  obtain ⟨g, hg, hevolves⟩ := hvars f callers hf
  refine ⟨g, hevolves, ?_⟩
  unfold effect moveStack popFrame
  rw [hpush, hpop]
  dsimp only [Option.elim, Option.isSome]
  rw [if_pos rfl, hg]
  cases callers with
  | nil => exact .inl ⟨rfl, hg, rfl⟩
  | cons caller callers => exact .inr ⟨by simp, rfl, rfl⟩

end State

end SymbolicVM

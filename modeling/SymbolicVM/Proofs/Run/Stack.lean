import SymbolicVM.Proofs.Machine.Stack
import SymbolicVM.Proofs.Machine.Footprint
import SymbolicVM.Proofs.Run.History

/-!
# What a step does to the stack

A performed instruction runs on in its frame, calls, returns to its caller, or ends the run from the
outermost frame (`Run.StackStep`). A called frame is stamped with the point after the call, and a
return goes to the point that its frame is stamped with. `Run.stackStep_of_advance` derives this for
every delta with a proper effect on the stack.
-/

namespace SymbolicVM

/-- The frame with a returned value in a register, if there is one to take it. -/
def Frame.receive (f : Frame) (register : Option String) (v : Value) : Frame :=
  match register with
  | some reg => { f with registers := f.registers.insert reg v }
  | none => f

theorem Frame.evolves_receive (f : Frame) (register : Option String) (v : Value) :
    f.Evolves (f.receive register v) := by
  unfold receive
  cases register with
  | none => exact .refl f
  | some reg => exact ⟨rfl, rfl, rfl, rfl, rfl⟩

/-- Hands a returned value to the current frame of a stack. -/
def deliver (register : Option String) (v : Value) : List Frame → List Frame
  | [] => []
  | f :: callers => f.receive register v :: callers

theorem length_deliver (register : Option String) (v : Value) (fs : List Frame) :
    (deliver register v fs).length = fs.length := by
  cases fs <;> rfl

namespace Run

/-- Where a frame returns to: the point that it is stamped with, if that is in a block. -/
def returnFlow (g : FlowGraph) (f : Frame) : Flow :=
  match f.returnLabel.filter g.contains with
  | some label => .goto ⟨label, f.returnOffset.getD 0⟩
  | none => .halt .unresolvableReturn

/-- What a performed instruction does to the stack and to control. -/
inductive StackStep (g : FlowGraph) (control : Control) (inst : Instruction) (d : Delta)
    (fs fs' : List Frame) (flow : Flow) : Prop where
  /-- The current frame runs on. -/
  | runs (f f' : Frame) (callers : List Frame) (before : fs = f :: callers)
      (after : fs' = f' :: callers) (evolves : f.Evolves f') (goes : ∃ c, flow = .goto c)
  /-- The current frame calls, and its callee returns to the point after the call. -/
  | calls (push : CallPush) (f f' callee : Frame) (callers : List Frame)
      (before : fs = f :: callers) (after : fs' = callee :: f' :: callers) (evolves : f.Evolves f')
      (pushed : d.callPush = some push) (label : callee.returnLabel = some control.label)
      (offset : callee.returnOffset = some (control.offset + 1))
      (register : callee.resultRegister = if push.isConstructor then none else inst.result)
      (constructs : push.isConstructor = true → ∃ obj, d.newObjects = [obj] ∧
        ∀ reg, inst.result = some reg → f'.registers.get? reg = some (.str obj.address))
      (goes : ∃ c, flow = .goto c)
  /-- The outermost frame ends, and the run with it. -/
  | finishes (f f' : Frame) (before : fs = [f]) (after : fs' = [f'])
      (halts : flow = .halt .returned)
  /-- The current frame returns to its caller. -/
  | returns (v : Value) (f : Frame) (callers : List Frame) (before : fs = f :: callers)
      (nonempty : callers ≠ []) (after : fs' = deliver f.resultRegister v callers)
      (value : d.returnValue = some v) (goes : flow = returnFlow g f)

/-! ### Control after an instruction -/

variable {g : FlowGraph} {control : Control} {inst : Instruction} {d : Delta} {depth : Nat}
  {applied : State.Applied}

theorem advance_of_unwinds (h : inst.Unwinds) :
    advance g inst control d depth applied =
      unwind g d depth (stamp inst control d applied) := by
  unfold advance
  rcases h with h | h
  · rw [h]
  · rw [h]

/-- Where control goes after an instruction that does not unwind: to the block that the delta names,
if there is one, otherwise to the next instruction. -/
def nextControl (g : FlowGraph) (control : Control) (d : Delta) : Control :=
  match d.nextLabel.filter g.contains with
  | some label => ⟨label, 0⟩
  | none => { control with offset := control.offset + 1 }

theorem nextControl_cases (g : FlowGraph) (control : Control) (d : Delta) :
    (nextControl g control d = ⟨control.label, control.offset + 1⟩ ∧
        ∀ label, d.nextLabel = some label → g.contains label = false) ∨
      ∃ label, d.nextLabel = some label ∧ g.contains label = true ∧
        nextControl g control d = ⟨label, 0⟩ := by
  unfold nextControl
  cases hfilter : d.nextLabel.filter g.contains with
  | none =>
    refine .inl ⟨rfl, fun label hlabel => ?_⟩
    rw [hlabel] at hfilter
    simpa using hfilter
  | some label =>
    obtain ⟨hlabel, hcontains⟩ := Option.filter_eq_some_iff.mp hfilter
    exact .inr ⟨label, hlabel, hcontains, rfl⟩

theorem nextControl_of_next {label : String} (h : d.nextLabel = some label) :
    nextControl g control d =
      if g.contains label then ⟨label, 0⟩ else ⟨control.label, control.offset + 1⟩ := by
  unfold nextControl
  rw [h, Option.filter_some]
  split_ifs
  · rfl
  · rfl

theorem advance_of_not_unwinds (h : ¬ inst.Unwinds) :
    advance g inst control d depth applied =
      ((stamp inst control d applied).state, .goto (nextControl g control d)) := by
  unfold advance nextControl
  dsimp only
  split
  · rename_i hop
    exact absurd (.inl hop) h
  · rename_i hop
    exact absurd (.inr hop) h
  · cases d.nextLabel.filter g.contains with
    | none => rfl
    | some label => rfl

theorem stamp_of_push_eq_none (h : d.callPush = none) : stamp inst control d applied = applied := by
  unfold stamp
  rw [h]

theorem stamp_of_push {push : CallPush} (h : d.callPush = some push)
    (hlabel : d.nextLabel.isSome = true) :
    (stamp inst control d applied).state =
      applied.state.stampReturn control.label (control.offset + 1)
        (if push.isConstructor then none else inst.result) := by
  obtain ⟨label, hlabel⟩ := Option.isSome_iff_exists.mp hlabel
  unfold stamp
  rw [h, hlabel]

/-- The state without the current frame, and that frame: the delta has removed it, or it is removed
now. -/
def removed (applied : State.Applied) : State × Option Frame :=
  match applied.popped with
  | some frame => (applied.state, some frame)
  | none => applied.state.popFrame

/-- The state after the value that a frame returns is in the register that the frame was stamped
with. -/
def handOver (d : Delta) (frame : Frame) (s : State) : State :=
  match frame.resultRegister, d.returnValue with
  | some reg, some v => s.writeRegister reg v
  | _, _ => s

/-- Unwinding in three parts: the frame goes, its value is handed over, control returns. -/
theorem unwind_eq :
    unwind g d depth applied =
      if depth ≤ 1 then (applied.state, .halt .returned)
      else
        match (removed applied).2 with
        | none => ((removed applied).1, .halt .returned)
        | some frame => (handOver d frame (removed applied).1, returnFlow g frame) := by
  unfold unwind returnFlow
  split_ifs
  · rfl
  · change (match (removed applied).2 with | none => _ | some frame => _) = _
    cases (removed applied).2 with
    | none => rfl
    | some frame =>
      dsimp only
      cases frame.returnLabel.filter g.contains with
      | none => rfl
      | some label => rfl

theorem frames_writeRegister (s : State) (reg : String) (v : Value) :
    (s.writeRegister reg v).frames = deliver (some reg) v s.frames := by
  unfold State.writeRegister State.modifyCurrent
  cases hs : s.frames with
  | nil => exact hs
  | cons f callers => rfl

theorem frames_handOver {frame : Frame} {v : Value} (hvalue : d.returnValue = some v) (s : State) :
    (handOver d frame s).frames = deliver frame.resultRegister v s.frames := by
  unfold handOver
  rw [hvalue]
  cases frame.resultRegister with
  | none => cases s.frames <;> rfl
  | some reg => exact frames_writeRegister s reg v

/-- Unwinding where the delta has removed the frame already. -/
theorem unwind_of_popped {frame : Frame} {v : Value} (hdepth : 1 < depth)
    (hpopped : applied.popped = some frame) (hvalue : d.returnValue = some v)
    {s' : State} {flow : Flow} (h : unwind g d depth applied = (s', flow)) :
    s'.frames = deliver frame.resultRegister v applied.state.frames ∧
      flow = returnFlow g frame := by
  have hremoved : removed applied = (applied.state, some frame) := by
    unfold removed
    rw [hpopped]
  rw [unwind_eq, if_neg (by omega), hremoved] at h
  obtain ⟨rfl, rfl⟩ := Prod.mk.inj h
  exact ⟨frames_handOver hvalue applied.state, rfl⟩

/-- Where control can go: it ends with the last frame, returns to a caller, or moves on. -/
theorem flow_of_advance {s' : State} {flow : Flow}
    (h : advance g inst control d depth applied = (s', flow)) :
    flow = .halt .returned ∨ (∃ frame, flow = returnFlow g frame) ∨
      flow = .goto (nextControl g control d) := by
  by_cases hunwinds : inst.Unwinds
  · rw [advance_of_unwinds hunwinds, unwind_eq] at h
    split_ifs at h
    · exact .inl (Prod.mk.inj h).2.symm
    · cases hremoved : (removed (stamp inst control d applied)).2 with
      | none =>
        rw [hremoved] at h
        exact .inl (Prod.mk.inj h).2.symm
      | some frame =>
        rw [hremoved] at h
        exact .inr (.inl ⟨frame, (Prod.mk.inj h).2.symm⟩)
  · rw [advance_of_not_unwinds hunwinds] at h
    exact .inr (.inr (Prod.mk.inj h).2.symm)

/-- What stamping, popping and writing a register keep, control keeps: behind an applied delta it
does nothing else to the state. -/
theorem advance_invariant (Inv : State → Prop) {s' : State} {flow : Flow}
    (hstamp : ∀ s label offset register, Inv s → Inv (s.stampReturn label offset register))
    (hpop : ∀ s, Inv s → Inv s.popFrame.1)
    (hwrite : ∀ s reg v, Inv s → Inv (s.writeRegister reg v)) (hinv : Inv applied.state)
    (h : advance g inst control d depth applied = (s', flow)) : Inv s' := by
  have hstamped : Inv (stamp inst control d applied).state := by
    unfold stamp
    split
    · exact hstamp _ _ _ _ hinv
    · exact hinv
  have hremoved : Inv (removed (stamp inst control d applied)).1 := by
    unfold removed
    split
    · exact hstamped
    · exact hpop _ hstamped
  have hhanded : ∀ frame s, Inv s → Inv (handOver d frame s) := by
    intro frame s hs
    unfold handOver
    split
    · exact hwrite _ _ _ hs
    · exact hs
  by_cases hunwinds : inst.Unwinds
  · rw [advance_of_unwinds hunwinds, unwind_eq] at h
    split_ifs at h
    · obtain ⟨rfl, -⟩ := Prod.mk.inj h
      exact hstamped
    · split at h
      · obtain ⟨rfl, -⟩ := Prod.mk.inj h
        exact hremoved
      · obtain ⟨rfl, -⟩ := Prod.mk.inj h
        exact hhanded _ _ hremoved
  · rw [advance_of_not_unwinds hunwinds] at h
    obtain ⟨rfl, -⟩ := Prod.mk.inj h
    exact hstamped

/-! ### One step -/

theorem frames_of_apply {s : State} (h : s.apply d = .ok applied) :
    applied.state.frames = (s.effect d).1.frames ∧ applied.popped = (s.effect d).2 := by
  rw [State.apply_eq] at h
  obtain ⟨c, -, rfl⟩ := map_eq_ok.mp h
  exact ⟨rfl, rfl⟩

section Advance

variable {s s' : State} {flow : Flow} {f : Frame} {callers : List Frame}

/-- An instruction that leaves the stack alone. -/
theorem advance_of_keeps (hf : s.frames = f :: callers) (hstack : d.KeepsStack)
    (hop : ¬ inst.Unwinds) (happly : s.apply d = .ok applied)
    (hadvance : advance g inst control d s.depth applied = (s', flow)) :
    (∃ f', s'.frames = f' :: callers ∧ f.Evolves f') ∧ flow = .goto (nextControl g control d) := by
  obtain ⟨hcontinues, -⟩ := State.effect_of_keeps (s := s) hstack.push hstack.pop
  obtain ⟨f', hf', hevolves⟩ := hcontinues f callers hf
  rw [advance_of_not_unwinds hop, stamp_of_push_eq_none hstack.push] at hadvance
  obtain ⟨rfl, rfl⟩ := Prod.mk.inj hadvance
  exact ⟨⟨f', (frames_of_apply happly).1.trans hf', hevolves⟩, rfl⟩

/-- A call: the new frame is that of the function, stamped with the point after the instruction. -/
theorem advance_of_pushes {push : CallPush} (hf : s.frames = f :: callers)
    (hpush : d.callPush = some push) (hpop : d.callPop = false) (hop : ¬ inst.Unwinds)
    (hlabel : d.nextLabel.isSome = true) (happly : s.apply d = .ok applied)
    (hadvance : advance g inst control d s.depth applied = (s', flow)) :
    (∃ f' callee, s'.frames = callee :: f' :: callers ∧ f.Evolves f' ∧
      callee.function = push.function ∧ callee.returnLabel = some control.label ∧
      callee.returnOffset = some (control.offset + 1) ∧
      callee.resultRegister = (if push.isConstructor then none else inst.result) ∧
      ∀ reg v, d.registerWrites.get? reg = some v → f'.registers.get? reg = some v) ∧
    flow = .goto (nextControl g control d) := by
  obtain ⟨callee, f', heffect, hevolves, hcalled, -, hwrites⟩ :=
    State.effect_of_pushes hpush hpop hf
  rw [advance_of_not_unwinds hop, stamp_of_push hpush hlabel] at hadvance
  obtain ⟨rfl, rfl⟩ := Prod.mk.inj hadvance
  have hframes := (frames_of_apply happly).1.trans heffect
  exact ⟨⟨f', _, State.frames_modifyCurrent hframes _, hevolves, hcalled.function, rfl, rfl, rfl,
    hwrites⟩, rfl⟩

/-- A return: the outermost frame ends the run, any other returns to its caller. -/
theorem advance_of_pops {v : Value} (hf : s.frames = f :: callers) (hpush : d.callPush = none)
    (hpop : d.callPop = true) (hop : inst.Unwinds) (hvalue : d.returnValue = some v)
    (happly : s.apply d = .ok applied)
    (hadvance : advance g inst control d s.depth applied = (s', flow)) :
    (callers = [] ∧ (∃ f', s'.frames = [f']) ∧ flow = .halt .returned) ∨
      (callers ≠ [] ∧ s'.frames = deliver f.resultRegister v callers ∧ flow = returnFlow g f) := by
  obtain ⟨hframes, hpopped⟩ := frames_of_apply happly
  rw [advance_of_unwinds hop, stamp_of_push_eq_none hpush] at hadvance
  obtain ⟨g', hevolves, hcase⟩ := State.effect_of_pops hpush hpop hf
  rcases hcase with ⟨rfl, hone, -⟩ | ⟨hcallers, hrest, hgone⟩
  · -- the outermost frame
    unfold unwind at hadvance
    rw [if_pos (by unfold State.depth; rw [hf]; simp)] at hadvance
    obtain ⟨rfl, rfl⟩ := Prod.mk.inj hadvance
    exact .inl ⟨rfl, ⟨g', hframes.trans hone⟩, rfl⟩
  · have hdepth : 1 < s.depth := by
      unfold State.depth
      rw [hf, List.length_cons]
      have := List.length_pos_of_ne_nil hcallers
      omega
    obtain ⟨hafter, hflow⟩ := unwind_of_popped hdepth (hpopped.trans hgone) hvalue hadvance
    rw [hevolves.resultRegister, hframes, hrest] at hafter
    refine .inr ⟨hcallers, hafter, hflow.trans ?_⟩
    unfold returnFlow
    rw [hevolves.returnLabel, hevolves.returnOffset]

/-- **What a performed instruction does to the stack.** -/
theorem stackStep_of_advance (hne : s.frames ≠ []) (hstack : d.StackEffect inst)
    (happly : s.apply d = .ok applied)
    (hadvance : advance g inst control d s.depth applied = (s', flow)) :
    StackStep g control inst d s.frames s'.frames flow := by
  obtain ⟨f, callers, hf⟩ := List.exists_cons_of_ne_nil hne
  cases hstack with
  | keeps stack opcode =>
    obtain ⟨⟨f', hf', hevolves⟩, hflow⟩ := advance_of_keeps hf stack opcode happly hadvance
    exact .runs f f' callers hf hf' hevolves ⟨_, hflow⟩
  | pushes push pushed pop opcode label constructs =>
    obtain ⟨⟨f', callee, hafter, hevolves, -, hlabel, hoffset, hregister, hwrites⟩, hflow⟩ :=
      advance_of_pushes hf pushed pop opcode label happly hadvance
    refine .calls push f f' callee callers hf hafter hevolves pushed hlabel hoffset hregister ?_
      ⟨_, hflow⟩
    intro hconstructor
    obtain ⟨obj, hobj, hresult⟩ := constructs hconstructor
    exact ⟨obj, hobj, fun reg hreg => hwrites reg _ (hresult reg hreg)⟩
  | pops v push pop opcode value =>
    rcases advance_of_pops hf push pop opcode value happly hadvance with
      ⟨rfl, ⟨f', hf'⟩, hflow⟩ | ⟨hcallers, hafter, hflow⟩
    · exact .finishes f f' hf hf' hflow
    · exact .returns v f callers hf hcallers hafter value hflow

end Advance

end Run

end SymbolicVM

import SymbolicVM.Proofs.Engine.Footprint
import SymbolicVM.Proofs.Run.Stack
import SymbolicVM.Oracle.Replay
import Mathlib.Data.Nat.Init

/-!
# Return stamps

A frame is stamped with the point that it returns to and the register that takes its result when it
is pushed (`Run.stamp`). An oracle may answer with any delta, so pushes, pops and next labels come
in all combinations. `Run.stampStep_of_outcome` goes through them and says what a step does to the
stamps on the stack: it puts one on top, takes the highest one away, or leaves them as they are, but
for one combination. A delta that pushes a frame, pops it again and names a next label leaves no new
frame to be stamped, and the frame below it is stamped instead. So stamps stay as long as their
frames do exactly if no answer does this (`Run.stampsFixed_iff`).
-/

namespace SymbolicVM

/-- What a frame is stamped with. -/
structure ReturnStamp where
  label : Option String := none
  offset : Option Nat := none
  register : Option String := none
deriving DecidableEq

/-- The stamp of a frame. -/
def Frame.stamp (f : Frame) : ReturnStamp :=
  ⟨f.returnLabel, f.returnOffset, f.resultRegister⟩

theorem Frame.Evolves.stamp {f g : Frame} (h : f.Evolves g) : g.stamp = f.stamp := by
  unfold Frame.stamp
  rw [h.returnLabel, h.returnOffset, h.resultRegister]

namespace State

/-- The stamps on the stack, that of the current frame first. -/
def stamps (s : State) : List ReturnStamp :=
  s.frames.map Frame.stamp

/-- The stamp of the frame at a height, counted from the outermost frame. -/
def stampAt? (s : State) (height : Nat) : Option ReturnStamp :=
  s.stamps.reverse[height]?

theorem length_stamps (s : State) : s.stamps.length = s.depth :=
  List.length_map _

theorem stamps_ne_nil_iff {s : State} : s.stamps ≠ [] ↔ s.frames ≠ [] :=
  List.map_eq_nil_iff.not

theorem stamps_of_frames_eq {s t : State} (h : s.frames = t.frames) : s.stamps = t.stamps := by
  unfold stamps
  rw [h]

theorem tail_stamps_ne_nil {s : State} (h : 1 < s.depth) : s.stamps.tail ≠ [] := by
  intro hnil
  have hlength := congrArg List.length hnil
  rw [List.length_tail, length_stamps, List.length_nil] at hlength
  omega

theorem Continues.stamps {s t : State} (h : s.Continues t) (hne : s.frames ≠ []) :
    t.stamps = s.stamps := by
  obtain ⟨f, callers, hf⟩ := List.exists_cons_of_ne_nil hne
  obtain ⟨f', hf', hevolves⟩ := h f callers hf
  unfold State.stamps
  rw [hf, hf', List.map_cons, List.map_cons, hevolves.stamp]

theorem stamps_stampReturn (s : State) (label : String) (offset : Nat) (register : Option String)
    (hne : s.frames ≠ []) :
    (s.stampReturn label offset register).stamps =
      ⟨some label, some offset, register⟩ :: s.stamps.tail := by
  obtain ⟨f, callers, hf⟩ := List.exists_cons_of_ne_nil hne
  unfold stamps stampReturn
  rw [frames_modifyCurrent hf, hf]
  rfl

theorem stamps_popFrame (s : State) (hdepth : 1 < s.depth) :
    s.popFrame.1.stamps = s.stamps.tail := by
  unfold depth at hdepth
  unfold popFrame stamps
  cases hf : s.frames with
  | nil => simp [hf] at hdepth
  | cons f callers =>
    cases callers with
    | nil => simp [hf] at hdepth
    | cons caller callers => rfl

/-! ### The stamps after a delta -/

variable {s : State} {d : Delta}

/-- Without a push the stack stays, or its highest frame goes. -/
theorem stamps_effect_of_no_push (hne : s.frames ≠ []) (hpush : d.callPush = none) :
    ((s.effect d).2 = none ∧ (s.effect d).1.stamps = s.stamps) ∨
      ((s.effect d).2.isSome = true ∧ 1 < s.depth ∧ (s.effect d).1.stamps = s.stamps.tail) := by
  cases hpop : d.callPop with
  | false =>
    obtain ⟨hcontinues, hnone⟩ := effect_of_keeps (s := s) hpush hpop
    exact .inl ⟨hnone, hcontinues.stamps hne⟩
  | true =>
    obtain ⟨f, callers, hf⟩ := List.exists_cons_of_ne_nil hne
    obtain ⟨f', hevolves, hcase⟩ := effect_of_pops hpush hpop hf
    rcases hcase with ⟨rfl, hone, hnone⟩ | ⟨hcallers, hrest, hsome⟩
    · -- the outermost frame is not popped
      refine .inl ⟨hnone, ?_⟩
      unfold stamps
      rw [hone, hf, List.map_cons, List.map_cons, hevolves.stamp]
    · have hlength := List.length_pos_of_ne_nil hcallers
      refine .inr ⟨by rw [hsome]; rfl, ?_, ?_⟩
      · unfold depth
        rw [hf, List.length_cons]
        omega
      · unfold stamps
        rw [hrest, hf]
        rfl

/-- A push puts one stamp on top. -/
theorem stamps_effect_of_push {push : CallPush} (hne : s.frames ≠ [])
    (hpush : d.callPush = some push) (hpop : d.callPop = false) :
    (s.effect d).2 = none ∧
      (s.effect d).1.stamps = (Frame.ofPush push).stamp :: s.stamps := by
  obtain ⟨f, callers, hf⟩ := List.exists_cons_of_ne_nil hne
  obtain ⟨callee, f', heffect, hevolves, hcalled, hnone, -⟩ := effect_of_pushes hpush hpop hf
  refine ⟨hnone, ?_⟩
  unfold stamps
  rw [heffect, hf, List.map_cons, List.map_cons, List.map_cons, hevolves.stamp, hcalled.stamp]

/-- A frame that is pushed and popped by one delta leaves the stack as it was. -/
theorem stamps_effect_of_push_pop {push : CallPush} (hne : s.frames ≠ [])
    (hpush : d.callPush = some push) (hpop : d.callPop = true) :
    (s.effect d).2.isSome = true ∧ (s.effect d).1.stamps = s.stamps := by
  obtain ⟨f, callers, hf⟩ := List.exists_cons_of_ne_nil hne
  obtain ⟨caller, hcaller, hevolves⟩ := continues_record_install s d f callers hf
  obtain ⟨callee, hcallee, -⟩ :=
    continues_writeVars (((s.install d).record d).pushFrame push) true d.varWrites _ _ rfl
  rw [hcaller] at hcallee
  have heffect : s.effect d =
      ((((s.install d).record d).pushFrame push).writeVars true d.varWrites).popFrame := by
    unfold effect moveStack
    rw [hpush, hpop]
    rfl
  unfold popFrame at heffect
  rw [hcallee] at heffect
  rw [heffect]
  refine ⟨rfl, ?_⟩
  unfold stamps
  rw [hf, List.map_cons, List.map_cons, hevolves.stamp]

end State

namespace Run

section Steps

variable {g : FlowGraph} {inst : Instruction} {control : Control} {d : Delta} {s s' : State}
  {applied : State.Applied} {flow : Flow}

/-- The stamp of a frame that is pushed at a point of control. -/
def stampBehind (control : Control) (inst : Instruction) (push : CallPush) : ReturnStamp :=
  ⟨some control.label, some (control.offset + 1), if push.isConstructor then none else inst.result⟩

/-- The delta pushes a frame and pops it again, and the frame below it gets its stamp. -/
def Misstamps (d : Delta) (push : CallPush) : Prop :=
  d.callPush = some push ∧ d.callPop = true ∧ d.nextLabel.isSome = true

/-- What a performed instruction does to the stamps on the stack, that of the current frame
first. -/
inductive StampStep (control : Control) (inst : Instruction) (d : Delta)
    (old new : List ReturnStamp) : Prop where
  | keeps (same : new = old)
  | pushes (stamp : ReturnStamp) (above : new = stamp :: old)
  | pops (rest : new = old.tail) (nonempty : old.tail ≠ [])
  | misstamps (push : CallPush) (combined : Misstamps d push)
      (replaced : new = stampBehind control inst push :: old.tail)

theorem stamps_handOver (d : Delta) (frame : Frame) (s : State) :
    (handOver d frame s).stamps = s.stamps := by
  unfold handOver
  split
  · rename_i reg v _ _
    unfold State.stamps
    rw [frames_writeRegister]
    cases s.frames with
    | nil => rfl
    | cons f callers => rfl
  · rfl

/-- Unwinding removes a frame only if the delta has not removed one. -/
theorem stamps_unwind {depth : Nat} (h : unwind g d depth applied = (s', flow)) :
    s'.stamps = applied.state.stamps ∨
      (1 < depth ∧ applied.popped = none ∧
        s'.stamps = applied.state.popFrame.1.stamps) := by
  rw [unwind_eq] at h
  split_ifs at h with hdepth
  · obtain ⟨rfl, -⟩ := Prod.mk.inj h
    exact .inl rfl
  · have hstamps : s'.stamps = (removed applied).1.stamps := by
      split at h
      · obtain ⟨rfl, -⟩ := Prod.mk.inj h
        rfl
      · obtain ⟨rfl, -⟩ := Prod.mk.inj h
        exact stamps_handOver _ _ _
    rw [hstamps]
    unfold removed
    cases hpopped : applied.popped with
    | some frame => exact .inl rfl
    | none => exact .inr ⟨by omega, rfl, rfl⟩

theorem popped_stamp : (stamp inst control d applied).popped = applied.popped := by
  unfold stamp
  split <;> rfl

/-- After the stamping, an instruction may remove the highest frame if its delta has not. -/
theorem stamps_advance {depth : Nat} (h : advance g inst control d depth applied = (s', flow)) :
    s'.stamps = (stamp inst control d applied).state.stamps ∨
      (1 < depth ∧ applied.popped = none ∧
        s'.stamps = (stamp inst control d applied).state.popFrame.1.stamps) := by
  by_cases hop : inst.Unwinds
  · rw [advance_of_unwinds hop] at h
    have hpopped : (stamp inst control d applied).popped = applied.popped := popped_stamp
    rw [← hpopped]
    exact stamps_unwind h
  · rw [advance_of_not_unwinds hop] at h
    obtain ⟨rfl, -⟩ := Prod.mk.inj h
    exact .inl rfl

/-- The stamping changes the highest stamp if the delta pushes and names a next label. -/
theorem stamps_stamp {push : CallPush} (hpush : d.callPush = some push)
    (hne : applied.state.frames ≠ []) :
    (stamp inst control d applied).state.stamps =
      if d.nextLabel.isSome then stampBehind control inst push :: applied.state.stamps.tail
      else applied.state.stamps := by
  cases hnext : d.nextLabel with
  | none =>
    unfold stamp
    rw [hpush, hnext]
    rfl
  | some label =>
    rw [stamp_of_push hpush (by rw [hnext]; rfl)]
    exact State.stamps_stampReturn _ _ _ _ hne

/-- Without a push an instruction keeps the stamps or removes the highest one. -/
theorem stamps_advance_of_no_push (hne : s.frames ≠ []) (hpush : d.callPush = none)
    (happly : s.apply d = .ok applied)
    (hadvance : advance g inst control d s.depth applied = (s', flow)) :
    s'.stamps = s.stamps ∨ (s'.stamps = s.stamps.tail ∧ s.stamps.tail ≠ []) := by
  obtain ⟨hframes, hpopped⟩ := frames_of_apply happly
  have hstamps := State.stamps_of_frames_eq hframes
  have hafter := stamps_advance hadvance
  rw [stamp_of_push_eq_none hpush] at hafter
  rcases State.stamps_effect_of_no_push hne hpush with ⟨-, hsame⟩ | ⟨hsome, hdepth, hrest⟩
  · rw [hsame] at hstamps
    rcases hafter with hafter | ⟨hdepth, -, hafter⟩
    · exact .inl (hafter.trans hstamps)
    · have hdepth' : 1 < applied.state.depth := by
        rwa [← State.length_stamps, hstamps, State.length_stamps]
      rw [State.stamps_popFrame _ hdepth', hstamps] at hafter
      exact .inr ⟨hafter, State.tail_stamps_ne_nil hdepth⟩
  · rw [hrest] at hstamps
    rcases hafter with hafter | ⟨-, hnone, -⟩
    · exact .inr ⟨hafter.trans hstamps, State.tail_stamps_ne_nil hdepth⟩
    · -- a frame that the delta has removed is not removed again
      rw [← hpopped, hnone] at hsome
      contradiction

/-- A push puts a stamp on top. Where the instruction unwinds, the new frame goes at once. -/
theorem stamps_advance_of_push {push : CallPush} (hne : s.frames ≠ [])
    (hpush : d.callPush = some push) (hpop : d.callPop = false) (happly : s.apply d = .ok applied)
    (hadvance : advance g inst control d s.depth applied = (s', flow)) :
    s'.stamps = s.stamps ∨ ∃ top, s'.stamps = top :: s.stamps := by
  obtain ⟨-, habove⟩ := State.stamps_effect_of_push hne hpush hpop
  have hstamps := (State.stamps_of_frames_eq (frames_of_apply happly).1).trans habove
  have hne' : applied.state.frames ≠ [] := by
    rw [← State.stamps_ne_nil_iff, hstamps]
    exact List.cons_ne_nil _ _
  -- the new frame has some stamp, and those below it have not changed
  obtain ⟨top, htop⟩ : ∃ top, (stamp inst control d applied).state.stamps = top :: s.stamps := by
    rw [stamps_stamp hpush hne', hstamps]
    split_ifs
    · exact ⟨_, rfl⟩
    · exact ⟨_, rfl⟩
  rcases stamps_advance hadvance with hafter | ⟨hdepth, -, hafter⟩
  · exact .inr ⟨top, hafter.trans htop⟩
  · have hdepth' : 1 < (stamp inst control d applied).state.depth := by
      rw [← State.length_stamps, htop, List.length_cons, State.length_stamps]
      omega
    rw [State.stamps_popFrame _ hdepth', htop] at hafter
    exact .inl hafter

/-- A push that is taken back keeps the stamps, unless there is a next label: then the frame that is
left on top is stamped in place of the new one. -/
theorem stamps_advance_of_push_pop {push : CallPush} (hne : s.frames ≠ [])
    (hpush : d.callPush = some push) (hpop : d.callPop = true) (happly : s.apply d = .ok applied)
    (hadvance : advance g inst control d s.depth applied = (s', flow)) :
    s'.stamps =
      if d.nextLabel.isSome then stampBehind control inst push :: s.stamps.tail else s.stamps := by
  obtain ⟨hframes, hpopped⟩ := frames_of_apply happly
  obtain ⟨hsome, hsame⟩ := State.stamps_effect_of_push_pop hne hpush hpop
  have hstamps := (State.stamps_of_frames_eq hframes).trans hsame
  have hne' : applied.state.frames ≠ [] := by
    rw [← State.stamps_ne_nil_iff, hstamps]
    exact State.stamps_ne_nil_iff.mpr hne
  rcases stamps_advance hadvance with hafter | ⟨-, hnone, -⟩
  · rw [hafter, stamps_stamp hpush hne', hstamps]
  · rw [← hpopped, hnone] at hsome
    contradiction

/-- **What a performed instruction does to the stamps**, whatever its delta is. -/
theorem stampStep_of_advance (hne : s.frames ≠ []) (happly : s.apply d = .ok applied)
    (hadvance : advance g inst control d s.depth applied = (s', flow)) :
    StampStep control inst d s.stamps s'.stamps := by
  cases hpush : d.callPush with
  | none =>
    rcases stamps_advance_of_no_push hne hpush happly hadvance with hsame | ⟨hrest, hnonempty⟩
    · exact .keeps hsame
    · exact .pops hrest hnonempty
  | some push =>
    cases hpop : d.callPop with
    | false =>
      rcases stamps_advance_of_push hne hpush hpop happly hadvance with hsame | ⟨top, habove⟩
      · exact .keeps hsame
      · exact .pushes top habove
    | true =>
      have hafter := stamps_advance_of_push_pop hne hpush hpop happly hadvance
      split_ifs at hafter with hnext
      · exact .misstamps push ⟨hpush, hpop, hnext⟩ hafter
      · exact .keeps hafter

/-! ### Stamps by height -/

namespace StampStep

variable {old new : List ReturnStamp}

theorem ne_nil (h : StampStep control inst d old new) (hold : old ≠ []) : new ≠ [] := by
  cases h with
  | keeps same => rwa [same]
  | pushes stamp above => simp [above]
  | pops rest nonempty => rwa [rest]
  | misstamps push combined replaced => simp [replaced]

theorem getElem?_reverse_cons (stamp : ReturnStamp) {stamps : List ReturnStamp} {height : Nat}
    (h : height < stamps.length) :
    (stamp :: stamps).reverse[height]? = stamps.reverse[height]? := by
  rw [List.reverse_cons, List.getElem?_append_left (by rwa [List.length_reverse])]

/-- The stamp at a height stays, unless it is the highest one and replaced by another. -/
theorem getElem?_reverse (h : StampStep control inst d old new) {height : Nat}
    (hold : height < old.length) (hnew : height < new.length)
    (hkept : ∀ push, Misstamps d push → old.head? = some (stampBehind control inst push)) :
    new.reverse[height]? = old.reverse[height]? := by
  obtain ⟨top, below, rfl⟩ := List.exists_cons_of_ne_nil (List.ne_nil_of_length_pos
    (Nat.lt_of_le_of_lt (Nat.zero_le height) hold))
  cases h with
  | keeps same => rw [same]
  | pushes stamp above =>
    rw [above]
    exact getElem?_reverse_cons stamp hold
  | pops rest nonempty =>
    rw [rest] at hnew ⊢
    exact (getElem?_reverse_cons top hnew).symm
  | misstamps push combined replaced =>
    obtain rfl := Option.some.inj (hkept push combined)
    rw [replaced]
    rfl

end StampStep

end Steps

/-! ### Whole runs -/

section Runs

variable {σ : Type} {g : FlowGraph} {registry : Registry} {oracle : Oracle σ} {oracleState : σ}
  {options : RunOptions} {p q : Progress σ} {flow : Flow}

/-- At this point of a run the delta replaces the stamp of the current frame by a different one. -/
def Restamps (p : Progress σ) (inst : Instruction) (d : Delta) : Prop :=
  ∃ push f, Misstamps d push ∧ p.state.current? = some f ∧
    f.stamp ≠ stampBehind p.control inst push

/-- In a list of points of a run, stamps stay as long as their frames do, and the outermost frame
has none. A step removes at most the highest frame, so the frame at a height is the same one as long
as the stack is higher than that. -/
structure StampsFixed (points : List (Progress σ)) : Prop where
  fixed : ∀ (i j : Nat) (p q : Progress σ) (height : Nat), i ≤ j → points[i]? = some p →
    points[j]? = some q →
    (∀ (k : Nat) (r : Progress σ), i ≤ k → k ≤ j → points[k]? = some r →
      height < r.state.depth) →
    q.state.stampAt? height = p.state.stampAt? height
  outermost : ∀ p ∈ points, p.state.stampAt? 0 = some {}

theorem stampStep_of_outcome (hne : p.state.frames ≠ [])
    (h : StepOutcome g registry oracle p q flow) :
    q.state = p.state ∨ ∃ inst d, Performs g registry oracle p inst d ∧
      StampStep p.control inst d p.state.stamps q.state.stamps := by
  cases h with
  | moved state idle ends => exact .inl state
  | performed inst d applied located decided apply advance =>
    exact .inr ⟨inst, d, ⟨located, decided⟩, stampStep_of_advance hne apply advance⟩

/-- The stack of a run is never empty. -/
theorem frames_ne_nil_of_history :
    ∀ p ∈ history g registry oracle oracleState options, p.state.frames ≠ [] := by
  apply history_induction
  · intro label
    exact List.cons_ne_nil _ _
  · intro k p q flow _ _ hp houtcome
    rcases stampStep_of_outcome hp houtcome with hstate | ⟨inst, d, -, hstep⟩
    · rwa [hstate]
    · exact State.stamps_ne_nil_iff.mp (hstep.ne_nil (State.stamps_ne_nil_iff.mpr hp))

theorem head?_stamps (s : State) : s.stamps.head? = s.current?.map Frame.stamp := by
  unfold State.stamps State.current?
  rw [List.head?_map]

/-- One step keeps the stamp at a height if it does not restamp. -/
theorem stampAt?_of_reaches (hne : p.state.frames ≠ [])
    (hreaches : Reaches g registry oracle options.trace p q flow) {height : Nat}
    (hp : height < p.state.depth) (hq : height < q.state.depth)
    (hkept : ∀ inst d, Performs g registry oracle p inst d → ¬ Restamps p inst d) :
    q.state.stampAt? height = p.state.stampAt? height := by
  rcases stampStep_of_outcome hne (stepOutcome_of_reaches hreaches) with
    hstate | ⟨inst, d, hperforms, hstep⟩
  · rw [hstate]
  · rw [← State.length_stamps] at hp hq
    refine hstep.getElem?_reverse hp hq fun push hcombined => ?_
    obtain ⟨f, callers, hf⟩ := List.exists_cons_of_ne_nil hne
    have hcurrent : p.state.current? = some f := by
      unfold State.current?
      rw [hf]
      rfl
    rw [head?_stamps, hcurrent, Option.map_some, Option.some.injEq]
    by_contra hdiffers
    exact hkept inst d hperforms ⟨push, f, hcombined, hcurrent, hdiffers⟩

/-- A step that restamps changes the stamp of the frame that was the highest one. -/
theorem stampAt?_ne_of_restamps {inst : Instruction} {d : Delta} (hne : p.state.frames ≠ [])
    (hreaches : Reaches g registry oracle options.trace p q flow)
    (hperforms : Performs g registry oracle p inst d) (hrestamps : Restamps p inst d) :
    q.state.depth = p.state.depth ∧
      q.state.stampAt? (p.state.depth - 1) ≠ p.state.stampAt? (p.state.depth - 1) := by
  obtain ⟨push, f, ⟨hpush, hpop, hnext⟩, hcurrent, hdiffers⟩ := hrestamps
  have hafter : q.state.stamps = stampBehind p.control inst push :: p.state.stamps.tail := by
    rcases advance_of_performs (stepOutcome_of_reaches hreaches) hperforms with
      ⟨rfl, -⟩ | ⟨applied, happly, hadvance⟩
    · contradiction
    · rw [stamps_advance_of_push_pop hne hpush hpop happly hadvance, if_pos hnext]
  obtain ⟨callers, hframes⟩ := List.head?_eq_some_iff.mp hcurrent
  have hbefore : p.state.stamps = f.stamp :: callers.map Frame.stamp := by
    unfold State.stamps
    rw [hframes, List.map_cons]
  have hdepth : p.state.depth = callers.length + 1 := by
    unfold State.depth
    rw [hframes, List.length_cons]
  rw [hbefore, List.tail_cons] at hafter
  -- the highest stamp is the last one when they are listed from the outermost frame
  have hlast (top : ReturnStamp) :
      (top :: callers.map Frame.stamp).reverse[callers.length]? = some top := by
    have hlength : (callers.map Frame.stamp).reverse.length = callers.length := by simp
    rw [List.reverse_cons, ← hlength, List.getElem?_concat_length]
  constructor
  · rw [← State.length_stamps, hafter, hdepth, List.length_cons, List.length_map]
  · unfold State.stampAt?
    rw [hdepth, Nat.add_sub_cancel, hafter, hbefore, hlast, hlast]
    exact fun heq => hdiffers (Option.some.inj heq).symm

/-- The engine pushes or pops, but never both. -/
theorem not_restamps_of_engine {inst : Instruction} {d : Delta}
    (h : Engine.decide registry inst p.state = .ok d) : ¬ Restamps p inst d := by
  rintro ⟨push, f, ⟨hpush, hpop, -⟩, -, -⟩
  cases (Engine.decide_eq_ok h).1 with
  | keeps stack opcode =>
    rw [stack.push] at hpush
    contradiction
  | pushes push pushed pop opcode label constructs =>
    rw [pop] at hpop
    contradiction
  | pops v push pop opcode value =>
    rw [push] at hpush
    contradiction

variable (g registry oracle oracleState options) in
/-- No answer of the oracle that the run applies restamps a frame. -/
def NoAnswerRestamps : Prop :=
  ∀ (k : Nat) p q inst d, (history g registry oracle oracleState options)[k]? = some p →
    (history g registry oracle oracleState options)[k + 1]? = some q →
    Performs g registry oracle p inst d → Engine.decide registry inst p.state ≠ .ok d →
    ¬ Restamps p inst d

/-- A run without such an answer keeps all stamps: what holds of one step holds of many. -/
theorem stampAt?_of_history (h : NoAnswerRestamps g registry oracle oracleState options)
    {i j : Nat} (hij : i ≤ j)
    (hp : (history g registry oracle oracleState options)[i]? = some p)
    (hq : (history g registry oracle oracleState options)[j]? = some q) {height : Nat}
    (hstays : ∀ (k : Nat) r, i ≤ k → k ≤ j →
      (history g registry oracle oracleState options)[k]? = some r → height < r.state.depth) :
    q.state.stampAt? height = p.state.stampAt? height := by
  induction j, hij using Nat.le_induction generalizing q with
  | base => rw [Option.some.inj (hp.symm.trans hq)]
  | succ j hij ih =>
    obtain ⟨m, hm⟩ := exists_earlier (Nat.le_succ j) hq
    obtain ⟨flow, hreaches⟩ := reaches_of_history hm hq
    have hne := frames_ne_nil_of_history m (List.mem_of_getElem? hm)
    have hbefore := hstays j m hij (Nat.le_succ j) hm
    have hafter := hstays (j + 1) q (by omega) (Nat.le_refl _) hq
    have hstep : q.state.stampAt? height = m.state.stampAt? height := by
      refine stampAt?_of_reaches hne hreaches hbefore hafter fun inst d hperforms => ?_
      by_cases hengine : Engine.decide registry inst m.state = .ok d
      · exact not_restamps_of_engine hengine
      · exact h j m q inst d hm hq hperforms hengine
    rw [hstep]
    exact ih hm fun k r hk hkj => hstays k r hk (by omega)

variable (g registry oracle oracleState options) in
/-- **Return stamps stay as long as their frames do, exactly if no answer restamps.** In a run with
any oracle, no step changes the label, the offset or the register that a frame on the stack is
stamped with, and the outermost frame has none of them, if and only if no answer of the oracle
pushes a frame, pops it again and names a next label, where the frame that is left on top has
another stamp than the new one would get. The engine's own decisions never do this. -/
theorem stampsFixed_iff :
    (StampsFixed (history g registry oracle oracleState options) ↔
      NoAnswerRestamps g registry oracle oracleState options) ∧
    ∀ p ∈ history g registry oracle oracleState options, ∀ inst d,
      Engine.decide registry inst p.state = .ok d → ¬ Restamps p inst d := by
  refine ⟨⟨fun hfixed k p q inst d hp hq hperforms _ hrestamps => ?_, fun h => ⟨?_, ?_⟩⟩, ?_⟩
  · -- the stamp that is replaced was the highest one, and the stack is as high as before
    obtain ⟨flow, hreaches⟩ := reaches_of_history hp hq
    have hne := frames_ne_nil_of_history p (List.mem_of_getElem? hp)
    obtain ⟨hdepth, hchanged⟩ := stampAt?_ne_of_restamps hne hreaches hperforms hrestamps
    have hpositive : 0 < p.state.depth := List.length_pos_of_ne_nil hne
    refine hchanged (hfixed.fixed k (k + 1) p q _ (Nat.le_succ k) hp hq fun m r hkm hmk hr => ?_)
    obtain rfl | rfl : m = k ∨ m = k + 1 := by omega
    · obtain rfl := Option.some.inj (hp.symm.trans hr)
      omega
    · obtain rfl := Option.some.inj (hq.symm.trans hr)
      omega
  · intro i j p q height hij hp hq hstays
    exact stampAt?_of_history h hij hp hq hstays
  · -- the outermost frame stays on the stack from the start
    intro p hp
    obtain ⟨k, hk⟩ := List.getElem?_of_mem hp
    obtain ⟨start, hstart⟩ := exists_earlier (Nat.zero_le k) hk
    have hfirst : start.state.stampAt? 0 = some {} := by
      obtain ⟨label, rfl⟩ := eq_startAt hstart
      rfl
    rw [← hfirst]
    refine stampAt?_of_history h (Nat.zero_le k) hstart hk fun m r _ _ hr => ?_
    exact List.length_pos_of_ne_nil (frames_ne_nil_of_history r (List.mem_of_getElem? hr))
  · intro p hp inst d hdecide
    exact not_restamps_of_engine hdecide

end Runs

/-! ### Two answers -/

/-- A program that asks the oracle for a value, with a function behind it. -/
def consultingProgram : List Instruction :=
  [{ opcode := .callUnknown, result := some "%0", operands := [.text "ext"] },
    { opcode := .ret, operands := [.text "%0"] }, { opcode := .label, label := some "func_f" },
    { opcode := .const, result := some "%1", operands := [.text "5"] },
    { opcode := .ret, operands := [.text "%1"] }]

/-- The run of the program with one recorded answer. -/
def consultingRun (answer : String) : List (Progress Recording) :=
  history (.ofInstructions consultingProgram) {} ReplayOracle.oracle ⟨[answer], 0⟩ {}

/-- An answer that calls the function. -/
def callingAnswer : String :=
  r#"{"register_writes": {"%0": 1}, "call_push": {"function_name": "f"}, "next_label": "func_f"}"#

/-- An answer that calls a function and returns from it at once. -/
def bouncingAnswer : String :=
  r#"{"register_writes": {"%0": 1}, "call_push": {"function_name": "f"}, "call_pop": true, "# ++
    r#""next_label": "func_g"}"#

/-- Whether the delta at a point both pushes and pops. -/
def bounces (p : Progress Recording) : Bool :=
  ((instruction? (.ofInstructions consultingProgram) p.control).bind fun inst =>
    (decision? {} ReplayOracle.oracle inst p).map fun d => d.callPush.isSome && d.callPop) =
      some true

/-- The function is stamped with the point behind the question and its register until it returns. -/
theorem callingAnswer_fixed :
    StampsFixed (consultingRun callingAnswer) ∧
    (consultingRun callingAnswer).map (fun p => (p.state.stamps, bounces p)) =
      [([{}], false), ([⟨some "__block_0", some 1, some "%0"⟩, {}], false),
        ([⟨some "__block_0", some 1, some "%0"⟩, {}], false), ([{}], false), ([{}], false)] := by
  have hview : (consultingRun callingAnswer).map (fun p => (p.state.stamps, bounces p)) =
      [([{}], false), ([⟨some "__block_0", some 1, some "%0"⟩, {}], false),
        ([⟨some "__block_0", some 1, some "%0"⟩, {}], false), ([{}], false), ([{}], false)] := by
    decide +kernel
  refine ⟨(stampsFixed_iff (.ofInstructions consultingProgram) {} ReplayOracle.oracle
    ⟨[callingAnswer], 0⟩ {}).1.mpr fun k p q inst d hp _ hperforms _ hrestamps => ?_, hview⟩
  obtain ⟨push, f, ⟨hpush, hpop, -⟩, -⟩ := hrestamps
  have hbounces : bounces p = true := by
    unfold bounces
    rw [hperforms.1, Option.bind_some, hperforms.2, Option.map_some, hpush, hpop]
    rfl
  have hmem : (p.state.stamps, bounces p) ∈
      (consultingRun callingAnswer).map fun p => (p.state.stamps, bounces p) :=
    List.mem_map_of_mem (List.mem_of_getElem? hp)
  rw [hview, hbounces] at hmem
  simp at hmem

/-- The outermost frame gets the stamp of a frame that is gone when the stamp is set. -/
theorem bouncingAnswer_stamps_outermost :
    (consultingRun bouncingAnswer).map (·.state.stamps) =
      [[{}], [⟨some "__block_0", some 1, some "%0"⟩],
        [⟨some "__block_0", some 1, some "%0"⟩]] ∧
    ¬ StampsFixed (consultingRun bouncingAnswer) := by
  have hview : (consultingRun bouncingAnswer).map (·.state.stamps) =
      [[{}], [⟨some "__block_0", some 1, some "%0"⟩],
        [⟨some "__block_0", some 1, some "%0"⟩]] := by
    decide +kernel
  refine ⟨hview, fun hfixed => ?_⟩
  have hmem : [⟨some "__block_0", some 1, some "%0"⟩] ∈
      (consultingRun bouncingAnswer).map (·.state.stamps) := by
    rw [hview]
    simp
  obtain ⟨p, hp, hstamped⟩ := List.mem_map.mp hmem
  have hplain := hfixed.outermost p hp
  unfold State.stampAt? at hplain
  rw [hstamped] at hplain
  simp at hplain

end Run

end SymbolicVM

import SymbolicVM.Proofs.Run.ControlFlow

/-!
# Which side of a branch is taken

A conditional branch that the engine decides names the target that its condition picks, and records
the condition as a path condition. Control goes to the target only if it is a block. Otherwise it
goes on behind the branch, which is the last instruction of its block, and from there to the first
successor of the block: the other target, if that is a block. So control agrees with the path
condition exactly unless the other target alone exists (`Run.branch_enters_iff`).
-/

namespace SymbolicVM.Run

variable {σ : Type}

/-! ### The next block -/

/-- In a list of points of a run, the first point behind position `k` at which a block begins is the
beginning of the block with this label. -/
def EntersNext (points : List (Progress σ)) (k : Nat) (label : String) : Prop :=
  ∃ m q, k < m ∧ points[m]? = some q ∧ q.control = ⟨label, 0⟩ ∧
    ∀ j p, k < j → j < m → points[j]? = some p → p.control.offset ≠ 0

section EntersNext

variable {points : List (Progress σ)} {k : Nat} {q : Progress σ} {label : String}

theorem not_entersNext (h : points[k + 1]? = none) : ¬ EntersNext points k label := by
  rintro ⟨m, r, hkm, hr, -, -⟩
  obtain ⟨p, hp⟩ := exists_earlier (Nat.succ_le_of_lt hkm) hr
  rw [h] at hp
  contradiction

theorem entersNext_iff_of_start (hq : points[k + 1]? = some q) (hstart : q.control.offset = 0) :
    EntersNext points k label ↔ label = q.control.label := by
  constructor
  · rintro ⟨m, r, hkm, hr, hcontrol, hbetween⟩
    by_cases hm : m = k + 1
    · rw [hm, hq] at hr
      obtain rfl := Option.some.inj hr
      rw [hcontrol]
    · exact absurd hstart (hbetween (k + 1) q (by omega) (by omega) hq)
  · rintro rfl
    refine ⟨k + 1, q, by omega, hq, ?_, fun j p hj hj' => by omega⟩
    rw [← hstart]

theorem entersNext_iff_of_inside (hq : points[k + 1]? = some q) (hinside : q.control.offset ≠ 0) :
    EntersNext points k label ↔ EntersNext points (k + 1) label := by
  constructor
  · rintro ⟨m, r, hkm, hr, hcontrol, hbetween⟩
    refine ⟨m, r, ?_, hr, hcontrol, fun j p hj hjm => hbetween j p (by omega) hjm⟩
    -- the point right behind is not at the beginning of a block
    by_contra hle
    obtain rfl : m = k + 1 := by omega
    rw [hq] at hr
    obtain rfl := Option.some.inj hr
    exact hinside (by rw [hcontrol])
  · rintro ⟨m, r, hkm, hr, hcontrol, hbetween⟩
    refine ⟨m, r, by omega, hr, hcontrol, fun j p hj hjm hp => ?_⟩
    by_cases hfirst : j = k + 1
    · rw [hfirst, hq] at hp
      obtain rfl := Option.some.inj hp
      exact hinside
    · exact hbetween j p (by omega) hjm hp

end EntersNext

/-! ### The end of a block -/

section Steps

variable {g : FlowGraph} {registry : Registry} {oracle : Oracle σ} {keepTrace : Bool}
  {p q : Progress σ} {block : Block}

theorem step_of_successor {next : String} (hblock : g.block? p.control.label = some block)
    (hend : block.body[p.control.offset]? = none) (hnext : block.successors.head? = some next) :
    step g registry oracle keepTrace p =
      .next { p with steps := p.steps + 1, control := ⟨next, 0⟩ } := by
  unfold step
  dsimp only
  rw [hblock]
  dsimp only
  rw [hend]
  dsimp only
  rw [hnext]

theorem step_of_no_successor (hblock : g.block? p.control.label = some block)
    (hend : block.body[p.control.offset]? = none) (hnext : block.successors.head? = none) :
    step g registry oracle keepTrace p = .halt .endOfProgram { p with steps := p.steps + 1 } := by
  unfold step
  dsimp only
  rw [hblock]
  dsimp only
  rw [hend]
  dsimp only
  rw [hnext]

/-- Nothing is visited behind the point with which the run halts. -/
theorem visited_of_halt {budget k : Nat} {start : Progress σ} {reason : HaltReason}
    (hp : (visited g registry oracle keepTrace budget start)[k]? = some p)
    (hhalt : step g registry oracle keepTrace p = .halt reason q) :
    (visited g registry oracle keepTrace budget start)[k + 2]? = none := by
  induction budget generalizing start k with
  | zero => simp [visited]
  | succ budget ih =>
    unfold visited at hp ⊢
    rw [List.getElem?_cons_succ]
    cases hs : step g registry oracle keepTrace start with
    | next r =>
      rw [hs] at hp
      cases k with
      | zero =>
        obtain rfl := Option.some.inj hp
        rw [hs] at hhalt
        contradiction
      | succ k =>
        rw [List.getElem?_cons_succ] at hp
        exact ih hp
    | halt reason' r => simp
    | fail e oracleState => simp

variable {oracleState : σ} {options : RunOptions} {k : Nat}

theorem history_of_halt {reason : HaltReason}
    (hp : (history g registry oracle oracleState options)[k]? = some p)
    (hhalt : step g registry oracle options.trace p = .halt reason q) :
    (history g registry oracle oracleState options)[k + 2]? = none := by
  rcases @history_eq σ g registry oracle oracleState options with h | ⟨label, h⟩
  · simp [h]
  · rw [h] at hp ⊢
    exact visited_of_halt hp hhalt

end Steps

/-! ### Decided branches -/

/-- The delta of a conditional branch that the engine decides. -/
def branchDelta (condition : Operand) (v : Value) (taken : Bool) (target : String) : Delta where
  nextLabel := some target
  pathCondition := some (condition.render ++ " is " ++ (Value.bool taken).render)
  reasoning := "branch " ++ v.render ++ " -> " ++ target

theorem decide_branchIf {registry : Registry} {inst : Instruction} {s : State}
    {onTrue onFalse : String} {condition : Operand} {v : Value} {taken : Bool}
    (htargets : inst.branchTargets? = some (onTrue, onFalse))
    (hoperand : inst.operand? 0 = some condition) (hresolve : Engine.resolve s condition = .ok v)
    (htruth : v.truthy? = some taken) :
    Engine.decide registry inst s =
      .ok (branchDelta condition v taken (if taken then onTrue else onFalse)) := by
  unfold Engine.decide
  rw [Instruction.opcode_of_branchTargets? htargets]
  dsimp only
  unfold Engine.decideBranchIf Engine.operand
  rw [htargets, hoperand]
  simp only [Engine.orRefuse, ok_bind]
  rw [hresolve, ok_bind, htruth]
  rfl

theorem apply_branchDelta (s : State) (condition : Operand) (v : Value) (taken : Bool)
    (target : String) :
    s.apply (branchDelta condition v taken target) =
      .ok ⟨{ s with pathConditions :=
        s.pathConditions ++ [condition.render ++ " is " ++ (Value.bool taken).render] },
        false, none⟩ :=
  rfl

/-- At this point of a run the engine decides a conditional branch. Its condition is known to hold
or not to hold, and picks the target `chosen` and not `other`. -/
structure DecidesBranch (g : FlowGraph) (registry : Registry) (p : Progress σ) (inst : Instruction)
    (condition : Operand) (taken : Bool) (chosen other : String) : Prop where
  located : instruction? g p.control = some inst
  decided : ∃ d, Engine.decide registry inst p.state = .ok d
  operand : inst.operand? 0 = some condition
  truth : ∃ v, Engine.resolve p.state condition = .ok v ∧ v.truthy? = some taken
  targets : inst.branchTargets? = some (if taken then (chosen, other) else (other, chosen))

namespace DecidesBranch

variable {registry : Registry} {p q : Progress σ} {inst : Instruction} {condition : Operand}
  {taken : Bool} {chosen other : String}

section Step

variable {g : FlowGraph} {oracle : Oracle σ} {keepTrace : Bool} {flow : Flow}

theorem opcode (h : DecidesBranch g registry p inst condition taken chosen other) :
    inst.opcode = .branchIf :=
  Instruction.opcode_of_branchTargets? h.targets

/-- The engine names the chosen target. -/
theorem decide_eq (h : DecidesBranch g registry p inst condition taken chosen other) :
    ∃ v, Engine.decide registry inst p.state = .ok (branchDelta condition v taken chosen) := by
  obtain ⟨v, hresolve, htruth⟩ := h.truth
  have htargets := h.targets
  refine ⟨v, ?_⟩
  cases taken with
  | true => exact decide_branchIf htargets h.operand hresolve htruth
  | false => exact decide_branchIf htargets h.operand hresolve htruth

/-- The step that decides a branch records its condition. It goes to the chosen target if that is a
block, and otherwise behind the branch. -/
theorem reaches (h : DecidesBranch g registry p inst condition taken chosen other)
    (hreaches : Reaches g registry oracle keepTrace p q flow) :
    q.control = (if g.contains chosen then ⟨chosen, 0⟩
      else ⟨p.control.label, p.control.offset + 1⟩) ∧
    q.state.pathConditions =
      p.state.pathConditions ++ [condition.render ++ " is " ++ (Value.bool taken).render] := by
  obtain ⟨v, hdecide⟩ := h.decide_eq
  have hperforms : Performs g registry oracle p inst (branchDelta condition v taken chosen) :=
    ⟨h.located, decision?_of_engine hdecide⟩
  rcases advance_of_performs (stepOutcome_of_reaches hreaches) hperforms with
    ⟨hempty, -⟩ | ⟨applied, happly, hadvance⟩
  · have hnext := congrArg Delta.nextLabel hempty
    contradiction
  · rw [apply_branchDelta] at happly
    obtain rfl := Except.ok.inj happly
    have hop : ¬ inst.Unwinds := by simp [Instruction.Unwinds, h.opcode]
    rw [advance_of_not_unwinds hop, stamp_of_push_eq_none rfl] at hadvance
    obtain ⟨hstate, rfl⟩ := Prod.mk.inj hadvance
    rcases hreaches with ⟨-, hgoto⟩ | ⟨reason, -, hhalt⟩
    · rw [← Flow.goto.inj hgoto, ← hstate]
      exact ⟨nextControl_of_next rfl, rfl⟩
    · contradiction

end Step

variable {insts : List Instruction} {oracle : Oracle σ} {keepTrace : Bool}

/-- If the chosen target is no block, then the other one is the only successor that the block of the
branch may have. -/
theorem successors (h : DecidesBranch (.ofInstructions insts) registry p inst condition taken chosen
      other) (hchosen : (FlowGraph.ofInstructions insts).contains chosen = false) :
    ∃ block, (FlowGraph.ofInstructions insts).block? p.control.label = some block ∧
      block.body[p.control.offset + 1]? = none ∧
      block.successors =
        if (FlowGraph.ofInstructions insts).contains other then [other] else [] := by
  obtain ⟨block, hblock, hinst⟩ := Option.bind_eq_some_iff.mp h.located
  have hb := FlowGraph.mem_of_block? hblock
  have hmoves : inst.opcode.endsBlock = true := by
    rw [h.opcode]
    rfl
  obtain ⟨-, hend⟩ := FlowGraph.last?_of_endsBlock hb hinst hmoves
  refine ⟨block, hblock, hend, ?_⟩
  have htargets := h.targets
  rw [FlowGraph.successors_of_branch hb hinst (.inr h.opcode)]
  cases taken with
  | true =>
    rw [Instruction.targets_of_branchTargets? htargets]
    split_ifs with hother <;> simp [hchosen, hother, List.eraseDups_cons]
  | false =>
    rw [Instruction.targets_of_branchTargets? htargets]
    split_ifs with hother <;> simp [hchosen, hother, List.eraseDups_cons]

/-- From behind the branch control goes to the other target, or the program ends. -/
theorem reaches_behind {r : Progress σ} {flow : Flow}
    (h : DecidesBranch (.ofInstructions insts) registry p inst condition taken chosen other)
    (hchosen : (FlowGraph.ofInstructions insts).contains chosen = false)
    (hq : q.control = ⟨p.control.label, p.control.offset + 1⟩)
    (hreaches : Reaches (.ofInstructions insts) registry oracle keepTrace q r flow) :
    ((FlowGraph.ofInstructions insts).contains other = true ∧ r.control = ⟨other, 0⟩) ∨
      ((FlowGraph.ofInstructions insts).contains other = false ∧ r.control = q.control ∧
        ∃ reason, step (.ofInstructions insts) registry oracle keepTrace q = .halt reason r) := by
  obtain ⟨block, hblock, hend, hsuccessors⟩ := h.successors hchosen
  have hblock' : (FlowGraph.ofInstructions insts).block? q.control.label = some block := by
    rw [hq]
    exact hblock
  have hend' : block.body[q.control.offset]? = none := by
    rw [hq]
    exact hend
  cases hother : (FlowGraph.ofInstructions insts).contains other with
  | true =>
    have hfirst : block.successors.head? = some other := by
      rw [hsuccessors, hother]
      rfl
    unfold Reaches at hreaches
    rw [step_of_successor hblock' hend' hfirst] at hreaches
    rcases hreaches with ⟨hnext, -⟩ | ⟨reason, hhalt, -⟩
    · obtain rfl := StepResult.next.inj hnext
      exact .inl ⟨rfl, rfl⟩
    · contradiction
  | false =>
    have hfirst : block.successors.head? = none := by
      rw [hsuccessors, hother]
      rfl
    unfold Reaches at hreaches
    rw [step_of_no_successor hblock' hend' hfirst] at hreaches ⊢
    rcases hreaches with ⟨hnext, -⟩ | ⟨reason, hhalt, -⟩
    · contradiction
    · obtain ⟨rfl, rfl⟩ := StepResult.halt.inj hhalt
      exact .inr ⟨rfl, rfl, _, rfl⟩

/-- **The next block behind a decided branch** is the chosen target if that is a block, and
otherwise the other target if that is one. -/
theorem entersNext_iff {oracleState : σ} {options : RunOptions} {k : Nat}
    (h : DecidesBranch (.ofInstructions insts) registry p inst condition taken chosen other)
    (hp : (history (.ofInstructions insts) registry oracle oracleState options)[k]? = some p)
    (label : String) :
    EntersNext (history (.ofInstructions insts) registry oracle oracleState options) k label ↔
      (label = chosen ∧ (FlowGraph.ofInstructions insts).contains chosen = true ∧
        k + 1 < (history (.ofInstructions insts) registry oracle oracleState options).length) ∨
      (label = other ∧ (FlowGraph.ofInstructions insts).contains chosen = false ∧
        (FlowGraph.ofInstructions insts).contains other = true ∧
        k + 2 < (history (.ofInstructions insts) registry oracle oracleState options).length) := by
  generalize hpoints : history (.ofInstructions insts) registry oracle oracleState options = points
  rw [hpoints] at hp
  cases hq : points[k + 1]? with
  | none =>
    have hlength := List.getElem?_eq_none_iff.mp hq
    rw [iff_false_left (not_entersNext hq)]
    rintro (⟨-, -, hlt⟩ | ⟨-, -, -, hlt⟩)
    · omega
    · omega
  | some q =>
    obtain ⟨hk, -⟩ := List.getElem?_eq_some_iff.mp hq
    obtain ⟨flow, hreaches⟩ := reaches_of_history (hpoints ▸ hp) (hpoints ▸ hq)
    obtain ⟨hcontrol, -⟩ := h.reaches hreaches
    cases hchosen : (FlowGraph.ofInstructions insts).contains chosen with
    | true =>
      rw [hchosen, if_pos rfl] at hcontrol
      rw [entersNext_iff_of_start hq (by rw [hcontrol]), hcontrol]
      simp [hk]
    | false =>
      -- control is behind the branch, at the end of the block
      rw [hchosen, if_neg (by decide)] at hcontrol
      rw [entersNext_iff_of_inside hq (by rw [hcontrol]; exact Nat.succ_ne_zero _)]
      cases hr : points[k + 2]? with
      | none =>
        have hlength := List.getElem?_eq_none_iff.mp hr
        rw [iff_false_left (not_entersNext hr)]
        rintro (⟨-, hcontains, -⟩ | ⟨-, -, -, hlt⟩)
        · contradiction
        · omega
      | some r =>
        obtain ⟨hk', -⟩ := List.getElem?_eq_some_iff.mp hr
        obtain ⟨flow', hreaches'⟩ := reaches_of_history (hpoints ▸ hq) (hpoints ▸ hr)
        rcases h.reaches_behind hchosen hcontrol hreaches' with
          ⟨hother, hr'⟩ | ⟨hother, hr', reason, hhalt⟩
        · rw [entersNext_iff_of_start hr (by rw [hr']), hr']
          simp [hother, hk']
        · -- the program has ended, and nothing follows
          have hnone : points[k + 3]? = none := by
            rw [← hpoints]
            exact history_of_halt (hpoints ▸ hq) hhalt
          rw [entersNext_iff_of_inside hr (by rw [hr', hcontrol]; exact Nat.succ_ne_zero _)]
          simp [not_entersNext hnone, hother]

end DecidesBranch

/-- **Which side of a decided branch is taken.** In a run with any oracle, let the engine decide a
conditional branch with two different targets. Then

* the condition and its truth value are recorded as the last path condition;
* the next block that the run enters, if it enters one, is the chosen target if that is a block, and
  otherwise the other target if that is one;
* so control agrees with the path condition, except where the run goes on and the other target is a
  block while the chosen one is not. -/
theorem branch_enters_iff (insts : List Instruction) (registry : Registry) (oracle : Oracle σ)
    (oracleState : σ) (options : RunOptions) {k : Nat} {p : Progress σ} {inst : Instruction}
    {condition : Operand} {taken : Bool} {chosen other : String}
    (hp : (history (.ofInstructions insts) registry oracle oracleState options)[k]? = some p)
    (h : DecidesBranch (.ofInstructions insts) registry p inst condition taken chosen other)
    (hne : chosen ≠ other) :
    (∀ q, (history (.ofInstructions insts) registry oracle oracleState options)[k + 1]? = some q →
      q.state.pathConditions =
        p.state.pathConditions ++ [condition.render ++ " is " ++ (Value.bool taken).render]) ∧
    (∀ label,
      EntersNext (history (.ofInstructions insts) registry oracle oracleState options) k label ↔
        (label = chosen ∧ (FlowGraph.ofInstructions insts).contains chosen = true ∧
          k + 1 < (history (.ofInstructions insts) registry oracle oracleState options).length) ∨
        (label = other ∧ (FlowGraph.ofInstructions insts).contains chosen = false ∧
          (FlowGraph.ofInstructions insts).contains other = true ∧
          k + 2 < (history (.ofInstructions insts) registry oracle oracleState options).length)) ∧
    ((∀ label,
      EntersNext (history (.ofInstructions insts) registry oracle oracleState options) k label →
        label = chosen) ↔
      ¬ ((FlowGraph.ofInstructions insts).contains chosen = false ∧
        (FlowGraph.ofInstructions insts).contains other = true ∧
        k + 2 < (history (.ofInstructions insts) registry oracle oracleState options).length)) := by
  have hnext := h.entersNext_iff hp
  refine ⟨fun q hq => ?_, hnext, fun hagrees hstray => ?_, fun hagrees label hlabel => ?_⟩
  · obtain ⟨flow, hreaches⟩ := reaches_of_history hp hq
    exact (h.reaches hreaches).2
  · exact hne (hagrees other ((hnext other).mpr (.inr ⟨rfl, hstray⟩))).symm
  · rcases (hnext label).mp hlabel with ⟨hchosen, -⟩ | ⟨-, hstray⟩
    · exact hchosen
    · exact absurd hstray hagrees

/-- A branch whose condition is in `%0`. -/
def branchTo (onTrue : String) : Instruction where
  opcode := .branchIf
  operands := [.text "%0"]
  label := some (onTrue ++ ",other")

/-- A program that branches on a condition that holds. -/
def branchingProgram (onTrue : String) : List Instruction :=
  [{ opcode := .const, result := some "%0", operands := [.text "True"] }, branchTo onTrue,
    { opcode := .label, label := some "other" }, { opcode := .ret },
    { opcode := .label, label := some "here" }, { opcode := .ret }]

/-- The run of this program. -/
def branchingRun (onTrue : String) : List (Progress Unit) :=
  history (.ofInstructions (branchingProgram onTrue)) {} SymbolicOracle.oracle () {}

/-- The second step of the run decides the branch. -/
theorem exists_decidesBranch {onTrue : String}
    (hlocated : instruction? (.ofInstructions (branchingProgram onTrue)) ⟨"__block_0", 1⟩ =
      some (branchTo onTrue))
    (htargets : (branchTo onTrue).branchTargets? = some (onTrue, "other"))
    (hview : (branchingRun onTrue)[1]?.map (fun p =>
      (p.control, (p.state.register? "%0").bind Value.truthy?)) =
        some (⟨"__block_0", 1⟩, some true)) :
    ∃ p, (branchingRun onTrue)[1]? = some p ∧
      DecidesBranch (.ofInstructions (branchingProgram onTrue)) {} p (branchTo onTrue) (.text "%0")
        true onTrue "other" := by
  obtain ⟨p, hp, hpoint⟩ := Option.map_eq_some_iff.mp hview
  obtain ⟨hcontrol, hcondition⟩ := Prod.mk.inj hpoint
  obtain ⟨v, hv, htruth⟩ := Option.bind_eq_some_iff.mp hcondition
  have hresolve : Engine.resolve p.state (.text "%0") = .ok v :=
    Engine.resolve_eq_ok.mpr (.inl ⟨"%0", by decide, hv⟩)
  refine ⟨p, hp, by rw [hcontrol]; exact hlocated, ?_, rfl, ⟨v, hresolve, htruth⟩, htargets⟩
  exact ⟨_, decide_branchIf htargets rfl hresolve htruth⟩

/-- Where the chosen target is a block, control agrees with the path condition. -/
theorem branchingRun_here :
    (∃ p, (branchingRun "here")[1]? = some p ∧
      DecidesBranch (.ofInstructions (branchingProgram "here")) {} p (branchTo "here")
        (.text "%0") true "here" "other") ∧
    EntersNext (branchingRun "here") 1 "here" ∧
    ∀ label, EntersNext (branchingRun "here") 1 label → label = "here" := by
  obtain ⟨p, hp, hdecides⟩ := @exists_decidesBranch "here" (by decide +kernel) (by decide +kernel)
    (by decide +kernel)
  have hcontains : (FlowGraph.ofInstructions (branchingProgram "here")).contains "here" = true := by
    decide +kernel
  have hlength : 1 + 1 < (branchingRun "here").length := by decide +kernel
  unfold branchingRun at hp hlength ⊢
  obtain ⟨-, hnext, hagrees⟩ := branch_enters_iff (branchingProgram "here") {}
    SymbolicOracle.oracle () {} hp hdecides (by decide)
  refine ⟨⟨p, hp, hdecides⟩, (hnext "here").mpr (.inl ⟨rfl, hcontains, hlength⟩), ?_⟩
  refine hagrees.mpr ?_
  rintro ⟨hmissing, -⟩
  exact Bool.noConfusion (hcontains.symm.trans hmissing)

/-- Where the chosen target is no block, the run goes on at the other one and has the opposite
recorded as its path condition. -/
theorem branchingRun_nowhere :
    (∃ p, (branchingRun "nowhere")[1]? = some p ∧
      DecidesBranch (.ofInstructions (branchingProgram "nowhere")) {} p (branchTo "nowhere")
        (.text "%0") true "nowhere" "other") ∧
    EntersNext (branchingRun "nowhere") 1 "other" ∧
    (branchingRun "nowhere").getLast?.map (·.state.pathConditions) = some ["%0 is True"] := by
  obtain ⟨p, hp, hdecides⟩ := @exists_decidesBranch "nowhere" (by decide +kernel)
    (by decide +kernel) (by decide +kernel)
  refine ⟨⟨p, hp, hdecides⟩, ?_, by decide +kernel⟩
  have hlength : 1 + 2 < (branchingRun "nowhere").length := by decide +kernel
  unfold branchingRun at hp hlength ⊢
  have hnext := hdecides.entersNext_iff hp "other"
  exact hnext.mpr (.inr ⟨rfl, by decide +kernel, by decide +kernel, hlength⟩)

end SymbolicVM.Run

import SymbolicVM.Proofs.Run.Budget
import SymbolicVM.Proofs.Run.ControlFlow

/-!
# Why runs fail

A run returns an error for two reasons only: no block matches the entry that is asked for, or the
oracle has no answer (`Run.errors_returned`). Control is never at a block that does not exist,
whatever labels, calls and returns an oracle asks for: labels of deltas and of frames count only if
the graph has them, and the successors of a block are blocks (`Run.contains_of_step`).

An overflow is not returned. It stops the program, where a number of an identifier or an index
leaves its word (`Run.Exceeds`).
-/

namespace SymbolicVM

/-- An error that a run returns. An overflow stops the program instead. -/
def RunError.Returned (e : RunError) : Prop :=
  e ≠ .overflow

namespace FlowGraph

theorem exists_block?_of_contains {g : FlowGraph} {label : String}
    (h : g.contains label = true) : ∃ block, g.block? label = some block := by
  unfold contains at h
  unfold block?
  rw [← Option.isSome_iff_exists, List.find?_isSome]
  obtain ⟨b, hb, hlabel⟩ := List.any_eq_true.mp h
  exact ⟨b, List.mem_reverse.mpr hb, hlabel⟩

end FlowGraph

namespace Run

/-! ### Where a run begins -/

/-- No block has the entry that is asked for as its label or as a part of it. -/
def Unmatched (g : FlowGraph) (entry : Option String) (e : RunError) : Prop :=
  ∃ name, entry = some name ∧ g.blocks ≠ [] ∧ name ∉ g.labels ∧
    (∀ label ∈ g.labels, ¬ name.toList <:+: label.toList) ∧ e = .unknownEntry name g.labels

section Entry

variable {g : FlowGraph} {entry : Option String} {label name : String} {e : RunError}

theorem entry?_eq_none : g.entry? = none ↔ g.blocks = [] := by
  unfold FlowGraph.entry?
  rw [Option.map_eq_none_iff, List.head?_eq_none_iff]

theorem contains_of_entry? (h : g.entry? = some label) : g.contains label = true := by
  obtain ⟨b, hb, rfl⟩ := Option.map_eq_some_iff.mp h
  rw [FlowGraph.contains_iff_mem]
  exact List.mem_map_of_mem (List.mem_of_head? hb)

/-- A run begins at a block. -/
theorem contains_of_resolveEntry (h : resolveEntry g entry = .ok (some label)) :
    g.contains label = true := by
  unfold resolveEntry at h
  cases hfirst : g.entry? with
  | none =>
    rw [hfirst] at h
    exact absurd (Except.ok.inj h) (Option.some_ne_none label).symm
  | some first =>
    rw [hfirst] at h
    cases entry with
    | none =>
      obtain rfl := Option.some.inj (Except.ok.inj h)
      exact contains_of_entry? hfirst
    | some name =>
      dsimp only at h
      split_ifs at h with hname
      · obtain rfl := Option.some.inj (Except.ok.inj h)
        exact hname
      · split at h
        · rename_i found hfound
          obtain rfl := Option.some.inj (Except.ok.inj h)
          rw [FlowGraph.contains_iff_mem]
          exact List.mem_of_find?_eq_some hfound
        · contradiction

/-- The entry is refused exactly if it matches no label. -/
theorem resolveEntry_eq_error_iff : resolveEntry g entry = .error e ↔ Unmatched g entry e := by
  unfold resolveEntry
  cases hfirst : g.entry? with
  | none =>
    constructor
    · intro h
      contradiction
    · rintro ⟨name, -, hne, -⟩
      exact absurd (entry?_eq_none.mp hfirst) hne
  | some first =>
    have hne : g.blocks ≠ [] := by
      intro hnil
      rw [entry?_eq_none.mpr hnil] at hfirst
      contradiction
    cases entry with
    | none =>
      constructor
      · intro h
        contradiction
      · rintro ⟨name, hname, -⟩
        contradiction
    | some name =>
      dsimp only
      constructor
      · intro h
        split_ifs at h with hname
        split at h
        · contradiction
        · rename_i hnone
          refine ⟨name, rfl, hne, fun hmem => hname (FlowGraph.contains_iff_mem.mpr hmem), ?_,
            (Except.error.inj h).symm⟩
          intro label hlabel hinfix
          have hnot := List.find?_eq_none.mp hnone label hlabel
          exact hnot (Text.occursIn_iff.mpr hinfix)
      · rintro ⟨name', hname, -, hlabels, hinfix, rfl⟩
        obtain rfl := Option.some.inj hname
        rw [if_neg fun hcontains => hlabels (FlowGraph.contains_iff_mem.mp hcontains)]
        have hnone :
            g.labels.find? (fun label => Text.occursIn name.toList label.toList) = none := by
          refine List.find?_eq_none.mpr fun label hlabel hoccurs => ?_
          exact hinfix label hlabel (Text.occursIn_iff.mp hoccurs)
        rw [hnone]

end Entry

/-! ### Control stays in the graph -/

section Control

variable {σ : Type} {g : FlowGraph} {registry : Registry} {oracle : Oracle σ} {keepTrace : Bool}
  {p q : Progress σ}

theorem contains_of_returnFlow {f : Frame} {next : Control} (h : returnFlow g f = .goto next) :
    g.contains next.label = true := by
  unfold returnFlow at h
  split at h
  · rename_i label hfilter
    obtain rfl := Flow.goto.inj h
    exact (Option.filter_eq_some_iff.mp hfilter).2
  · contradiction

/-- After an instruction control is at a block again, whatever its delta asks for. -/
theorem contains_of_advance {inst : Instruction} {control next : Control} {d : Delta}
    {depth : Nat} {applied : State.Applied} {s : State} (hcontrol : g.contains control.label = true)
    (h : advance g inst control d depth applied = (s, .goto next)) :
    g.contains next.label = true := by
  rcases flow_of_advance h with hflow | ⟨frame, hflow⟩ | hflow
  · cases hflow
  · exact contains_of_returnFlow hflow.symm
  · obtain rfl := Flow.goto.inj hflow
    rcases nextControl_cases g control d with ⟨hnext, -⟩ | ⟨label, -, hcontains, hnext⟩
    · rw [hnext]
      exact hcontrol
    · rw [hnext]
      exact hcontains

/-- **A step leads from a block to a block.** -/
theorem contains_of_step {insts : List Instruction}
    (hp : (FlowGraph.ofInstructions insts).contains p.control.label = true)
    (h : step (.ofInstructions insts) registry oracle keepTrace p = .next q) :
    (FlowGraph.ofInstructions insts).contains q.control.label = true := by
  cases moves_of_step h with
  | passed inst located label state control =>
    rw [control]
    exact hp
  | left block next found atEnd first state control =>
    rw [control, FlowGraph.contains_iff_mem]
    exact FlowGraph.successors_subset (FlowGraph.mem_of_block? found) (List.mem_of_mem_head? first)
  | performed inst d applied performs apply advance => exact contains_of_advance hp advance

theorem contains_of_after {insts : List Instruction} {k : Nat}
    (hp : (FlowGraph.ofInstructions insts).contains p.control.label = true)
    (h : after (.ofInstructions insts) registry oracle keepTrace k p = some q) :
    (FlowGraph.ofInstructions insts).contains q.control.label = true := by
  induction k generalizing p with
  | zero =>
    obtain rfl := Option.some.inj h
    exact hp
  | succ k ih =>
    obtain ⟨r, hstep, hrest⟩ := after_succ.mp h
    exact ih (contains_of_step hp hstep) hrest

end Control

/-! ### Steps that fail -/

section Faults

variable {σ : Type} (g : FlowGraph) (registry : Registry) (oracle : Oracle σ)

/-- The oracle is asked at `p` and has no answer, which is the error. -/
def Unanswered (p : Progress σ) (e : RunError) : Prop :=
  ∃ inst cause, Asks g registry p inst ∧
    (oracle.decide inst p.state p.oracleState).1 = .error cause ∧ cause ≠ .overflow ∧
    e = .oracle p.steps p.control inst cause

/-- A number leaves its word at `p`: in the engine, in the oracle, or when the delta that decides
the instruction is applied. -/
inductive Exceeds (p : Progress σ) : Prop where
  | engine (inst : Instruction) (located : instruction? g p.control = some inst)
      (decides : Engine.decide registry inst p.state = .error .overflow)
  | oracle (inst : Instruction) (asks : Asks g registry p inst)
      (answers : (oracle.decide inst p.state p.oracleState).1 = .error .overflow)
  | apply (inst : Instruction) (d : Delta) (performs : Performs g registry oracle p inst d)
      (labelled : inst.isLabel = false) (overflows : p.state.apply d = .error .overflow)

/-- Why a step from `p` fails. -/
inductive Fault (p : Progress σ) (e : RunError) : Prop where
  | missing (block : g.block? p.control.label = none) (error : e = .missingBlock p.control.label)
  | unanswered (oracle : Unanswered g registry oracle p e)
  | exceeds (word : Exceeds g registry oracle p) (error : e = .overflow)

variable {g registry oracle} {keepTrace : Bool} {p : Progress σ} {e : RunError} {os : σ}
  {inst : Instruction} {d : Delta} {source : DecisionSource}

/-- Performing an instruction fails only if its delta cannot be applied. -/
theorem overflow_of_perform (h : perform g keepTrace p inst d source = .fail e os) :
    p.state.apply d = .error .overflow ∧ e = .overflow := by
  unfold perform at h
  cases happly : p.state.apply d with
  | error o =>
    cases o
    rw [happly] at h
    exact ⟨rfl, (StepResult.fail.inj h).1.symm⟩
  | ok applied =>
    rw [happly] at h
    dsimp only at h
    cases hflow : (advance g inst p.control d p.state.depth applied).2 with
    | goto control =>
      rw [hflow] at h
      contradiction
    | halt reason =>
      rw [hflow] at h
      contradiction

theorem consult_of_error {cause : OracleError} (h : cause ≠ .overflow) :
    consult g keepTrace p inst (.error cause) os =
      .fail (.oracle (p.steps - 1) p.control inst cause) os := by
  unfold consult
  cases cause with
  | overflow => exact absurd rfl h
  | _ => rfl

/-- The answer of an oracle that is asked decides the instruction. -/
theorem decision?_of_asks (h : Asks g registry p inst)
    (hanswer : (oracle.decide inst p.state p.oracleState).1 = .ok d) :
    decision? registry oracle inst p = some d := by
  obtain ⟨-, refusal, hrefusal, hne⟩ := h
  rw [decision?_of_refusal hrefusal hne, hanswer]
  rfl

/-- A step at which the oracle is asked fails without an answer, or if the answer cannot be
applied. -/
theorem fault_of_asks (hasks : Asks g registry p inst)
    (h : step g registry oracle keepTrace p = .fail e os) : Fault g registry oracle p e := by
  rw [step_of_asks hasks] at h
  cases hanswer : (oracle.decide inst p.state p.oracleState).1 with
  | ok d =>
    rw [hanswer] at h
    obtain ⟨happly, he⟩ := overflow_of_perform h
    exact .exceeds (.apply inst d ⟨hasks.1, decision?_of_asks hasks hanswer⟩
      hasks.isLabel_eq_false happly) he
  | error cause =>
    rw [hanswer] at h
    by_cases hcause : cause = .overflow
    · subst hcause
      exact .exceeds (.oracle inst hasks hanswer) (StepResult.fail.inj h).1.symm
    · refine .unanswered ⟨inst, cause, hasks, hanswer, hcause, ?_⟩
      rw [consult_of_error hcause] at h
      exact (StepResult.fail.inj h).1.symm

/-- Without the oracle a step fails only if there is no block, or if a number leaves its word. -/
theorem fault_of_not_asks (hasks : ∀ inst, ¬ Asks g registry p inst)
    (h : step g registry oracle keepTrace p = .fail e os) : Fault g registry oracle p e := by
  unfold step at h
  dsimp only at h
  cases hblock : g.block? p.control.label with
  | none =>
    rw [hblock] at h
    exact .missing hblock (StepResult.fail.inj h).1.symm
  | some block =>
    rw [hblock] at h
    dsimp only at h
    cases hinst : block.body[p.control.offset]? with
    | none =>
      rw [hinst] at h
      dsimp only at h
      cases hnext : block.successors.head? with
      | none =>
        rw [hnext] at h
        contradiction
      | some next =>
        rw [hnext] at h
        contradiction
    | some inst =>
      rw [hinst] at h
      dsimp only at h
      split_ifs at h with hlabel
      have hlocated : instruction? g p.control = some inst := by
        rw [instruction?, hblock, Option.bind_some, hinst]
      unfold execute at h
      cases hdecide : Engine.decide registry inst p.state with
      | ok d =>
        rw [hdecide] at h
        obtain ⟨happly, he⟩ := overflow_of_perform h
        exact .exceeds (.apply inst d ⟨hlocated, decision?_of_engine hdecide⟩
          (by simpa using hlabel) happly) he
      | error refusal =>
        -- the engine did not decline, so it left a word
        obtain rfl : refusal = .overflow := by
          by_contra hne
          exact hasks inst ⟨hlocated, refusal, hdecide, hne⟩
        rw [hdecide] at h
        exact .exceeds (.engine inst hlocated hdecide) (StepResult.fail.inj h).1.symm

/-- **Why a step fails.** -/
theorem fault_of_step (h : step g registry oracle keepTrace p = .fail e os) :
    Fault g registry oracle p e := by
  by_cases hasks : ∃ inst, Asks g registry p inst
  · obtain ⟨inst, hasks⟩ := hasks
    exact fault_of_asks hasks h
  · exact fault_of_not_asks (not_exists.mp hasks) h

/-- Without an answer a step fails. -/
theorem exists_fail_of_unanswered (h : Unanswered g registry oracle p e) :
    ∃ os, step g registry oracle keepTrace p = .fail e os := by
  obtain ⟨inst, cause, hasks, hanswer, hcause, rfl⟩ := h
  refine ⟨(oracle.decide inst p.state p.oracleState).2, ?_⟩
  rw [step_of_asks hasks, hanswer, consult_of_error hcause]
  rfl

end Faults

/-! ### Runs that fail -/

section Runs

variable {σ : Type} (g : FlowGraph) (registry : Registry) (oracle : Oracle σ) (oracleState : σ)
  (options : RunOptions)

/-- The run takes a step from `p`. -/
def StepsFrom (p : Progress σ) : Prop :=
  ∃ label k, resolveEntry g options.entry = .ok (some label) ∧ k < options.maxSteps ∧
    after g registry oracle options.trace k (startAt oracleState label) = some p

variable {g registry oracle oracleState options} {p : Progress σ} {e : RunError}

/-- A run that fails does so at its entry or in a step. -/
theorem fault_of_run (h : (run g registry oracle oracleState options).1 = .error e) :
    Unmatched g options.entry e ∨
      ∃ p, StepsFrom g registry oracle oracleState options p ∧ Fault g registry oracle p e := by
  cases hentry : resolveEntry g options.entry with
  | error e' =>
    unfold run at h
    rw [hentry] at h
    obtain rfl := Except.error.inj h
    exact .inl (resolveEntry_eq_error_iff.mp hentry)
  | ok first =>
    cases first with
    | none =>
      unfold run at h
      rw [hentry] at h
      contradiction
    | some label =>
      rw [run_of_entry hentry] at h
      rcases loop_cases g registry oracle options.trace options.maxSteps
          (startAt oracleState label) with
        ⟨q, -, hloop⟩ | ⟨k, q, ending, hk, hq, hend, hloop⟩
      · rw [hloop] at h
        contradiction
      · rw [hloop] at h
        cases ending with
        | halted reason r => contradiction
        | failed e' os =>
          obtain rfl := Except.error.inj h
          exact .inr ⟨q, ⟨label, k, hentry, hk, hq⟩, fault_of_step (ending?_failed.mp hend)⟩

theorem run_of_unmatched (h : Unmatched g options.entry e) :
    (run g registry oracle oracleState options).1 = .error e := by
  unfold run
  rw [resolveEntry_eq_error_iff.mpr h]

theorem run_of_unanswered (hp : StepsFrom g registry oracle oracleState options p)
    (h : Unanswered g registry oracle p e) :
    (run g registry oracle oracleState options).1 = .error e := by
  obtain ⟨label, k, hentry, hk, hafter⟩ := hp
  obtain ⟨os, hfail⟩ := @exists_fail_of_unanswered σ g registry oracle options.trace p e h
  rw [run_of_entry hentry, loop_of_after hafter (ending?_failed.mpr hfail) hk]
  rfl

theorem exists_block?_of_stepsFrom {insts : List Instruction}
    (h : StepsFrom (.ofInstructions insts) registry oracle oracleState options p) :
    ∃ block, (FlowGraph.ofInstructions insts).block? p.control.label = some block := by
  obtain ⟨label, k, hentry, -, hafter⟩ := h
  have hstart : (FlowGraph.ofInstructions insts).contains
      (startAt oracleState label).control.label = true := contains_of_resolveEntry hentry
  exact FlowGraph.exists_block?_of_contains (contains_of_after hstart hafter)

/-- What the error of a run tells: there is no third reason beside the entry, the oracle and a word
that is left. -/
theorem cause_of_run {insts : List Instruction}
    (h : (run (.ofInstructions insts) registry oracle oracleState options).1 = .error e) :
    Unmatched (.ofInstructions insts) options.entry e ∨
      ∃ p, StepsFrom (.ofInstructions insts) registry oracle oracleState options p ∧
        (Unanswered (.ofInstructions insts) registry oracle p e ∨
          Exceeds (.ofInstructions insts) registry oracle p ∧ e = .overflow) := by
  refine (fault_of_run h).imp_right ?_
  rintro ⟨p, hp, hfault⟩
  refine ⟨p, hp, ?_⟩
  cases hfault with
  | missing block error =>
    obtain ⟨found, hfound⟩ := exists_block?_of_stepsFrom hp
    rw [hfound] at block
    contradiction
  | unanswered oracle => exact .inl oracle
  | exceeds word error => exact .inr ⟨word, error⟩

end Runs

/-- **A run fails only for the reasons it gives.** For every program, registry, oracle and options:

* an error is returned exactly if the entry that is asked for matches no label, or if the run comes
  to a point at which the oracle is asked and has no answer;
* wherever the run takes a step, control is at a block, so that there is never a missing one;
* the run stops without returning only where a number leaves its word. -/
theorem errors_returned {σ : Type} (insts : List Instruction) (registry : Registry)
    (oracle : Oracle σ) (oracleState : σ) (options : RunOptions) :
    (∀ e : RunError, e.Returned →
      ((run (.ofInstructions insts) registry oracle oracleState options).1 = .error e ↔
        Unmatched (.ofInstructions insts) options.entry e ∨
          ∃ p, StepsFrom (.ofInstructions insts) registry oracle oracleState options p ∧
            Unanswered (.ofInstructions insts) registry oracle p e)) ∧
    (∀ p, StepsFrom (.ofInstructions insts) registry oracle oracleState options p →
      ∃ block, (FlowGraph.ofInstructions insts).block? p.control.label = some block) ∧
    (∀ label, (run (.ofInstructions insts) registry oracle oracleState options).1 ≠
      .error (.missingBlock label)) ∧
    ((run (.ofInstructions insts) registry oracle oracleState options).1 = .error .overflow →
      ∃ p, StepsFrom (.ofInstructions insts) registry oracle oracleState options p ∧
        Exceeds (.ofInstructions insts) registry oracle p) := by
  refine ⟨fun e hreturned => ⟨fun he => ?_, ?_⟩, fun p hp => exists_block?_of_stepsFrom hp,
    fun label hlabel => ?_, fun he => ?_⟩
  · refine (cause_of_run he).imp_right ?_
    rintro ⟨p, hp, hunanswered | ⟨-, hoverflow⟩⟩
    · exact ⟨p, hp, hunanswered⟩
    · exact absurd hoverflow hreturned
  · rintro (hunmatched | ⟨p, hp, hunanswered⟩)
    · exact run_of_unmatched hunmatched
    · exact run_of_unanswered hp hunanswered
  · rcases cause_of_run hlabel with ⟨name, -, -, -, -, herror⟩ | ⟨p, -, hcause⟩
    · contradiction
    · rcases hcause with ⟨inst, cause, -, -, -, herror⟩ | ⟨-, herror⟩
      · contradiction
      · contradiction
  · rcases cause_of_run he with ⟨name, -, -, -, -, herror⟩ | ⟨p, hp, hcause⟩
    · contradiction
    · rcases hcause with ⟨inst, cause, -, -, -, herror⟩ | ⟨hexceeds, -⟩
      · contradiction
      · exact ⟨p, hp, hexceeds⟩

/-- A program that asks the oracle twice. -/
def askingTwice : List Instruction :=
  [{ opcode := .callUnknown, result := some "%0", operands := [.text "ext"] },
    { opcode := .callUnknown, result := some "%1", operands := [.text "ext"] }]

/-- An oracle that calls a function and jumps, both to a block that does not exist, and has no
second answer. -/
def strayingOracle : Oracle Nat where
  name := "straying"
  decide _ _ asked :=
    if asked = 0 then
      (.ok { callPush := some { function := "f", returnLabel := some "nowhere" },
             nextLabel := some "nowhere" }, 1)
    else (.error (.timeout 5), asked + 1)

/-- The run of the program with this oracle. -/
def strayingRun (entry : Option String) : Except RunError Outcome × Nat :=
  run (.ofInstructions askingTwice) {} strayingOracle 0 { entry := entry }

/-- The jump to nowhere is ignored, and the run fails with the second question. From a block that
does not exist it fails at once. -/
theorem strayingRun_fails :
    (∃ p inst cause, StepsFrom (.ofInstructions askingTwice) {} strayingOracle 0 {} p ∧
      Asks (.ofInstructions askingTwice) {} p inst ∧
      (strayingOracle.decide inst p.state p.oracleState).1 = .error cause ∧
      (strayingRun none).1 = .error (.oracle 1 ⟨"__block_0", 1⟩ inst cause)) ∧
    Unmatched (.ofInstructions askingTwice) (some "nowhere")
      (.unknownEntry "nowhere" ["__block_0"]) := by
  have hasked : failure? (strayingRun none).1 = some (.oracle 1 ⟨"__block_0", 1⟩
      { opcode := .callUnknown, result := some "%1", operands := [.text "ext"] } (.timeout 5)) := by
    decide +kernel
  have hentry : failure? (strayingRun (some "nowhere")).1 =
      some (.unknownEntry "nowhere" ["__block_0"]) := by
    decide +kernel
  rw [failure?_eq_some_iff] at hasked hentry
  constructor
  · have hreturned : RunError.Returned (.oracle 1 ⟨"__block_0", 1⟩
        { opcode := .callUnknown, result := some "%1", operands := [.text "ext"] }
        (.timeout 5)) := by
      intro h
      contradiction
    rcases ((errors_returned askingTwice {} strayingOracle 0 {}).1 _ hreturned).mp hasked with
      ⟨name, hnone, -⟩ | ⟨p, hp, hunanswered⟩
    · contradiction
    · -- the error names the instruction and the cause
      obtain ⟨inst, cause, hasks, hanswer, -, he⟩ := hunanswered
      obtain ⟨-, -, rfl, rfl⟩ := RunError.oracle.inj he
      exact ⟨p, _, _, hp, hasks, hanswer, hasked⟩
  · have hreturned : RunError.Returned (.unknownEntry "nowhere" ["__block_0"]) := by
      intro h
      contradiction
    rcases ((errors_returned askingTwice {} strayingOracle 0 { entry := some "nowhere" }).1 _
      hreturned).mp hentry with hunmatched | ⟨p, -, inst, cause, -, -, -, he⟩
    · exact hunmatched
    · contradiction

end Run

end SymbolicVM

import SymbolicVM.Run.Basic
import SymbolicVM.Proofs.Except
import Mathlib.Logic.Basic
import Mathlib.Tactic.SplitIfs

/-!
# The history of a run

`Run.history` lists where a run is before its first step and after each step, the last one included
also when the run halts with it. A step either only moves control (`StepOutcome.moved`) or performs
an instruction: the delta that decides it is applied and control goes where `Run.advance` says
(`StepOutcome.performed`). `Run.step_leadsTo` says that there is nothing else, so a property of all
states of a run needs to be checked on these two cases only (`Run.history_induction`).
`Run.Attains` says of a state that it is one of the run, the state in which it ends included.
-/

namespace SymbolicVM.Run

variable {σ : Type} (g : FlowGraph) (registry : Registry) (oracle : Oracle σ) (keepTrace : Bool)

/-- The instruction at a point of control. -/
def instruction? (control : Control) : Option Instruction :=
  (g.block? control.label).bind fun block => block.body[control.offset]?

/-- The delta that decides an instruction: that of the engine or, where the engine declines, that of
the oracle. -/
def decision? (inst : Instruction) (p : Progress σ)
    (supply : Engine.Supply := Engine.fresh p.state) : Option Delta :=
  match Engine.decide registry inst p.state supply with
  | .ok d => some d
  | .error .overflow => none
  | .error _ =>
    match (oracle.decide inst p.state p.oracleState).1 with
    | .ok d => some d
    | .error _ => none

/-- At this point of a run the instruction is performed with the delta. -/
def Performs (p : Progress σ) (inst : Instruction) (d : Delta) : Prop :=
  instruction? g p.control = some inst ∧ decision? registry oracle inst p = some d

/-- Where a run is, before its first step and after each of at most `budget` steps. -/
def visited : Nat → Progress σ → List (Progress σ)
  | 0, p => [p]
  | budget + 1, p =>
    p ::
      match step g registry oracle keepTrace p with
      | .next q => visited budget q
      | .halt _ q => [q]
      | .fail _ _ => []

/-- Where the run of a program is, before its first step and after each step. An empty program takes
no step, nor does one without the entry that is asked for. -/
def history (oracleState : σ) (options : RunOptions) : List (Progress σ) :=
  match resolveEntry g options.entry with
  | .ok (some label) =>
    visited g registry oracle options.trace options.maxSteps
      { state := {}, control := ⟨label, 0⟩, oracleState }
  | _ => []

/-! ### One step -/

/-- A step that does not fail leads to progress and a flow of control with the given property. -/
def LeadsTo (P : Progress σ → Flow → Prop) : StepResult σ → Prop
  | .next q => P q (.goto q.control)
  | .halt reason q => P q (.halt reason)
  | .fail _ _ => True

/-- What a step from `p` to `q` with the given flow of control did. -/
inductive StepOutcome (p q : Progress σ) (flow : Flow) : Prop where
  /-- Control moved on, or the program ended, and nothing else happened. -/
  | moved (state : q.state = p.state)
      (idle : ∀ inst, instruction? g p.control = some inst → inst.isLabel = true)
      (ends : ∀ reason, flow = .halt reason → reason = .endOfProgram)
  /-- An instruction was performed. -/
  | performed (inst : Instruction) (d : Delta) (applied : State.Applied)
      (located : instruction? g p.control = some inst)
      (decided : decision? registry oracle inst p = some d)
      (apply : p.state.apply d = .ok applied)
      (advance : advance g inst p.control d p.state.depth applied = (q.state, flow))

variable {g registry oracle keepTrace}

/-- A decision is the engine's or the oracle's. -/
theorem decision?_cases {inst : Instruction} {p : Progress σ} {d : Delta}
    (h : decision? registry oracle inst p = some d) :
    Engine.decide registry inst p.state = .ok d ∨
      (oracle.decide inst p.state p.oracleState).1 = .ok d := by
  unfold decision? at h
  split at h
  · rename_i e hengine
    exact .inl (Option.some.inj h ▸ hengine)
  · contradiction
  · split at h
    · rename_i e horacle
      exact .inr (Option.some.inj h ▸ horacle)
    · contradiction

theorem decision?_of_engine {inst : Instruction} {p : Progress σ} {d : Delta}
    (h : Engine.decide registry inst p.state = .ok d) :
    decision? registry oracle inst p = some d := by
  unfold decision?
  rw [h]

/-- Where the engine declines, the oracle decides. -/
theorem decision?_of_refusal {inst : Instruction} {p : Progress σ} {supply : Engine.Supply}
    {refusal : Refusal} (h : Engine.decide registry inst p.state supply = .error refusal)
    (hne : refusal ≠ .overflow) :
    decision? registry oracle inst p supply =
      (oracle.decide inst p.state p.oracleState).1.toOption := by
  unfold decision?
  rw [h]
  cases refusal with
  | overflow => exact absurd rfl hne
  | _ => cases (oracle.decide inst p.state p.oracleState).1 <;> rfl

/-- Performing an instruction from a point that differs from `p` in its statistics only. -/
theorem perform_leadsTo {p p' : Progress σ} {inst : Instruction} {d : Delta}
    {source : DecisionSource} (hstate : p'.state = p.state) (hcontrol : p'.control = p.control)
    (hlocated : instruction? g p.control = some inst)
    (hdecided : decision? registry oracle inst p = some d) :
    LeadsTo (StepOutcome g registry oracle p) (perform g keepTrace p' inst d source) := by
  unfold perform
  split
  · trivial
  · rename_i applied happly
    rw [hstate] at happly
    split
    rename_i state flow hadv
    rw [hstate, hcontrol] at hadv
    dsimp only
    split
    · exact .performed inst d applied hlocated hdecided happly hadv
    · exact .performed inst d applied hlocated hdecided happly hadv

theorem execute_leadsTo {p p' : Progress σ} {inst : Instruction} (hstate : p'.state = p.state)
    (hcontrol : p'.control = p.control) (horacle : p'.oracleState = p.oracleState)
    (hlocated : instruction? g p.control = some inst) :
    LeadsTo (StepOutcome g registry oracle p) (execute g registry oracle keepTrace p' inst) := by
  have hdecision : decision? registry oracle inst p = decision? registry oracle inst p' := by
    unfold decision?
    rw [hstate, horacle]
  unfold execute
  split
  · rename_i d hdecide
    refine perform_leadsTo hstate hcontrol hlocated ?_
    rw [hdecision, decision?_of_engine hdecide]
  · trivial
  · rename_i e hne hdecide
    split
    rename_i answer oracleState hanswer
    dsimp only
    split
    · rename_i d
      refine perform_leadsTo hstate hcontrol hlocated ?_
      rw [hdecision, decision?_of_refusal hdecide hne, hanswer]
      rfl
    · trivial
    · trivial

/-- **What one step does.** It moves control and nothing else, or it performs the instruction at the
point of control. -/
theorem step_leadsTo (p : Progress σ) :
    LeadsTo (StepOutcome g registry oracle p) (step g registry oracle keepTrace p) := by
  unfold step
  dsimp only
  split
  · trivial
  · rename_i block hblock
    have hlocated : instruction? g p.control = block.body[p.control.offset]? := by
      unfold instruction?
      rw [hblock]
      rfl
    split
    · rename_i hend
      have hidle : ∀ inst, instruction? g p.control = some inst → inst.isLabel = true := by
        simp [hlocated, hend]
      split
      · exact .moved rfl hidle (by simp)
      · exact .moved rfl hidle (by simp)
    · rename_i inst hinst
      rw [hinst] at hlocated
      split_ifs with hlabel
      · refine .moved rfl (fun other hother => ?_) (by simp)
        obtain rfl := Option.some.inj (hlocated.symm.trans hother)
        exact hlabel
      · exact execute_leadsTo rfl rfl rfl hlocated

/-! ### From steps to runs -/

variable (g registry oracle keepTrace) in
/-- A step leads from `p` to `q` with the given flow of control. -/
def Reaches (p q : Progress σ) (flow : Flow) : Prop :=
  (step g registry oracle keepTrace p = .next q ∧ flow = .goto q.control) ∨
    ∃ reason, step g registry oracle keepTrace p = .halt reason q ∧ flow = .halt reason

theorem stepOutcome_of_reaches {p q : Progress σ} {flow : Flow}
    (h : Reaches g registry oracle keepTrace p q flow) :
    StepOutcome g registry oracle p q flow := by
  have hleads := @step_leadsTo σ g registry oracle keepTrace p
  rcases h with ⟨hs, rfl⟩ | ⟨reason, hs, rfl⟩
  · rwa [hs] at hleads
  · rwa [hs] at hleads

/-- A step performs the instruction at its point with the delta that decides it. A label is passed
over instead, and its delta is empty. -/
theorem advance_of_performs {p q : Progress σ} {flow : Flow} {inst : Instruction} {d : Delta}
    (h : StepOutcome g registry oracle p q flow) (hperforms : Performs g registry oracle p inst d) :
    (d = {} ∧ q.state = p.state) ∨
      ∃ applied, p.state.apply d = .ok applied ∧
        advance g inst p.control d p.state.depth applied = (q.state, flow) := by
  obtain ⟨hlocated, hdecided⟩ := hperforms
  cases h with
  | moved state idle ends =>
    have hlabel : inst.opcode = .label := by
      simpa [Instruction.isLabel] using idle inst hlocated
    unfold decision? Engine.decide at hdecided
    rw [hlabel] at hdecided
    exact .inl ⟨(Option.some.inj hdecided).symm, state⟩
  | performed inst' d' applied located decided apply advance =>
    obtain rfl := Option.some.inj (hlocated.symm.trans located)
    obtain rfl := Option.some.inj (hdecided.symm.trans decided)
    exact .inr ⟨applied, apply, advance⟩

/-- Neighbours in the list of visited points are connected by a step. -/
theorem reaches_of_visited {budget k : Nat} {start p q : Progress σ}
    (hp : (visited g registry oracle keepTrace budget start)[k]? = some p)
    (hq : (visited g registry oracle keepTrace budget start)[k + 1]? = some q) :
    ∃ flow, Reaches g registry oracle keepTrace p q flow := by
  induction budget generalizing start k with
  | zero => simp [visited] at hq
  | succ budget ih =>
    unfold visited at hp hq
    rw [List.getElem?_cons_succ] at hq
    cases hs : step g registry oracle keepTrace start with
    | next r =>
      rw [hs] at hp hq
      cases k with
      | zero =>
        obtain rfl := Option.some.inj hp
        have hr : r = q := by
          cases budget <;> simpa [visited] using hq
        exact ⟨_, .inl ⟨hr ▸ hs, rfl⟩⟩
      | succ k =>
        rw [List.getElem?_cons_succ] at hp
        exact ih hp hq
    | halt reason r =>
      rw [hs] at hp hq
      cases k with
      | zero =>
        obtain rfl := Option.some.inj hp
        have hr : r = q := by simpa using hq
        exact ⟨_, .inr ⟨reason, hr ▸ hs, rfl⟩⟩
      | succ k => simp at hq
    | fail e os =>
      rw [hs] at hq
      simp at hq

/-- A run that halts before its budget is used up does so with a step from a visited point. -/
theorem loop_eq_halted {budget : Nat} {start q : Progress σ} {reason : HaltReason}
    (h : loop g registry oracle keepTrace budget start = .halted reason q) :
    q ∈ visited g registry oracle keepTrace budget start ∧
      (reason = .budgetExhausted ∨
        ∃ p ∈ visited g registry oracle keepTrace budget start,
          step g registry oracle keepTrace p = .halt reason q) := by
  induction budget generalizing start with
  | zero =>
    unfold loop at h
    obtain ⟨rfl, rfl⟩ := Ending.halted.inj h
    exact ⟨by simp [visited], .inl rfl⟩
  | succ budget ih =>
    unfold loop at h
    unfold visited
    cases hs : step g registry oracle keepTrace start with
    | next r =>
      rw [hs] at h
      obtain ⟨hmem, hcause⟩ := ih h
      refine ⟨List.mem_cons_of_mem _ hmem, hcause.imp_right ?_⟩
      rintro ⟨p, hp, hhalt⟩
      exact ⟨p, List.mem_cons_of_mem _ hp, hhalt⟩
    | halt reason' r =>
      rw [hs] at h
      obtain ⟨rfl, rfl⟩ := Ending.halted.inj h
      exact ⟨by simp, .inr ⟨start, by simp, hs⟩⟩
    | fail e os =>
      rw [hs] at h
      contradiction

/-! ### Whole runs -/

variable {oracleState : σ} {options : RunOptions}

/-- The start of a run at a block. -/
def startAt (oracleState : σ) (label : String) : Progress σ :=
  { state := {}, control := ⟨label, 0⟩, oracleState }

theorem history_eq :
    history g registry oracle oracleState options = [] ∨
      ∃ label, history g registry oracle oracleState options =
        visited g registry oracle options.trace options.maxSteps (startAt oracleState label) := by
  unfold history
  split
  · rename_i label _
    exact .inr ⟨label, rfl⟩
  · exact .inl rfl

/-- A list of points with one at some place has one at every place before. -/
theorem exists_earlier {points : List (Progress σ)} {i j : Nat} {q : Progress σ} (hij : i ≤ j)
    (hq : points[j]? = some q) : ∃ p, points[i]? = some p := by
  obtain ⟨hlt, -⟩ := List.getElem?_eq_some_iff.mp hq
  exact ⟨_, List.getElem?_eq_getElem (by omega)⟩

theorem reaches_of_history {k : Nat} {p q : Progress σ}
    (hp : (history g registry oracle oracleState options)[k]? = some p)
    (hq : (history g registry oracle oracleState options)[k + 1]? = some q) :
    ∃ flow, Reaches g registry oracle options.trace p q flow := by
  rcases @history_eq σ g registry oracle oracleState options with h | ⟨label, h⟩
  · simp [h] at hp
  · rw [h] at hp hq
    exact reaches_of_visited hp hq

/-- The first point of a run is the start at some block. -/
theorem eq_startAt {p : Progress σ}
    (hp : (history g registry oracle oracleState options)[0]? = some p) :
    ∃ label, p = startAt oracleState label := by
  rcases @history_eq σ g registry oracle oracleState options with h | ⟨label, h⟩
  · simp [h] at hp
  · refine ⟨label, ?_⟩
    rw [h] at hp
    cases hbudget : options.maxSteps <;> simpa [hbudget, visited, eq_comm] using hp

/-- **An invariant of all steps holds throughout a run**: it is enough that it holds at the start
and that every step of the run, one with which it halts included, keeps it. -/
theorem history_induction {Inv : Progress σ → Prop}
    (hstart : ∀ label, Inv (startAt oracleState label))
    (hstep : ∀ (k : Nat) p q flow, (history g registry oracle oracleState options)[k]? = some p →
      (history g registry oracle oracleState options)[k + 1]? = some q → Inv p →
      StepOutcome g registry oracle p q flow → Inv q) :
    ∀ p ∈ history g registry oracle oracleState options, Inv p := by
  intro p hp
  obtain ⟨k, hk⟩ := List.getElem?_of_mem hp
  induction k generalizing p with
  | zero =>
    obtain ⟨label, rfl⟩ := eq_startAt hk
    exact hstart label
  | succ k ih =>
    obtain ⟨m, hm⟩ := exists_earlier (Nat.le_succ k) hk
    obtain ⟨flow, hreaches⟩ := reaches_of_history hm hk
    have hinv := ih m (List.mem_of_getElem? hm) hm
    exact hstep k m p flow hm hk hinv (stepOutcome_of_reaches hreaches)

/-- A run with an outcome ended in a state of its history, and if it did not use up its budget then
with a step from there. The run of an empty program ends where it starts. -/
theorem run_eq_ok {outcome : Outcome}
    (h : (run g registry oracle oracleState options).1 = .ok outcome) :
    (outcome.halt = .empty ∧ outcome.state = {}) ∨
      ∃ q ∈ history g registry oracle oracleState options, outcome.state = q.state ∧
        (outcome.halt = .budgetExhausted ∨
          ∃ p ∈ history g registry oracle oracleState options,
            Reaches g registry oracle options.trace p q (.halt outcome.halt)) := by
  unfold run at h
  cases hentry : resolveEntry g options.entry with
  | error e =>
    rw [hentry] at h
    contradiction
  | ok entry =>
    cases entry with
    | none =>
      rw [hentry] at h
      obtain rfl := Except.ok.inj h
      exact .inl ⟨rfl, rfl⟩
    | some label =>
      have hhistory : history g registry oracle oracleState options =
          visited g registry oracle options.trace options.maxSteps (startAt oracleState label) := by
        rw [history, hentry]
        rfl
      rw [hentry] at h
      dsimp only at h
      split at h
      · rename_i reason q hloop
        obtain rfl := Except.ok.inj h
        obtain ⟨hq, hcause⟩ := loop_eq_halted hloop
        rw [hhistory]
        refine .inr ⟨q, hq, rfl, hcause.imp_right ?_⟩
        rintro ⟨p, hp, hhalt⟩
        exact ⟨p, hp, .inr ⟨_, hhalt, rfl⟩⟩
      · contradiction

variable (g registry oracle oracleState options) in
/-- A state of a run: one that it passes through, or the one that it ends in. -/
def Attains (s : State) : Prop :=
  (∃ p ∈ history g registry oracle oracleState options, p.state = s) ∨
    ∃ outcome, (run g registry oracle oracleState options).1 = .ok outcome ∧ outcome.state = s

/-- What holds at the start and throughout the history of a run holds in all its states: the run
ends in a state of its history, or took no step. -/
theorem Attains.of_history (Inv : State → Prop) {s : State} (hstart : Inv {})
    (hhistory : ∀ p ∈ history g registry oracle oracleState options, Inv p.state)
    (h : Attains g registry oracle oracleState options s) : Inv s := by
  rcases h with ⟨p, hp, rfl⟩ | ⟨outcome, houtcome, rfl⟩
  · exact hhistory p hp
  · rcases run_eq_ok houtcome with ⟨-, hstate⟩ | ⟨q, hq, hstate, -⟩
    · rw [hstate]
      exact hstart
    · rw [hstate]
      exact hhistory q hq

end SymbolicVM.Run

import SymbolicVM.Proofs.Run.Freshness
import SymbolicVM.Oracle.Replay

/-!
# Numbering in runs with any oracle

An oracle may answer with any delta. New objects, environments and unknowns are reserved when a
delta is applied, but a heap write to an address that is not on the heap creates an object there and
reserves nothing. So a run stays well numbered exactly if the heap writes of all answers that it
applies are covered (`Delta.WritesCovered`), and then what the engine allocates is always new
(`Run.wellNumbered_iff_writesCovered`).
-/

namespace SymbolicVM.Run

variable {σ : Type} {g : FlowGraph} {registry : Registry} {oracle : Oracle σ} {oracleState : σ}
  {options : RunOptions}

variable (g registry oracle oracleState options) in
/-- The heap writes of every answer of the oracle that the run applies are covered. -/
def AnswersCovered : Prop :=
  ∀ (k : Nat) p q inst d, (history g registry oracle oracleState options)[k]? = some p →
    (history g registry oracle oracleState options)[k + 1]? = some q →
    Performs g registry oracle p inst d → Engine.decide registry inst p.state ≠ .ok d →
    d.WritesCovered p.state

/-- A run whose answers are covered is well numbered throughout: the engine's own decisions are
always covered. -/
theorem wellNumbered_of_answersCovered
    (h : AnswersCovered g registry oracle oracleState options) :
    ∀ p ∈ history g registry oracle oracleState options, p.state.WellNumbered := by
  apply history_induction
  · intro label
    exact State.wellNumbered_start
  · intro k p q flow hpk hqk hp houtcome
    rcases exists_performs_of_outcome houtcome with hstate | ⟨inst, d, hperforms, habsorbs⟩
    · rwa [hstate]
    · -- the engine writes only to objects that are there or that it creates
      refine (hp.absorb_iff habsorbs).mpr ?_
      by_cases hengine : Engine.decide registry inst p.state = .ok d
      · exact hp.writesCovered_of_footprint (Engine.decide_eq_ok hengine).2
      · exact h k p q inst d hpk hqk hperforms hengine

/-- In a run that is well numbered throughout, all answers are covered. -/
theorem answersCovered_of_wellNumbered
    (h : ∀ p ∈ history g registry oracle oracleState options, p.state.WellNumbered) :
    AnswersCovered g registry oracle oracleState options := by
  intro k p q inst d hp hq hperforms _
  obtain ⟨flow, hreaches⟩ := reaches_of_history hp hq
  have habsorbs := absorbs_of_performs (stepOutcome_of_reaches hreaches) hperforms
  have hbefore := h p (List.mem_of_getElem? hp)
  exact (hbefore.absorb_iff habsorbs).mp (h q (List.mem_of_getElem? hq))

variable (g registry oracle oracleState options) in
/-- **A delta keeps a state well numbered exactly if its heap writes are covered.** The same holds
of a run with any oracle and the answers that it applies. If they are covered, then the addresses
that the engine allocates are not on the heap. -/
theorem wellNumbered_iff_writesCovered :
    (∀ (s : State) (d : Delta), s.WellNumbered →
      (∀ name ∈ d.reservations, ∀ n ∈ IdKind.anyNumber? name, n < UInt64.size - 1) →
      ∃ applied, s.apply d = .ok applied ∧ (applied.state.WellNumbered ↔ d.WritesCovered s)) ∧
    ((∀ p ∈ history g registry oracle oracleState options, p.state.WellNumbered) ↔
      AnswersCovered g registry oracle oracleState options) ∧
    (AnswersCovered g registry oracle oracleState options →
      ∀ p ∈ history g registry oracle oracleState options, ∀ inst d,
        Engine.decide registry inst p.state = .ok d →
        ∀ obj ∈ d.newObjects, obj.address ∉ p.state.heap.keys) := by
  refine ⟨fun s d hs hnumbers => ?_,
    ⟨answersCovered_of_wellNumbered, wellNumbered_of_answersCovered⟩,
    fun hcovered p hp inst d hdecide obj hobj => ?_⟩
  · obtain ⟨applied, happly⟩ := State.exists_apply s hnumbers
    exact ⟨applied, happly, hs.absorb_iff (State.absorbs_of_apply happly)⟩
  · have hnumbered := wellNumbered_of_answersCovered hcovered p hp
    exact hnumbered.address_notMem (Engine.decide_eq_ok hdecide).2 hobj

/-- A question for the oracle. -/
def askUnknown : Instruction where
  opcode := .callUnknown
  operands := [.text "ext"]

/-- A program that asks the oracle and then makes an object. -/
def askAndAllocate : List Instruction :=
  [askUnknown, { opcode := .newObject, result := some "%0", operands := [.text "Point"] }]

/-- The run of the program with one recorded answer. -/
def askingRun (answer : String) : List (Progress Recording) :=
  history (.ofInstructions askAndAllocate) {} ReplayOracle.oracle ⟨[answer], 0⟩ {}

/-- An answer that creates an object and writes one of its fields. -/
def creatingAnswer : String :=
  r#"{"new_objects": [{"addr": "obj_0"}], "# ++
    r#""heap_writes": [{"obj_addr": "obj_0", "field": "x", "value": 1}]}"#

/-- The delta of this answer. -/
def createAndWrite : Delta where
  newObjects := [⟨"obj_0", none⟩]
  heapWrites := [⟨"obj_0", "x", .int 1⟩]

/-- The write of this answer is covered by the object that it creates, and the program's own object
goes to the next address. -/
theorem creatingAnswer_covered :
    (∃ applied, ({} : State).apply createAndWrite = .ok applied ∧ applied.state.WellNumbered) ∧
    AnswersCovered (.ofInstructions askAndAllocate) {} ReplayOracle.oracle ⟨[creatingAnswer], 0⟩
      {} ∧
    (askingRun creatingAnswer).map (·.state.heap.keys) =
      [[], ["obj_0"], ["obj_0", "obj_1"], ["obj_0", "obj_1"]] := by
  obtain ⟨hdelta, hrun, -⟩ := wellNumbered_iff_writesCovered (.ofInstructions askAndAllocate) {}
    ReplayOracle.oracle ⟨[creatingAnswer], 0⟩ {}
  refine ⟨?_, hrun.mp ?_, by decide +kernel⟩
  · obtain ⟨applied, happly, hiff⟩ :=
      hdelta {} createAndWrite State.wellNumbered_start (by decide)
    exact ⟨applied, happly, hiff.mpr (by decide)⟩
  · show ∀ p ∈ askingRun creatingAnswer, p.state.WellNumbered
    decide +kernel

/-- An answer that writes to an object which is not there. -/
def writingAnswer : String :=
  r#"{"heap_writes": [{"obj_addr": "obj_0", "field": "x", "value": 1}]}"#

/-- Applied to the empty state, which is well numbered, this answer gives a state that is not. The
program's own object then lands on the object that the answer wrote to. -/
theorem writingAnswer_collides :
    (∃ d applied, Response.parse writingAnswer askUnknown {} = .ok d ∧
      ({} : State).WellNumbered ∧ ({} : State).apply d = .ok applied ∧
      ¬ applied.state.WellNumbered) ∧
    (askingRun writingAnswer).map (·.state.heap.keys) =
      [[], ["obj_0"], ["obj_0"], ["obj_0"]] := by
  refine ⟨?_, by decide +kernel⟩
  have hview : ((Response.parse writingAnswer askUnknown {}).toOption.bind fun d =>
      (({} : State).apply d).toOption.map fun applied => decide applied.state.WellNumbered) =
        some false := by
    decide +kernel
  obtain ⟨d, hd, hview⟩ := Option.bind_eq_some_iff.mp hview
  obtain ⟨applied, happly, hnot⟩ := Option.map_eq_some_iff.mp hview
  exact ⟨d, applied, toOption_eq_some hd, State.wellNumbered_start, toOption_eq_some happly,
    of_decide_eq_false hnot⟩

end SymbolicVM.Run

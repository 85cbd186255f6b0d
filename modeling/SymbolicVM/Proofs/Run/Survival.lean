import SymbolicVM.Proofs.Oracle.Answers
import SymbolicVM.Proofs.Run.Replay

/-!
# States survive in documents

A state of a run is read back from its document, down to every nested value, if all floating-point
numbers in it are finite (`Run.states_read_back`). Unknowns come back as unknowns, and no map is
taken for one, since all maps of a run are regular: they come from answers, which are read from
documents, and the engine makes no maps of its own (`Run.regular_of_attains`). This holds for the
symbolic oracle and for every oracle that reads its answers.
-/

namespace SymbolicVM

/-! ### Regular states -/

/-- All maps in the state list their entries by increasing key and do not look like unknowns. -/
def State.Regular (s : State) : Prop :=
  ∀ v ∈ s.values, v.Everywhere Value.RegularMap

/-- All floating-point numbers in the state are finite. -/
def State.Finite (s : State) : Prop :=
  ∀ v ∈ s.values, v.Everywhere Value.FiniteFloat

instance (s : State) : Decidable s.Finite :=
  inferInstanceAs (Decidable (∀ v ∈ s.values, v.Everywhere Value.FiniteFloat))

/-- Asked in a regular state, the oracle answers with regular values. -/
def Oracle.Regular {σ : Type} (oracle : Oracle σ) : Prop :=
  ∀ inst s os d, s.Regular → (oracle.decide inst s os).1 = .ok d →
    ∀ v ∈ d.writtenValues, v.Everywhere Value.RegularMap

theorem Delta.Footprint.regular {s : State} {d : Delta} (h : d.Footprint s) (hs : s.Regular) :
    ∀ v ∈ d.writtenValues, v.Everywhere Value.RegularMap :=
  fun v hv => (h.values v hv).regular hs

theorem SymbolicOracle.regular : oracle.Regular :=
  fun _ _ _ _ hs h => (answer_eq_ok h).2.regular hs

theorem Oracle.Parses.regular {σ : Type} {oracle : Oracle σ} (h : oracle.Parses) :
    oracle.Regular := by
  intro inst s os d _ hanswer
  obtain ⟨text, hparse⟩ := h inst s os d hanswer
  exact Response.regular_of_parse hparse

theorem State.regular_start : ({} : State).Regular := by
  intro v hv
  rw [State.values_start] at hv
  exact absurd hv List.not_mem_nil

/-- A delta with regular values keeps a state regular. -/
theorem State.Regular.absorb {s t : State} {d : Delta} (hs : s.Regular)
    (hd : ∀ v ∈ d.writtenValues, v.Everywhere Value.RegularMap) (h : s.Absorbs d t) :
    t.Regular := by
  intro v hv
  rcases h.grows.values v hv with hold | hnew
  · exact hs v hold
  · exact hd v hnew

namespace Run

section Runs

variable {σ : Type} {g : FlowGraph} {registry : Registry} {oracle : Oracle σ} {oracleState : σ}
  {options : RunOptions} {p : Progress σ} {inst : Instruction} {d : Delta} {s : State}

/-- Every decision in a regular state is regular, the engine's and the oracle's. -/
theorem regular_of_decision? (horacle : oracle.Regular) (hs : p.state.Regular)
    (h : decision? registry oracle inst p = some d) :
    ∀ v ∈ d.writtenValues, v.Everywhere Value.RegularMap := by
  rcases decision?_cases h with hengine | hanswer
  · exact (Engine.decide_eq_ok hengine).2.regular hs
  · exact horacle inst p.state p.oracleState d hs hanswer

/-- **All maps of a run are regular.** -/
theorem regular_of_attains (horacle : oracle.Regular)
    (h : Attains g registry oracle oracleState options s) : s.Regular := by
  -- a step adds only the values of its delta, and these are regular if the state is
  refine h.of_history State.Regular State.regular_start ?_
  apply history_induction
  · intro label
    exact State.regular_start
  · intro k p q flow _ _ hp houtcome
    rcases exists_performs_of_outcome houtcome with hstate | ⟨inst, d, hperforms, habsorbs⟩
    · rwa [hstate]
    · exact hp.absorb (regular_of_decision? horacle hp hperforms.2) habsorbs

theorem read_back_of_attains (horacle : oracle.Regular)
    (h : Attains g registry oracle oracleState options s) (hfinite : s.Finite) :
    State.ofJson? s.toJson.canonical = some s := by
  have hregular := regular_of_attains horacle h
  exact State.ofJson?_toJson fun v hv => ⟨hfinite v hv, hregular v hv⟩

end Runs

/-- **States survive in documents.** Every state of a run with the symbolic oracle, or with an
oracle that reads its answers, is read back from its canonical document, if all floating-point
numbers in it are finite. The replay oracle and the command oracle read their answers, whatever the
programs do that the latter runs. -/
theorem states_read_back (g : FlowGraph) (registry : Registry) (options : RunOptions) :
    (∀ s, Attains g registry SymbolicOracle.oracle () options s → s.Finite →
      State.ofJson? s.toJson.canonical = some s) ∧
    (∀ (σ : Type) (oracle : Oracle σ) (oracleState : σ), oracle.Parses →
      ∀ s, Attains g registry oracle oracleState options s → s.Finite →
        State.ofJson? s.toJson.canonical = some s) ∧
    ReplayOracle.oracle.Parses ∧
    ∀ (σ : Type) (transport : Transport σ) (settings : CommandSettings),
      (CommandOracle.oracle transport settings).Parses :=
  ⟨fun _ => read_back_of_attains SymbolicOracle.regular,
    fun _ _ _ hparses _ => read_back_of_attains hparses.regular,
    ReplayOracle.parses, fun _ _ _ => CommandOracle.parses⟩

/-- A program that asks the oracle for a value. -/
def askingForValue : List Instruction :=
  [{ opcode := .callUnknown, result := some "%0", operands := [.text "ext"] }]

/-- An answer with a map that has the key of the marker, but not its value, and with an unknown in
it that is to be named. -/
def nearlyMarkedAnswer : String :=
  r#"{"register_writes": {"%0": {"__symbolic__": 1, "parts": [{"__symbolic__": true}, null]}}}"#

/-- What is seen of a state: the document of the register, and whether all numbers are finite. -/
def valueSeen (s : State) : Option Json × Bool :=
  ((s.register? "%0").map Value.toJson, decide s.Finite)

theorem attains_of_view {σ : Type} {oracle : Oracle σ} {oracleState : σ} {j : Json}
    (h : ((history (.ofInstructions askingForValue) {} oracle oracleState {}).map
      fun p => valueSeen p.state)[1]? = some (some j, true)) :
    ∃ s, Attains (.ofInstructions askingForValue) {} oracle oracleState {} s ∧ s.Finite ∧
      (s.register? "%0").map Value.toJson = some j := by
  obtain ⟨p, hp, hview⟩ := List.mem_map.mp (List.mem_of_getElem? h)
  obtain ⟨hvalue, hfinite⟩ := Prod.mk.inj hview
  exact ⟨p.state, .inl ⟨p, hp, rfl⟩, of_decide_eq_true hfinite, hvalue⟩

/-- The map of the answer survives with its unknown, and so does the unknown that the symbolic
oracle answers with. -/
theorem nearlyMarkedAnswer_read_back :
    (∃ s, Attains (.ofInstructions askingForValue) {} ReplayOracle.oracle
        ⟨[nearlyMarkedAnswer], 0⟩ {} s ∧
      (s.register? "%0").map Value.toJson = some (.obj [("__symbolic__", .int 1),
        ("parts", .arr [.obj [("__symbolic__", .bool true), ("name", .str "sym_0")], .null])]) ∧
      State.ofJson? s.toJson.canonical = some s) ∧
    ∃ s, Attains (.ofInstructions askingForValue) {} SymbolicOracle.oracle () {} s ∧
      (s.register? "%0").map Value.toJson = some (.obj [("__symbolic__", .bool true),
        ("name", .str "sym_0"), ("constraints", .arr [.str "ext()"])]) ∧
      State.ofJson? s.toJson.canonical = some s := by
  obtain ⟨hsymbolic, hparsed, hreplay, -⟩ :=
    states_read_back (.ofInstructions askingForValue) {} {}
  have hanswered : ((history (.ofInstructions askingForValue) {} ReplayOracle.oracle
      ⟨[nearlyMarkedAnswer], 0⟩ {}).map fun p => valueSeen p.state)[1]? =
        some (some (.obj [("__symbolic__", .int 1), ("parts",
          .arr [.obj [("__symbolic__", .bool true), ("name", .str "sym_0")], .null])]), true) := by
    decide +kernel
  have hminted : ((history (.ofInstructions askingForValue) {} SymbolicOracle.oracle () {}).map
      fun p => valueSeen p.state)[1]? =
        some (some (.obj [("__symbolic__", .bool true), ("name", .str "sym_0"),
          ("constraints", .arr [.str "ext()"])]), true) := by
    decide +kernel
  constructor
  · obtain ⟨s, hs, hfinite, hvalue⟩ := attains_of_view hanswered
    exact ⟨s, hs, hvalue, hparsed _ _ _ hreplay s hs hfinite⟩
  · obtain ⟨s, hs, hfinite, hvalue⟩ := attains_of_view hminted
    exact ⟨s, hs, hvalue, hsymbolic s hs hfinite⟩

end Run

end SymbolicVM

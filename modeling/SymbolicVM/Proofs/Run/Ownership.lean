import SymbolicVM.Proofs.Engine.Capture
import SymbolicVM.Proofs.Run.Freshness
import SymbolicVM.Proofs.Run.ReturnStamps

/-!
# Activations own their environments

Throughout a run with the symbolic oracle every activation that has created an environment owns it
alone, and it binds exactly the names of the activation's locals (`Run.environments_owned`).
The environment is new when it is created, whatever environments the texts of the program refer to,
and after that each store keeps the two in step.

Reading a variable asks the places that storing writes to in another order. By this invariant they
agree: a stored variable is read back, and no other variable changes (`Run.stored_read_back`).
-/

namespace SymbolicVM.Run

variable {g : FlowGraph} {registry : Registry} {options : RunOptions} {s s' : State}
  {inst : Instruction} {d : Delta} {control : Control} {depth : Nat} {applied : State.Applied}
  {flow : Flow}

/-- Performing an instruction keeps the owned environments in step. -/
theorem wellOwned_of_advance (h : s.WellOwned) (hcaptures : d.Captures s)
    (hnew : ∀ c, d.newClosure = some c → c.id ∉ s.closures.keys) (happly : s.apply d = .ok applied)
    (hadvance : advance g inst control d depth applied = (s', flow)) : s'.WellOwned := by
  have happlied : applied.state.WellOwned := by
    rw [State.apply_eq] at happly
    obtain ⟨c, -, rfl⟩ := map_eq_ok.mp happly
    exact h.effect hcaptures hnew
  exact advance_invariant State.WellOwned
    (fun _ label offset register hs => hs.stampReturn label offset register)
    (fun _ hs => hs.popFrame) (fun _ reg v hs => hs.writeRegister reg v) happlied hadvance

/-- The environment that a step creates is not in the arena yet. -/
theorem id_notMem_of_decision? {p : Progress Unit}
    (hp : p ∈ history g registry SymbolicOracle.oracle () options)
    (hdecided : decision? registry SymbolicOracle.oracle inst p = some d) {c : NewClosure}
    (hc : d.newClosure = some c) : c.id ∉ p.state.closures.keys :=
  (numbered_of_history p hp).id_notMem ((decision?_symbolic hdecided).2.closure c hc)

theorem wellOwned_of_history :
    ∀ p ∈ history g registry SymbolicOracle.oracle () options, p.state.WellOwned := by
  apply history_induction
  · intro label
    exact State.WellOwned.start
  · intro k p q flow hp _ hinv houtcome
    cases houtcome with
    | moved state idle ends => rwa [state]
    | performed inst d applied located decided apply advance =>
      have hmem := List.mem_of_getElem? hp
      exact wellOwned_of_advance hinv (captures_of_decision? decided)
        (fun c hc => id_notMem_of_decision? hmem decided hc) apply advance

/-- **Every activation owns its own environment, in step with its locals**, in every state of every
run with the symbolic oracle. -/
theorem environments_owned (g : FlowGraph) (registry : Registry) (options : RunOptions) (s : State)
    (h : Attains g registry SymbolicOracle.oracle () options s) : s.WellOwned :=
  h.of_history State.WellOwned State.WellOwned.start wellOwned_of_history

/-- A program in which a function makes a closure over its variable `n`, and the closure is called
afterwards. -/
def closingProgram : List Instruction :=
  [{ opcode := .branch, label := some "main" },
    { opcode := .label, label := some "func_make" },
    { opcode := .storeVar, operands := [.text "n", .int 1] },
    { opcode := .const, result := some "%0", operands := [.text "<function:get@func_get>"] },
    { opcode := .ret, operands := [.text "%0"] },
    { opcode := .label, label := some "func_get" },
    { opcode := .ret },
    { opcode := .label, label := some "main" },
    { opcode := .storeVar, operands := [.text "make", .text "<function:make@func_make>"] },
    { opcode := .callFunction, result := some "%1", operands := [.text "make"] },
    { opcode := .storeVar, operands := [.text "get", .text "%1"] },
    { opcode := .callFunction, operands := [.text "get"] },
    { opcode := .ret }]

/-- A state of the run of this program. -/
def ClosingState (s : State) : Prop :=
  Attains (.ofInstructions closingProgram)
    (.build closingProgram (.ofInstructions closingProgram)) SymbolicOracle.oracle () {} s

theorem closingState_of_view {β : Type} (view : State → β) (k : Nat) (seen : β)
    (h : ((history (.ofInstructions closingProgram)
      (.build closingProgram (.ofInstructions closingProgram)) SymbolicOracle.oracle () {})[k]?.map
        fun p => view p.state) = some seen) : ∃ s, ClosingState s ∧ view s = seen := by
  obtain ⟨p, hp, hview⟩ := Option.map_eq_some_iff.mp h
  exact ⟨p.state, .inl ⟨p, List.mem_of_getElem? hp, rfl⟩, hview⟩

/-- After the literal is evaluated the activation of `make` owns the environment that binds `n`. -/
theorem closingProgram_owned :
    ∃ s, ClosingState s ∧ s.frames.map (·.ownedEnv) = [some "env_0", none] ∧ s.WellOwned := by
  obtain ⟨s, hs, hview⟩ := closingState_of_view (fun s => s.frames.map (·.ownedEnv)) 5
    [some "env_0", none] (by decide +kernel)
  exact ⟨s, hs, hview, environments_owned _ _ _ s hs⟩

/-! ### Reading back what was stored -/

/-- **A stored variable is read back, and no other changes**, in every state of every run with the
symbolic oracle. -/
theorem stored_read_back (g : FlowGraph) (registry : Registry) (options : RunOptions) (s : State)
    (h : Attains g registry SymbolicOracle.oracle () options s) (x : String) (v : Value) :
    (s.store x v).lookup? x = some v ∧
      ∀ y, y ≠ x → (s.store x v).lookup? y = s.lookup? y := by
  have howned : s.WellOwned :=
    h.of_history State.WellOwned State.WellOwned.start wellOwned_of_history
  have hne : s.frames ≠ [] := by
    refine h.of_history (·.frames ≠ []) (List.cons_ne_nil _ _) ?_
    exact frames_ne_nil_of_history
  obtain ⟨f, callers, hf⟩ := List.exists_cons_of_ne_nil hne
  have hmem : f ∈ s.frames := by
    rw [hf]
    exact List.mem_cons_self
  exact ⟨State.lookup?_store_self hf (howned.ownsLocals hmem) x v,
    fun y hy => s.lookup?_store_of_ne hy⟩

/-- In the activation of the closure, `n` is stored through the environment that `make` left. -/
theorem closingProgram_read_back :
    ∃ s, ClosingState s ∧ s.frames.map (·.closureEnv) = [some "env_0", none] ∧
      (s.store "n" (.int 2)).lookup? "n" = some (.int 2) ∧
      (s.store "n" (.int 2)).lookup? "make" = s.lookup? "make" := by
  obtain ⟨s, hs, hview⟩ := closingState_of_view (fun s => s.frames.map (·.closureEnv)) 8
    [some "env_0", none] (by decide +kernel)
  obtain ⟨hself, hother⟩ := stored_read_back _ _ _ s hs "n" (.int 2)
  exact ⟨s, hs, hview, hself, hother "make" (by decide)⟩

end SymbolicVM.Run

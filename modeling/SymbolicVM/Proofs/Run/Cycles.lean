import SymbolicVM.Proofs.Machine.Chain
import SymbolicVM.Proofs.Run.Ownership

/-!
# Cycles of environments

The parent of a new environment is the environment that the capturing activation was called with,
and a call takes this from the text of a function reference. A program can write that text itself,
and name an environment that does not exist yet. If the new environment then gets this very name,
it becomes its own ancestor: `Run.forgedProgram_cyclic`.

This is the only way to a cycle (`Run.acyclic_iff_not_closesCycle`). In particular there is none as
long as every activation is called with an environment of the arena.
-/

namespace SymbolicVM

namespace State

/-- The delta creates an environment under the name at which the chain from its parent ends. -/
def ClosesCycle (s : State) (d : Delta) : Prop :=
  ∃ c, d.newClosure = some c ∧ s.chainEnd c.parent = some c.id

/-- All activations were called with environments of the arena. -/
def CallsKnown (s : State) : Prop :=
  ∀ f ∈ s.frames, ∀ id ∈ f.closureEnv, id ∈ s.closures.keys

instance (s : State) : Decidable s.CallsKnown :=
  inferInstanceAs (Decidable (∀ f ∈ s.frames, ∀ id ∈ f.closureEnv, id ∈ s.closures.keys))

theorem acyclic_start : ({} : State).Acyclic := by
  intro id hcycle
  obtain ⟨up, hparent, -⟩ := Relation.TransGen.head'_iff.mp hcycle
  contradiction

theorem parentsClosed_start : ({} : State).ParentsClosed := by
  intro id up hparent
  contradiction

end State

namespace Run

variable {g : FlowGraph} {registry : Registry} {options : RunOptions} {s s' : State}
  {inst : Instruction} {d : Delta} {control : Control} {depth : Nat} {applied : State.Applied}
  {flow : Flow} {p q : Progress Unit}

/-- After an instruction the parents are those that its delta sets. -/
theorem parent?_of_advance (happly : s.apply d = .ok applied)
    (hadvance : advance g inst control d depth applied = (s', flow)) :
    s'.parent? = (s.effect d).1.parent? := by
  have happlied : applied.state.parent? = (s.effect d).1.parent? := by
    rw [State.apply_eq] at happly
    obtain ⟨c, -, rfl⟩ := map_eq_ok.mp happly
    rfl
  refine advance_invariant (fun t => t.parent? = (s.effect d).1.parent?) ?_ ?_ ?_ happlied hadvance
  · intro t label offset register ht
    exact (State.parent?_of_closures_eq (State.closures_modifyCurrent t _)).trans ht
  · intro t ht
    exact (State.parent?_of_closures_eq (State.closures_popFrame t)).trans ht
  · intro t reg v ht
    exact (State.parent?_of_closures_eq (State.closures_modifyCurrent t _)).trans ht

/-- **A step keeps the arena acyclic exactly if it closes no cycle.** -/
theorem acyclic_of_outcome_iff (hp : p ∈ history g registry SymbolicOracle.oracle () options)
    (hs : p.state.Acyclic) (houtcome : StepOutcome g registry SymbolicOracle.oracle p q flow) :
    q.state.Acyclic ↔ ∀ inst d, Performs g registry SymbolicOracle.oracle p inst d →
      ¬ p.state.ClosesCycle d := by
  constructor
  · rintro hq inst d hperforms ⟨c, hc, hend⟩
    rcases advance_of_performs houtcome hperforms with ⟨rfl, -⟩ | ⟨applied, happly, hadvance⟩
    · contradiction
    · rw [State.acyclic_of_parent?_eq (parent?_of_advance happly hadvance)] at hq
      have hnew := id_notMem_of_decision? hp hperforms.2 hc
      exact (State.acyclic_effect_iff hs hc hnew).mp hq hend
  · intro hclear
    cases houtcome with
    | moved state idle ends => rwa [state]
    | performed inst d applied located decided apply advance =>
      rw [State.acyclic_of_parent?_eq (parent?_of_advance apply advance)]
      cases hc : d.newClosure with
      | none =>
        rw [State.acyclic_of_parent?_eq (State.parent?_effect_of_none hc)]
        exact hs
      | some c =>
        rw [State.acyclic_effect_iff hs hc (id_notMem_of_decision? hp decided hc)]
        intro hend
        exact hclear inst d ⟨located, decided⟩ ⟨c, hc, hend⟩

/-- No step closes a cycle while all activations are called with environments of the arena, and the
parents of all environments stay in the arena. -/
theorem not_closesCycle_of_callsKnown
    (hp : p ∈ history g registry SymbolicOracle.oracle () options) (hclosed : p.state.ParentsClosed)
    (hknown : p.state.CallsKnown)
    (hdecided : decision? registry SymbolicOracle.oracle inst p = some d) :
    ¬ p.state.ClosesCycle d ∧ (p.state.effect d).1.ParentsClosed := by
  -- the parent of a new environment is the one that the current activation was called with
  have hparent : ∀ c, d.newClosure = some c → ∀ up ∈ c.parent, up ∈ p.state.closures.keys := by
    intro c hc
    obtain ⟨f, caller, callers, hf, -, rfl⟩ := captures_of_decision? hdecided c hc
    exact hknown f (by rw [hf]; exact List.mem_cons_self)
  constructor
  · rintro ⟨c, hc, hend⟩
    exact State.chainEnd_of_closed hclosed (hparent c hc) (id_notMem_of_decision? hp hdecided hc)
      hend
  · cases hc : d.newClosure with
    | none =>
      exact (State.parentsClosed_of_parent?_eq (State.parent?_effect_of_none hc)).mpr hclosed
    | some c =>
      exact hclosed.insert (State.parent?_effect_of_some hc)
        (id_notMem_of_decision? hp hdecided hc) (hparent c hc)

/-! ### Whole runs -/

/-- No step of the run closes a cycle. -/
def NoCycleClosed (g : FlowGraph) (registry : Registry) (options : RunOptions) : Prop :=
  ∀ (k : Nat) (p q : Progress Unit) inst d,
    (history g registry SymbolicOracle.oracle () options)[k]? = some p →
    (history g registry SymbolicOracle.oracle () options)[k + 1]? = some q →
    Performs g registry SymbolicOracle.oracle p inst d → ¬ p.state.ClosesCycle d

theorem acyclic_of_noCycleClosed (h : NoCycleClosed g registry options) :
    ∀ p ∈ history g registry SymbolicOracle.oracle () options, p.state.Acyclic := by
  apply history_induction
  · intro label
    exact State.acyclic_start
  · intro k p q flow hp hq hinv houtcome
    exact (acyclic_of_outcome_iff (List.mem_of_getElem? hp) hinv houtcome).mpr
      fun inst d hperforms => h k p q inst d hp hq hperforms

theorem noCycleClosed_of_acyclic
    (h : ∀ p ∈ history g registry SymbolicOracle.oracle () options, p.state.Acyclic) :
    NoCycleClosed g registry options := by
  intro k p q inst d hp hq hperforms
  have hmem := List.mem_of_getElem? hp
  obtain ⟨flow, hreaches⟩ := reaches_of_history hp hq
  exact (acyclic_of_outcome_iff hmem (h p hmem) (stepOutcome_of_reaches hreaches)).mp
    (h q (List.mem_of_getElem? hq)) inst d hperforms

theorem noCycleClosed_of_callsKnown
    (h : ∀ p ∈ history g registry SymbolicOracle.oracle () options, p.state.CallsKnown) :
    NoCycleClosed g registry options := by
  have hclosed : ∀ p ∈ history g registry SymbolicOracle.oracle () options,
      p.state.ParentsClosed := by
    apply history_induction
    · intro label
      exact State.parentsClosed_start
    · intro k p q flow hp _ hinv houtcome
      have hmem := List.mem_of_getElem? hp
      cases houtcome with
      | moved state idle ends => rwa [state]
      | performed inst d applied located decided apply advance =>
        rw [State.parentsClosed_of_parent?_eq (parent?_of_advance apply advance)]
        exact (not_closesCycle_of_callsKnown hmem hinv (h p hmem) decided).2
  intro k p q inst d hp _ hperforms
  have hmem := List.mem_of_getElem? hp
  exact (not_closesCycle_of_callsKnown hmem (hclosed p hmem) (h p hmem) hperforms.2).1

/-- All chains of environments end, in every state of the run, and are followed to their end. -/
def ChainsEnd (g : FlowGraph) (registry : Registry) (options : RunOptions) : Prop :=
  ∀ s, Attains g registry SymbolicOracle.oracle () options s → s.Acyclic ∧ s.ChainsComplete

theorem chainsEnd_iff :
    ChainsEnd g registry options ↔
      ∀ p ∈ history g registry SymbolicOracle.oracle () options, p.state.Acyclic := by
  constructor
  · intro h p hp
    exact (h p.state (.inl ⟨p, hp, rfl⟩)).1
  · intro h s hs
    have hacyclic : s.Acyclic := hs.of_history State.Acyclic State.acyclic_start h
    exact ⟨hacyclic, State.acyclic_iff_chains_complete.mp hacyclic⟩

/-- **When the environments of a run form no cycle**, and no chain of them is cut short: exactly if
no step creates an environment under the name at which the chain from its parent ends. This is so
whenever all activations are called with environments of the arena. -/
theorem acyclic_iff_not_closesCycle (g : FlowGraph) (registry : Registry) (options : RunOptions) :
    (ChainsEnd g registry options ↔ NoCycleClosed g registry options) ∧
      ((∀ p ∈ history g registry SymbolicOracle.oracle () options, p.state.CallsKnown) →
        ChainsEnd g registry options) := by
  have hiff : ChainsEnd g registry options ↔ NoCycleClosed g registry options := by
    rw [chainsEnd_iff]
    exact ⟨noCycleClosed_of_acyclic, acyclic_of_noCycleClosed⟩
  exact ⟨hiff, fun hknown => hiff.mpr (noCycleClosed_of_callsKnown hknown)⟩

/-- A program whose closure is called with the environment that it was made in. -/
theorem closingProgram_acyclic :
    ∃ s, ClosingState s ∧ s.closures.keys = ["env_0"] ∧ s.Acyclic ∧ s.ChainsComplete := by
  have hknown : ∀ p ∈ history (.ofInstructions closingProgram)
      (.build closingProgram (.ofInstructions closingProgram)) SymbolicOracle.oracle () {},
      p.state.CallsKnown := by
    decide +kernel
  obtain ⟨s, hs, hkeys⟩ := closingState_of_view (·.closures.keys) 8 ["env_0"] (by decide +kernel)
  exact ⟨s, hs, hkeys, (acyclic_iff_not_closesCycle _ _ {}).2 hknown s hs⟩

/-- A program that calls `f` with an environment that is not there, and `f` evaluates a function
literal. -/
def forgedProgram : List Instruction :=
  [{ opcode := .branch, label := some "main" },
    { opcode := .label, label := some "func_f_0" },
    { opcode := .const, result := some "%0", operands := [.text "<function:g@func_g_0>"] },
    { opcode := .ret, operands := [.text "%0"] },
    { opcode := .label, label := some "func_g_0" },
    { opcode := .ret },
    { opcode := .label, label := some "main" },
    { opcode := .const, result := some "%1", operands := [.text "<function:f@func_f_0#env_0>"] },
    { opcode := .storeVar, operands := [.text "f", .text "%1"] },
    { opcode := .callFunction, result := some "%2", operands := [.text "f"] },
    { opcode := .ret, operands := [.text "%2"] }]

/-- The environment that is created gets the name of the one that was asked for, and is its own
parent from then on. -/
theorem forgedProgram_cyclic :
    ∃ s, Attains (.ofInstructions forgedProgram)
        (.build forgedProgram (.ofInstructions forgedProgram)) SymbolicOracle.oracle () {} s ∧
      s.Parent "env_0" "env_0" ∧ ¬ s.Acyclic ∧ ¬ s.ChainsComplete := by
  have hview : ((history (.ofInstructions forgedProgram)
      (.build forgedProgram (.ofInstructions forgedProgram)) SymbolicOracle.oracle () {})[5]?.map
        fun p => p.state.parent? "env_0") = some (some (some "env_0")) := by
    decide +kernel
  obtain ⟨p, hp, hparent⟩ := Option.map_eq_some_iff.mp hview
  have hcyclic : ¬ p.state.Acyclic := fun h => h "env_0" (.single hparent)
  refine ⟨p.state, .inl ⟨p, List.mem_of_getElem? hp, rfl⟩, hparent, hcyclic, ?_⟩
  rwa [← State.acyclic_iff_chains_complete]

end Run

end SymbolicVM

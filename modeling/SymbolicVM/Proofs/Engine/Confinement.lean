import SymbolicVM.Proofs.Engine.Footprint
import SymbolicVM.Proofs.Run.Freshness

/-!
# What a decision is confined to

A delta has ten parts besides its explanation, and each decision fills few of them.
`Engine.Confined` says for each part which instructions may fill it and with what, and
`Engine.decide_confined` proves it of every decision, whatever the registry and the state.
-/

namespace SymbolicVM.Engine

/-- The bounds on the delta that the engine decides for an instruction. -/
structure Confined (inst : Instruction) (s : State) (d : Delta) : Prop where
  /-- Only the result register is written. -/
  registers : ∀ reg ∈ d.registerWrites.keys, inst.result = some reg
  /-- Variables are written by the store of one, or bound by a call. -/
  vars : d.varWrites.keys ≠ [] →
    (inst.opcode = .storeVar ∧ ∃ name, d.varWrites.keys = [name]) ∨ d.callPush.isSome = true
  /-- Fields are written in objects that are there or that the delta creates. -/
  heap : ∀ w ∈ d.heapWrites, w.address ∈ s.heap.keys ∨ w.address ∈ d.newObjects.map (·.address)
  /-- One object or environment is created at most. -/
  allocations : d.allocations.length ≤ 1
  /-- All that is new has one name, whose number is the counter. -/
  identifiers : ∃ kind : IdKind, ∀ name, Run.Mints s d name → name = kind.name s.counter
  /-- Calls enter a frame, and they say where its code is. -/
  calls : d.callPush.isSome = true →
    (inst.opcode = .callFunction ∨ inst.opcode = .callMethod) ∧ d.nextLabel.isSome = true
  /-- Constants create environments, in an inner frame that owns none. -/
  closure : d.newClosure.isSome = true →
    inst.opcode = .const ∧
      ∃ frame caller callers, s.frames = frame :: caller :: callers ∧ frame.ownedEnv = none
  /-- Returns end the frame. -/
  pops : d.callPop = true ↔ inst.opcode = .ret
  /-- Returns carry a value. -/
  returns : d.returnValue.isSome = true ↔ inst.opcode = .ret
  /-- Conditional branches assume something. -/
  assumes : d.pathCondition.isSome = true ↔ inst.opcode = .branchIf
  /-- Conditional branches go to one of their targets. -/
  branches : inst.opcode = .branchIf →
    ∃ onTrue onFalse, inst.branchTargets? = some (onTrue, onFalse) ∧
      (d.nextLabel = some onTrue ∨ d.nextLabel = some onFalse)
  /-- A result is written, or else left to a frame that is no constructor's. -/
  results : inst.opcode ∈ Opcode.producers → ∀ reg, inst.result = some reg →
    Xor (reg ∈ d.registerWrites.keys)
      (∃ push, d.callPush = some push ∧ push.isConstructor = false)

variable {s : State} {inst : Instruction} {d : Delta} {registry : Registry}

theorem mem_keys_resultWrites {reg : String} {v : Value} :
    reg ∈ (inst.resultWrites v).keys ↔ inst.result = some reg := by
  unfold Instruction.resultWrites
  cases inst.result with
  | none => simp
  | some own => simp [Dict.mem_keys_insert, eq_comm]

namespace Form

/-! ### Data -/

theorem result_of_registerWrites (h : Form registry inst s d) {reg : String}
    (hreg : reg ∈ d.registerWrites.keys) : inst.result = some reg := by
  cases h with
  | gives | invents | captures | allocates | constructs => exact mem_keys_resultWrites.mp hreg
  | _ => exact absurd hreg List.not_mem_nil

theorem store_or_call (h : Form registry inst s d) (hvars : d.varWrites.keys ≠ []) :
    (inst.opcode = .storeVar ∧ ∃ name, d.varWrites.keys = [name]) ∨ d.callPush.isSome = true := by
  cases h with
  | assigns opcode _ => exact .inl ⟨opcode, _, rfl⟩
  | calls | constructs => exact .inr rfl
  | _ => exact absurd rfl hvars

theorem allocations_eq (h : Form registry inst s d) :
    d.allocations = [] ∨ ∃ kind : IdKind, d.allocations = [kind.name s.counter] := by
  cases h with
  | captures => exact .inr ⟨.environment, rfl⟩
  | @allocates kind => exact .inr ⟨kind, rfl⟩
  | constructs => exact .inr ⟨.object, rfl⟩
  | _ => exact .inl rfl

theorem exists_kind (h : Form registry inst s d) :
    ∃ kind : IdKind, ∀ name, Run.Mints s d name → name = kind.name s.counter := by
  rcases h.known_or_invented with hknown | ⟨hnone, -, x, hname, hinvented⟩
  · -- what is new is what is allocated
    rcases h.allocations_eq with hnone | ⟨kind, hone⟩
    · refine ⟨.symbol, fun name hmints => ?_⟩
      have hmem := Run.mem_allocations_of_mints hknown hmints
      rw [hnone] at hmem
      exact absurd hmem List.not_mem_nil
    · refine ⟨kind, fun name hmints => ?_⟩
      have hmem := Run.mem_allocations_of_mints hknown hmints
      rw [hone] at hmem
      exact List.mem_singleton.mp hmem
  · -- nothing is allocated, and all that is written is the one unknown
    refine ⟨.symbol, fun name hmints => ?_⟩
    rcases hmints with hmem | ⟨hmem, -⟩
    · rw [hnone] at hmem
      exact absurd hmem List.not_mem_nil
    · obtain ⟨v, hv, hmem⟩ := List.mem_flatMap.mp hmem
      rw [hinvented v hv, Value.unknowns_symbolic, List.map_singleton] at hmem
      rw [List.mem_singleton.mp hmem, hname]

/-! ### Control -/

theorem of_callPush (h : Form registry inst s d) (hpush : d.callPush.isSome = true) :
    (inst.opcode = .callFunction ∨ inst.opcode = .callMethod) ∧ d.nextLabel.isSome = true := by
  cases h with
  | calls opcode _ _ => exact ⟨opcode, rfl⟩
  | constructs opcode _ _ _ => exact ⟨.inl opcode, rfl⟩
  | _ => contradiction

theorem of_newClosure (h : Form registry inst s d) (hclosure : d.newClosure.isSome = true) :
    inst.opcode = .const ∧
      ∃ frame caller callers, s.frames = frame :: caller :: callers ∧ frame.ownedEnv = none := by
  cases h with
  | captures opcode _ frames owned _ => exact ⟨opcode, _, _, _, frames, owned⟩
  | _ => contradiction

theorem ne_of_mem_producers (h : inst.opcode ∈ Opcode.producers) (op : Opcode)
    (hop : op ∉ Opcode.producers) : inst.opcode ≠ op := by
  rintro rfl
  exact hop h

/-- Only returns end a frame and carry a value, and only conditional branches assume something. -/
theorem control_iff (h : Form registry inst s d) :
    (d.callPop = true ↔ inst.opcode = .ret) ∧
      (d.returnValue.isSome = true ↔ inst.opcode = .ret) ∧
      (d.pathCondition.isSome = true ↔ inst.opcode = .branchIf) := by
  cases h with
  | idles opcode | jumps opcode | branches opcode _ _ _ _ | returns opcode _ | assigns opcode _
  | captures opcode _ _ _ _ | constructs opcode _ _ _ => simp [opcode]
  | stores opcode _ _ | calls opcode _ _ =>
    rcases opcode with hopcode | hopcode
    · simp [hopcode]
    · simp [hopcode]
  | gives produces _ | invents produces _ _ _ | allocates produces _ _ _ =>
    have hret := ne_of_mem_producers produces .ret (by decide)
    have hbranch := ne_of_mem_producers produces .branchIf (by decide)
    simp [hret, hbranch]

theorem target_of_pathCondition (h : Form registry inst s d)
    (hpath : d.pathCondition.isSome = true) :
    ∃ onTrue onFalse, inst.branchTargets? = some (onTrue, onFalse) ∧
      (d.nextLabel = some onTrue ∨ d.nextLabel = some onFalse) := by
  cases h with
  | @branches onTrue onFalse _ _ _ taken _ targets =>
    refine ⟨onTrue, onFalse, targets, ?_⟩
    cases taken with
    | true => exact .inl rfl
    | false => exact .inr rfl
  | _ => contradiction

theorem result_xor_push (h : Form registry inst s d) (hproduces : inst.opcode ∈ Opcode.producers)
    {reg : String} (hreg : inst.result = some reg) :
    Xor (reg ∈ d.registerWrites.keys)
      (∃ push, d.callPush = some push ∧ push.isConstructor = false) := by
  cases h with
  | gives | invents | captures | allocates =>
    exact .inl ⟨mem_keys_resultWrites.mpr hreg, by simp⟩
  | constructs => exact .inl ⟨mem_keys_resultWrites.mpr hreg, by simp⟩
  | calls => exact .inr ⟨⟨_, rfl, rfl⟩, List.not_mem_nil⟩
  | idles opcode | jumps opcode | branches opcode _ _ _ _ | returns opcode _ | assigns opcode _ =>
    rw [opcode] at hproduces
    exact absurd hproduces (by decide)
  | stores opcode _ _ =>
    rcases opcode with hopcode | hopcode
    · rw [hopcode] at hproduces
      exact absurd hproduces (by decide)
    · rw [hopcode] at hproduces
      exact absurd hproduces (by decide)

end Form

/-- **Every decision is confined.** -/
theorem decide_confined (h : decide registry inst s = .ok d) : Confined inst s d := by
  have hform := decide_form h
  obtain ⟨hpops, hreturns, hassumes⟩ := hform.control_iff
  exact
    { registers := fun reg hreg => hform.result_of_registerWrites hreg
      vars := hform.store_or_call
      heap := fun w hw => hform.address_of_heapWrites hw
      allocations := by
        rcases hform.allocations_eq with hnone | ⟨kind, hone⟩
        · simp [hnone]
        · simp [hone]
      identifiers := hform.exists_kind
      calls := hform.of_callPush
      closure := hform.of_newClosure
      pops := hpops
      returns := hreturns
      assumes := hassumes
      branches := fun hopcode => hform.target_of_pathCondition (hassumes.mpr hopcode)
      results := fun hproduces reg hreg => hform.result_xor_push hproduces hreg }

/-- A class whose constructor takes one argument. -/
def pointRegistry : Registry where
  parameters := Dict.empty.insert "func_init_0" ["self", "x"]
  methods := Dict.empty.insert "Point" (Dict.empty.insert "__init__" "func_init_0")

/-- Makes an object of the class. -/
def makePoint : Instruction where
  opcode := .callFunction
  operands := [.text "Point", .int 3]
  result := some "%1"

/-- A state in which four identifiers are taken. -/
def pointState : State where
  frames := [{ function := mainFrameName
               locals := Dict.empty.insert "Point" (.str "<class:Point@class_Point_0>") }]
  counter := 4

/-- A call of a constructor fills five parts of its delta, and it is confined. -/
theorem makePoint_confined :
    ∃ d, decide pointRegistry makePoint pointState = .ok d ∧
      d.registerWrites.keys = ["%1"] ∧ d.varWrites.keys = ["self", "x"] ∧
      d.allocations = ["obj_4"] ∧ d.nextLabel = some "func_init_0" ∧
      d.callPush.map (·.isConstructor) = some true ∧ Confined makePoint pointState d := by
  have hview : (decide pointRegistry makePoint pointState).toOption.map (fun d =>
      (d.registerWrites.keys, d.varWrites.keys, d.allocations, d.nextLabel,
        d.callPush.map (·.isConstructor))) =
      some (["%1"], ["self", "x"], ["obj_4"], some "func_init_0", some true) := by
    decide +kernel
  obtain ⟨d, hd, hview⟩ := Option.map_eq_some_iff.mp hview
  obtain ⟨hregisters, hview⟩ := Prod.mk.inj hview
  obtain ⟨hvars, hview⟩ := Prod.mk.inj hview
  obtain ⟨hallocations, hview⟩ := Prod.mk.inj hview
  obtain ⟨hnext, hpush⟩ := Prod.mk.inj hview
  have hdecide := toOption_eq_some hd
  exact ⟨d, hdecide, hregisters, hvars, hallocations, hnext, hpush, decide_confined hdecide⟩

end SymbolicVM.Engine

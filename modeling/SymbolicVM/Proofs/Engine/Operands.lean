import SymbolicVM.Proofs.Machine.Values
import SymbolicVM.Proofs.Machine.Identifier
import SymbolicVM.Engine.Decide

/-!
# Reading operands

What is known when the engine has read an operand, one equivalence for each way of reading. The
proofs about decisions take a decision apart with these and never unfold the readers. Where a
decision reads one thing or another depending on the instruction, the choice is given a name here
and the decision is written with it.
-/

namespace SymbolicVM.Engine

variable {s : State} {inst : Instruction} {op : Operand}

theorem orRefuse_eq_ok {α : Type} {reason : Refusal} {x : Option α} {a : α} :
    orRefuse reason x = .ok a ↔ x = some a := by
  cases x with
  | none => simp [orRefuse]
  | some b => simp [orRefuse]

theorem operand_eq_ok {i : Nat} : operand inst i = .ok op ↔ inst.operand? i = some op :=
  orRefuse_eq_ok

theorem text_eq_ok {i : Nat} {name : String} : text inst i = .ok name ↔ inst.text? i = some name :=
  orRefuse_eq_ok

/-- A register gives its value in the current frame, anything else is a literal. -/
theorem resolve_eq_ok {v : Value} :
    resolve s op = .ok v ↔
      (∃ reg, op.register? = some reg ∧ s.register? reg = some v) ∨
        (op.register? = none ∧ v = op.literal) := by
  unfold resolve
  cases op.register? with
  | none =>
    simp only [Except.ok.injEq, reduceCtorEq, false_and, exists_false, true_and, false_or]
    exact eq_comm
  | some reg => simp [orRefuse_eq_ok]

theorem concrete_eq_ok {v : Value} :
    concrete s op = .ok v ↔ resolve s op = .ok v ∧ v.unknowns = [] := by
  unfold concrete
  rw [bind_eq_ok]
  constructor
  · rintro ⟨w, hw, h⟩
    split_ifs at h with hsym
    obtain rfl := Except.ok.inj h
    exact ⟨hw, (Value.containsSymbolic_eq_false_iff w).mp (by simpa using hsym)⟩
  · rintro ⟨hv, hfree⟩
    refine ⟨v, hv, ?_⟩
    rw [(Value.containsSymbolic_eq_false_iff v).mpr hfree]
    rfl

theorem heapObject_eq_ok {address : String} {obj : HeapObject} :
    heapObject s op = .ok (address, obj) ↔
      ∃ base, resolve s op = .ok base ∧ base.heapAddress? = some address ∧
        s.heap.get? address = some obj := by
  unfold heapObject
  simp only [bind_eq_ok, orRefuse_eq_ok]
  constructor
  · rintro ⟨base, hbase, a, ha, o, ho, h⟩
    obtain ⟨rfl, rfl⟩ := Prod.mk.inj (Except.ok.inj h)
    exact ⟨base, hbase, ha, ho⟩
  · rintro ⟨base, hbase, ha, ho⟩
    exact ⟨base, hbase, address, ha, obj, ho, rfl⟩

theorem fresh_eq_ok {kind : IdKind} {name : String} :
    fresh s kind = .ok name ↔ name = kind.name s.counter ∧ s.counter + 1 < counterBound := by
  unfold fresh State.fresh nextNumber
  split_ifs with hroom
  · simp only [Except.map, Except.ok.injEq, hroom, and_true]
    exact eq_comm
  · simp [Except.map, hroom]

/-! ### Where read values come from -/

theorem mem_or_isScalar_of_resolve {v : Value} (h : resolve s op = .ok v) :
    v ∈ s.values ∨ v.isScalar = true := by
  rcases resolve_eq_ok.mp h with ⟨reg, -, hreg⟩ | ⟨-, rfl⟩
  · exact .inl (State.mem_values_of_register? hreg)
  · exact .inr op.isScalar_literal

theorem mem_or_isScalar_of_resolveAll {ops : List Operand} {vs : List Value}
    (h : resolveAll s ops = .ok vs) : ∀ v ∈ vs, v ∈ s.values ∨ v.isScalar = true := by
  unfold resolveAll at h
  induction ops generalizing vs with
  | nil =>
    obtain rfl := Except.ok.inj h
    simp
  | cons op ops ih =>
    rw [List.mapM_cons] at h
    obtain ⟨w, hw, h⟩ := bind_eq_ok.mp h
    obtain ⟨ws, hws, h⟩ := bind_eq_ok.mp h
    obtain rfl := Except.ok.inj h
    intro v hv
    rcases List.mem_cons.mp hv with rfl | hv
    · exact mem_or_isScalar_of_resolve hw
    · exact ih hws v hv

/-- What an index selects is a part of the value that is indexed, or a text. -/
theorem built_of_indexValue? {given : Value → Prop} {base v : Value} (hbase : base.Built given)
    (h : indexValue? s base op = .ok (some v)) : v.Built given := by
  unfold indexValue? at h
  split at h
  · rename_i items
    obtain ⟨k, -, h⟩ := bind_eq_ok.mp h
    obtain ⟨i, -, h⟩ := bind_eq_ok.mp h
    obtain ⟨n, -, h⟩ := bind_eq_ok.mp h
    exact .item hbase (List.mem_of_getElem? (Except.ok.inj h))
  · split_ifs at h
    · simp at h
    · obtain ⟨k, -, h⟩ := bind_eq_ok.mp h
      obtain ⟨i, -, h⟩ := bind_eq_ok.mp h
      obtain ⟨n, -, h⟩ := bind_eq_ok.mp h
      obtain ⟨c, -, rfl⟩ := Option.map_eq_some_iff.mp (Except.ok.inj h)
      exact .scalar rfl
  · rename_i entries
    obtain ⟨w, -, h⟩ := bind_eq_ok.mp h
    obtain ⟨k, -, h⟩ := bind_eq_ok.mp h
    obtain ⟨u, hu, h⟩ := bind_eq_ok.mp h
    obtain rfl := Option.some.inj (Except.ok.inj h)
    exact .entry hbase (Entries.mem_of_get? (orRefuse_eq_ok.mp hu))
  · simp at h

/-! ### Readings that depend on the instruction -/

/-- The size that `NEW_ARRAY` gives, if it gives one. -/
def arraySize? (inst : Instruction) (s : State) : Step (Option Value) :=
  match inst.operand? 1 with
  | some op => (resolve s op).map some
  | none => .ok none

/-- The field that a load reads, for the key that it gives. -/
def loadedField (inst : Instruction) (obj : HeapObject) (key : String) : Step String :=
  if inst.opcode = .loadIndex then elementKey obj key else .ok key

/-- What a load selects from its base without looking at the heap. -/
def loadedPart? (inst : Instruction) (s : State) (base : Value) (key : Operand) :
    Step (Option Value) :=
  if inst.opcode = .loadIndex then indexValue? s base key else .ok none

/-- Loading a field of an object: its value, or a new unknown that the object remembers. -/
def loadField (inst : Instruction) (s : State) (address : String) (obj : HeapObject)
    (field : String) (supply : Supply := fresh s) : Step Delta :=
  let place := address ++ "[" ++ field ++ "]"
  match obj.fields.get? field with
  | some v => .ok ({ reasoning := "load " ++ place : Delta }.produce inst v)
  | none => do
    let sym ← supply .symbol
    let v := Value.symbolic { name := sym, constraints := [place] }
    return ({ reasoning := "undefined " ++ place ++ " -> symbolic " ++ sym : Delta }.writeHeap
      address field v).produce inst v

theorem decideNewArray_eq {supply : Supply} :
    decideNewArray inst s supply = (do
      let size ← arraySize? inst s
      let address ← supply .array
      let d := { reasoning := "new array " ++ address : Delta }.allocate address
        ((inst.operand? 0).map Operand.render)
      return (match size with
        | some (.int n) => d.writeHeap address "length" (.int n)
        | _ => d).produce inst (.str address)) := by
  unfold decideNewArray arraySize?
  cases inst.operand? 1 with
  | none => rfl
  | some op => rfl

theorem loadFromHeap_eq {base key : Operand} {supply : Supply} :
    loadFromHeap inst s base key supply = (do
      let (address, obj) ← heapObject s base
      let name ← memberKey s inst.opcode key
      let field ← loadedField inst obj name
      loadField inst s address obj field supply) := by
  unfold loadFromHeap loadedField
  split_ifs
  · rfl
  · rfl

theorem decideLoad_eq {supply : Supply} :
    decideLoad inst s supply = (do
      let baseOperand ← operand inst 0
      let base ← resolve s baseOperand
      let key ← operand inst 1
      match ← loadedPart? inst s base key with
      | some v => return { reasoning := "index into value" : Delta }.produce inst v
      | none => loadFromHeap inst s baseOperand key supply) := by
  unfold decideLoad loadedPart?
  split_ifs
  · rfl
  · rfl

end SymbolicVM.Engine

import SymbolicVM.Proofs.Engine.Overflow

/-!
# The field that a load reads

A load reads one field of one object, or it reads no object at all because its base is a value that
can be indexed by itself. `Engine.Reads` says which field it is; a load that reads a field is
decided by what the field holds (`Engine.decideLoad_of_reads`). For an index the field depends on
the object: a negative one counts from the end of an array of known length
(`Engine.elementKey_eq_ok_self_iff`).

When a field is written, a load that reads it finds the new value
(`Engine.decideLoad_writeField_of_reads`), and a load that does not read it is decided as before
(`Engine.decideLoad_writeField`).
-/

namespace SymbolicVM

/-- The object with another value of a field. -/
def HeapObject.write (obj : HeapObject) (field : String) (v : Value) : HeapObject :=
  { obj with fields := obj.fields.insert field v }

namespace State

variable {s : State} {address : String} {obj : HeapObject}

/-- Writing to an object that is there changes that object alone. -/
theorem get?_heap_writeField (hlive : s.heap.get? address = some obj) (field : String) (v : Value)
    (other : String) :
    (s.writeField ⟨address, field, v⟩).heap.get? other =
      if other = address then some (obj.write field v) else s.heap.get? other := by
  unfold writeField
  rw [hlive, Dict.get?_insert]
  by_cases hother : other = address
  · rw [if_pos hother, if_pos hother.symm]
    rfl
  · rw [if_neg hother, if_neg (Ne.symm hother)]

theorem contains_heap_writeField (hlive : s.heap.get? address = some obj) (field : String)
    (v : Value) (other : String) :
    (s.writeField ⟨address, field, v⟩).heap.contains other = s.heap.contains other := by
  unfold Dict.contains
  rw [get?_heap_writeField hlive]
  split_ifs with hother
  · rw [hother, hlive]
    rfl
  · rfl

end State

namespace Engine

variable {load : Instruction} {s : State} {address field key : String} {base : Value}
  {obj : HeapObject}

/-! ### Where a key leads -/

theorem elementKey_eq (obj : HeapObject) (key : String) :
    elementKey obj key = (elementSum? obj key).elim (.ok key) fun sum =>
      if -0x8000000000000000 ≤ sum then .ok (toString sum) else .error .overflow := by
  unfold elementKey elementSum?
  cases Text.int64? key.toList with
  | none => rfl
  | some i =>
    cases obj.fields.get? "length" with
    | none => simp
    | some v =>
      cases v with
      | int len =>
        dsimp only
        split_ifs with hneg
        · have hlen := Words.bounds len
          by_cases hsmall : -0x8000000000000000 ≤ len.toInt + i.toInt
          · have hrange : -0x8000000000000000 ≤ len.toInt + i.toInt ∧
                len.toInt + i.toInt < 0x8000000000000000 := ⟨hsmall, by omega⟩
            rw [Words.word?_eq hrange, Option.elim_some, if_pos hsmall]
            show Except.ok (toString (Int64.ofInt (len.toInt + i.toInt)).toInt) = _
            rw [Words.toInt_ofInt hrange]
          · have hnone : Text.word? (len.toInt + i.toInt) = none := if_neg (by omega)
            rw [hnone, Option.elim_some, if_neg hsmall]
        · rfl
      | _ => simp

theorem exists_int64?_of_elementSum? {sum : Int} (h : elementSum? obj key = some sum) :
    ∃ i, Text.int64? key.toList = some i := by
  unfold elementSum? at h
  cases hi : Text.int64? key.toList with
  | none =>
    rw [hi] at h
    contradiction
  | some i => exact ⟨i, rfl⟩

/-- A key stands for itself unless it counts from the end of an array and so leads to another. -/
theorem elementKey_eq_ok_self_iff :
    elementKey obj key = .ok key ↔ ∀ sum, elementSum? obj key = some sum → toString sum = key := by
  rw [elementKey_eq]
  cases hsum : elementSum? obj key with
  | none => simp
  | some sum =>
    rw [Option.elim_some]
    constructor
    · intro h sum' hsum'
      obtain rfl := Option.some.inj hsum'
      split_ifs at h
      exact Except.ok.inj h
    · intro h
      -- the key is a word and the numeral of the sum, so the sum is a word, too
      have hkey := h sum rfl
      obtain ⟨i, hi⟩ := exists_int64?_of_elementSum? hsum
      rw [← hkey, Text.int64?, Text.int?_toString, Option.bind_some] at hi
      have hrange := Text.word?_isSome_iff.mp (Option.isSome_of_mem hi)
      rw [if_pos hrange.1, hkey]

/-- Only the length of an object decides where a key leads, and it does so for numbers only. -/
theorem elementSum?_write (h : field = "length" → Text.int64? key.toList = none) (v : Value) :
    elementSum? (obj.write field v) key = elementSum? obj key := by
  unfold elementSum?
  cases hi : Text.int64? key.toList with
  | none => rfl
  | some i =>
    have hfield : field ≠ "length" := by
      intro heq
      rw [h heq] at hi
      contradiction
    have hlength : (obj.write field v).fields.get? "length" = obj.fields.get? "length" :=
      Dict.get?_insert_of_ne _ _ hfield
    rw [hlength]

theorem loadedField_write (h : field = "length" → Text.int64? key.toList = none) (v : Value) :
    loadedField load (obj.write field v) key = loadedField load obj key := by
  unfold loadedField
  rw [elementKey_eq, elementKey_eq, elementSum?_write h]

theorem int64?_length : Text.int64? "length".toList = none := by
  decide

/-- Writing the field that a key leads to does not change where it leads. -/
theorem loadedField_write_self (h : loadedField load obj key = .ok field) (v : Value) :
    loadedField load (obj.write field v) key = .ok field := by
  rw [loadedField_write _ v, h]
  -- a number leads to a number, which is not the name of the length
  rintro rfl
  unfold loadedField at h
  split_ifs at h with hopcode
  · rw [elementKey_eq] at h
    cases hsum : elementSum? obj key with
    | none =>
      rw [hsum] at h
      rw [Except.ok.inj h]
      exact int64?_length
    | some sum =>
      rw [hsum, Option.elim_some] at h
      split_ifs at h
      have hread := Text.int?_toString sum
      rw [Except.ok.inj h] at hread
      contradiction
  · rw [Except.ok.inj h]
    exact int64?_length

/-! ### Which field a load reads -/

/-- The base of an instruction, which is the value of its first operand, and its key, which its
second operand spells. -/
structure Accesses (inst : Instruction) (s : State) (base : Value) (key : String) : Prop where
  base : ∃ op, inst.operand? 0 = some op ∧ resolve s op = .ok base
  key : ∃ op, inst.operand? 1 = some op ∧ memberKey s inst.opcode op = .ok key

/-- An instruction has one base and one key. -/
theorem Accesses.unique {inst : Instruction} {base' : Value} {key' : String}
    (h : Accesses inst s base key) (h' : Accesses inst s base' key') :
    base' = base ∧ key' = key := by
  obtain ⟨⟨op, hop, hbase⟩, index, hindex, hkey⟩ := h
  obtain ⟨⟨op', hop', hbase'⟩, index', hindex', hkey'⟩ := h'
  obtain rfl := Option.some.inj (hop.symm.trans hop')
  obtain rfl := Option.some.inj (hindex.symm.trans hindex')
  exact ⟨Except.ok.inj (hbase'.symm.trans hbase), Except.ok.inj (hkey'.symm.trans hkey)⟩

/-- A load reads a field of the object at an address: its base refers to the object, and its key
leads to the field. A base that can be indexed by itself does not refer to an object. -/
def Reads (load : Instruction) (s : State) (address field : String) : Prop :=
  ∃ base key obj, Accesses load s base key ∧ base.heapAddress? = some address ∧
    (load.opcode = .loadIndex → base = .str address) ∧ s.heap.get? address = some obj ∧
    loadedField load obj key = .ok field

theorem decide_of_isLoad {registry : Registry}
    (h : load.opcode = .loadField ∨ load.opcode = .loadIndex) :
    decide registry load s = decideLoad load s := by
  unfold decide
  rcases h with h | h
  · rw [h]
  · rw [h]

theorem decideLoad_of_accesses (haccess : Accesses load s base key)
    (haddress : base.heapAddress? = some address)
    (hdirect : load.opcode = .loadIndex → base = .str address)
    (hlive : s.heap.get? address = some obj) :
    decideLoad load s =
      (loadedField load obj key >>= fun field => loadField load s address obj field) := by
  obtain ⟨⟨baseOperand, hbaseOperand, hbase⟩, index, hindex, hkey⟩ := haccess
  have hpart : loadedPart? load s base index = .ok none := by
    unfold loadedPart?
    split_ifs with hopcode
    · exact (indexValue?_eq_none index haddress hlive).mpr (hdirect hopcode)
    · rfl
  have hobject : heapObject s baseOperand = .ok (address, obj) :=
    heapObject_eq_ok.mpr ⟨base, hbase, haddress, hlive⟩
  rw [decideLoad_eq, operand_eq_ok.mpr hbaseOperand, ok_bind, hbase, ok_bind,
    operand_eq_ok.mpr hindex, ok_bind, hpart, ok_bind]
  dsimp only
  rw [loadFromHeap_eq, hobject, ok_bind]
  dsimp only
  rw [hkey, ok_bind]

/-- A load is decided by the field that it reads. -/
theorem decideLoad_of_reads (h : Reads load s address field) :
    ∃ obj, s.heap.get? address = some obj ∧
      decideLoad load s = loadField load s address obj field := by
  obtain ⟨base, key, obj, haccess, haddress, hdirect, hlive, hfield⟩ := h
  refine ⟨obj, hlive, ?_⟩
  rw [decideLoad_of_accesses haccess haddress hdirect hlive, hfield, ok_bind]

/-! ### Loads after a write -/

theorem loadField_of_get? {v : Value} (h : obj.fields.get? field = some v) :
    ∃ why, loadField load s address obj field =
      .ok ({ reasoning := why : Delta }.produce load v) := by
  unfold loadField
  dsimp only
  rw [h]
  exact ⟨_, rfl⟩

theorem Reads.writeField (h : Reads load s address field) (v : Value) (c : Nat) :
    Reads load ((s.writeField ⟨address, field, v⟩).withCounter c) address field := by
  obtain ⟨base, key, obj, haccess, haddress, hdirect, hlive, hfield⟩ := h
  refine ⟨base, key, obj.write field v, ⟨haccess.base, haccess.key⟩, haddress, hdirect, ?_,
    loadedField_write_self hfield v⟩
  rw [State.heap_withCounter, State.get?_heap_writeField hlive, if_pos rfl]

/-- A load that reads a field finds the value that was written last. -/
theorem decideLoad_writeField_of_reads (h : Reads load s address field) (v : Value) (c : Nat) :
    ∃ why, decideLoad load ((s.writeField ⟨address, field, v⟩).withCounter c) =
      .ok ({ reasoning := why : Delta }.produce load v) := by
  obtain ⟨base, key, obj, -, -, -, hlive, -⟩ := id h
  obtain ⟨obj', hlive', hdecide⟩ := decideLoad_of_reads (h.writeField v c)
  rw [State.heap_withCounter, State.get?_heap_writeField hlive, if_pos rfl] at hlive'
  obtain rfl := Option.some.inj hlive'
  rw [hdecide]
  exact loadField_of_get? (Dict.get?_insert_self _ _ _)

theorem loadedPart?_writeField (hlive : s.heap.get? address = some obj) (v : Value) (c : Nat)
    (index : Operand) :
    loadedPart? load ((s.writeField ⟨address, field, v⟩).withCounter c) base index =
      loadedPart? load (s.withCounter c) base index := by
  unfold loadedPart?
  split_ifs
  · cases base with
    | str text =>
      have hcontains := State.contains_heap_writeField hlive field v text
      unfold indexValue?
      dsimp only
      rw [State.heap_withCounter, State.heap_withCounter, hcontains]
      rfl
    | _ => rfl
  · rfl

/-- An operand that does not refer to the object that is written gives the same object as before. -/
theorem heapObject_writeField {op : Operand} (hlive : s.heap.get? address = some obj)
    (hop : ∀ base, resolve s op = .ok base → base.heapAddress? ≠ some address) (v : Value)
    (c : Nat) :
    heapObject ((s.writeField ⟨address, field, v⟩).withCounter c) op =
      heapObject (s.withCounter c) op := by
  unfold heapObject
  refine bind_congr_ok rfl fun base hbase => bind_congr_ok rfl fun other hother => ?_
  have hne : other ≠ address := by
    rintro rfl
    exact hop base hbase (orRefuse_eq_ok.mp hother)
  rw [State.heap_withCounter, State.get?_heap_writeField hlive, if_neg hne]
  rfl

/-- A load that does not read the field that is written is decided as before, if its key still leads
to the same field. -/
theorem decideLoad_writeField (hlive : s.heap.get? address = some obj)
    (hreads : ¬ Reads load s address field) (v : Value) (c : Nat)
    (hkey : ∀ base key, Accesses load s base key →
      loadedField load (obj.write field v) key = loadedField load obj key) :
    decideLoad load ((s.writeField ⟨address, field, v⟩).withCounter c) =
      decideLoad load (s.withCounter c) := by
  rw [decideLoad_eq, decideLoad_eq]
  refine bind_congr_ok rfl fun baseOperand hbaseOperand => bind_congr_ok rfl fun base hbase =>
    bind_congr_ok rfl fun index hindex =>
    bind_congr_ok (loadedPart?_writeField hlive v c index) fun part hpart => ?_
  cases part with
  | some u => rfl
  | none =>
    dsimp only
    rw [loadFromHeap_eq, loadFromHeap_eq]
    by_cases hreference : base.heapAddress? = some address
    · have hobject : heapObject (s.withCounter c) baseOperand = .ok (address, obj) :=
        heapObject_eq_ok.mpr ⟨base, hbase, hreference, hlive⟩
      have hobject' : heapObject ((s.writeField ⟨address, field, v⟩).withCounter c) baseOperand =
          .ok (address, obj.write field v) := by
        refine heapObject_eq_ok.mpr ⟨base, hbase, hreference, ?_⟩
        rw [State.heap_withCounter, State.get?_heap_writeField hlive, if_pos rfl]
      rw [hobject, hobject', ok_bind, ok_bind]
      dsimp only
      refine bind_congr_ok rfl fun key hname => ?_
      have haccess : Accesses load s base key :=
        ⟨⟨baseOperand, operand_eq_ok.mp hbaseOperand, hbase⟩, index, operand_eq_ok.mp hindex, hname⟩
      rw [hkey base key haccess]
      refine bind_congr_ok rfl fun other hother => ?_
      -- the load reads another field of the same object
      have hne : field ≠ other := by
        rintro rfl
        refine hreads ⟨base, key, obj, haccess, hreference, fun hopcode => ?_, hlive, hother⟩
        rw [loadedPart?, if_pos hopcode] at hpart
        exact (indexValue?_eq_none index hreference hlive).mp hpart
      have hvalue : (obj.write field v).fields.get? other = obj.fields.get? other :=
        Dict.get?_insert_of_ne _ _ hne
      unfold loadField
      rw [hvalue]
      rfl
    · have hsame : heapObject ((s.writeField ⟨address, field, v⟩).withCounter c) baseOperand =
          heapObject (s.withCounter c) baseOperand := by
        refine heapObject_writeField hlive (fun base' hbase' => ?_) v c
        obtain rfl := Except.ok.inj (hbase.symm.trans hbase')
        exact hreference
      rw [hsame]
      rfl

end Engine

end SymbolicVM

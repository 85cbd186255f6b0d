import SymbolicVM.Proofs.Engine.Loads

/-!
# Stored values are loaded again

A store that is decided writes one field of one object (`Engine.decideStore_eq_ok`). Then a load of
the same kind with the same base and the same key finds the stored value, except where the two do
not mean the same field (`Engine.load_after_store`): a load takes an element out of a base that is a
map, and it counts a negative index from the end of an array whose length is known, while a store
does neither (`Engine.FoundAgain`). Where they differ, the load does not notice the store. No other
field of any object is changed as far as loads by name can tell.
-/

namespace SymbolicVM

/-- The state after a delta that only writes a field. -/
theorem State.state_of_apply_writeHeap {s : State} {why address field : String} {v : Value}
    {applied : Applied}
    (h : s.apply ({ reasoning := why : Delta }.writeHeap address field v) = .ok applied) :
    applied.state = (s.writeField ⟨address, field, v⟩).withCounter applied.state.counter := by
  rw [apply_eq] at h
  obtain ⟨c, -, rfl⟩ := map_eq_ok.mp h
  rfl

namespace Engine

variable {registry : Registry} {store load other : Instruction} {s : State} {d : Delta}
  {base : Value} {address key : String} {obj : HeapObject} {w : Value}

/-! ### What a store does -/

/-- A store puts the value of its third operand into a field of an object: its base refers to the
object, and its key is the field as it stands. -/
structure Stores (store : Instruction) (s : State) (base : Value) (key address : String)
    (obj : HeapObject) (w : Value) : Prop where
  access : Accesses store s base key
  reference : base.heapAddress? = some address
  live : s.heap.get? address = some obj
  value : ∃ op, store.operand? 2 = some op ∧ resolve s op = .ok w

theorem decideStore_eq_ok (h : decideStore store s = .ok d) :
    ∃ base key address obj w, Stores store s base key address obj w ∧
      ∃ why, d = { reasoning := why : Delta }.writeHeap address key w := by
  obtain ⟨baseOperand, hbaseOperand, h⟩ := bind_eq_ok.mp h
  obtain ⟨⟨address, obj⟩, hobject, h⟩ := bind_eq_ok.mp h
  obtain ⟨index, hindex, h⟩ := bind_eq_ok.mp h
  obtain ⟨key, hkey, h⟩ := bind_eq_ok.mp h
  obtain ⟨operand, hoperand, h⟩ := bind_eq_ok.mp h
  obtain ⟨w, hw, h⟩ := bind_eq_ok.mp h
  obtain rfl := Except.ok.inj h
  obtain ⟨base, hbase, hreference, hlive⟩ := heapObject_eq_ok.mp hobject
  exact ⟨base, key, address, obj, w,
    ⟨⟨⟨baseOperand, operand_eq_ok.mp hbaseOperand, hbase⟩, index, operand_eq_ok.mp hindex, hkey⟩,
      hreference, hlive, operand, operand_eq_ok.mp hoperand, hw⟩, _, rfl⟩

/-! ### Loads of the same kind -/

/-- The load that reads what a store writes. -/
def Counterpart (store load : Opcode) : Prop :=
  (store = .storeField ∧ load = .loadField) ∨ (store = .storeIndex ∧ load = .loadIndex)

theorem Counterpart.decide_store (h : Counterpart store.opcode load.opcode) :
    decide registry store s = decideStore store s := by
  unfold decide
  rcases h with ⟨h, -⟩ | ⟨h, -⟩
  · rw [h]
  · rw [h]

theorem Counterpart.decide_load (h : Counterpart store.opcode load.opcode) :
    decide registry load s = decideLoad load s :=
  decide_of_isLoad (h.imp And.right And.right)

/-- The counterpart of a store with the same operands has the same base and the same key. -/
theorem Counterpart.accesses (h : Counterpart store.opcode load.opcode)
    (hbase : load.operand? 0 = store.operand? 0) (hkey : load.operand? 1 = store.operand? 1)
    (haccess : Accesses store s base key) : Accesses load s base key := by
  have hmember (op : Operand) : memberKey s load.opcode op = memberKey s store.opcode op := by
    rcases h with ⟨hstore, hload⟩ | ⟨hstore, hload⟩
    · rw [hstore, hload]
      rfl
    · rw [hstore, hload]
      rfl
  obtain ⟨⟨op, hop, hresolve⟩, index, hindex, hmemberKey⟩ := haccess
  exact ⟨⟨op, hbase.trans hop, hresolve⟩, index, hkey.trans hindex,
    (hmember index).trans hmemberKey⟩

/-- A load of the same kind means the field that was stored: always for a field with a name, and for
an index if the base is the address itself and the key does not count from the end of an array, or
counts to itself. -/
def FoundAgain (store : Instruction) (base : Value) (key address : String) (obj : HeapObject) :
    Prop :=
  store.opcode = .storeIndex →
    base = .str address ∧ ∀ sum, elementSum? obj key = some sum → toString sum = key

theorem Stores.reads_iff (hstores : Stores store s base key address obj w)
    (hkind : Counterpart store.opcode load.opcode) (haccess : Accesses load s base key) :
    Reads load s address key ↔ FoundAgain store base key address obj := by
  constructor
  · rintro ⟨base', key', obj', haccess', -, hdirect, hlive, hfield⟩ hopcode
    obtain ⟨rfl, rfl⟩ := haccess.unique haccess'
    obtain rfl := Option.some.inj (hstores.live.symm.trans hlive)
    have hindex : load.opcode = .loadIndex := by
      rcases hkind with ⟨hstore, -⟩ | ⟨-, hload⟩
      · rw [hstore] at hopcode
        contradiction
      · exact hload
    rw [loadedField, if_pos hindex] at hfield
    exact ⟨hdirect hindex, elementKey_eq_ok_self_iff.mp hfield⟩
  · intro hfound
    have hindex : load.opcode = .loadIndex → store.opcode = .storeIndex := by
      intro hload
      rcases hkind with ⟨-, hfield⟩ | ⟨hstore, -⟩
      · rw [hfield] at hload
        contradiction
      · exact hstore
    refine ⟨base, key, obj, haccess, hstores.reference, fun h => (hfound (hindex h)).1,
      hstores.live, ?_⟩
    unfold loadedField
    split_ifs with hload
    · exact elementKey_eq_ok_self_iff.mpr (hfound (hindex hload)).2
    · rfl

/-! ### The two together -/

/-- The load is decided, puts the value into its result register, and has no other effect. -/
def LoadsValue (registry : Registry) (load : Instruction) (s : State) (v : Value) : Prop :=
  ∃ why, decide registry load s = .ok ({ reasoning := why : Delta }.produce load v)

/-- **A stored value is loaded again**, by a load of the same kind with the same operands, where the
load means the field that was stored. Elsewhere the load does not notice the store, and no load by
name of another field does, either. Only the counter may have moved, if the value has unknowns with
high numbers. -/
theorem load_after_store {applied : State.Applied}
    (hkind : Counterpart store.opcode load.opcode)
    (hbase : load.operand? 0 = store.operand? 0) (hkey : load.operand? 1 = store.operand? 1)
    (hstore : decide registry store s = .ok d) (happly : s.apply d = .ok applied) :
    ∃ base key address obj w, Stores store s base key address obj w ∧
      (FoundAgain store base key address obj → LoadsValue registry load applied.state w) ∧
      (¬ FoundAgain store base key address obj →
        decide registry load applied.state =
          decide registry load (s.withCounter applied.state.counter)) ∧
      ∀ other : Instruction, other.opcode = .loadField →
        (∀ base', Accesses other s base' key → base'.heapAddress? ≠ some address) →
        decide registry other applied.state =
          decide registry other (s.withCounter applied.state.counter) := by
  rw [hkind.decide_store] at hstore
  obtain ⟨base, key, address, obj, w, hstores, why, rfl⟩ := decideStore_eq_ok hstore
  have haccess := hkind.accesses hbase hkey hstores.access
  have hstate := State.state_of_apply_writeHeap happly
  refine ⟨base, key, address, obj, w, hstores, fun hfound => ?_, fun hmissed => ?_,
    fun other hopcode hother => ?_⟩
  · obtain ⟨why', hload⟩ := decideLoad_writeField_of_reads
      ((hstores.reads_iff hkind haccess).mpr hfound) w applied.state.counter
    exact ⟨why', by rw [hkind.decide_load, hstate]; exact hload⟩
  · rw [hkind.decide_load, hkind.decide_load, hstate]
    refine decideLoad_writeField hstores.live
      (fun hreads => hmissed ((hstores.reads_iff hkind haccess).mp hreads)) w _ ?_
    -- the key that was stored is the load's own, and no number if it names the length
    intro base' key' haccess'
    obtain ⟨-, rfl⟩ := haccess.unique haccess'
    exact loadedField_write (fun hlength => hlength ▸ int64?_length) w
  · have hplain (obj : HeapObject) (key : String) : loadedField other obj key = .ok key := by
      unfold loadedField
      rw [hopcode]
      rfl
    rw [decide_of_isLoad (.inl hopcode), decide_of_isLoad (.inl hopcode), hstate]
    refine decideLoad_writeField hstores.live ?_ w _ fun _ key' _ => by rw [hplain, hplain]
    rintro ⟨base', key', obj', haccess', hreference, -, -, hfield⟩
    rw [hplain] at hfield
    obtain rfl := Except.ok.inj hfield
    exact hother base' haccess' hreference

/-! ### An array of known length -/

/-- An array of three elements that nobody wrote. -/
def blankArray : HeapObject where
  hint := some "int"
  fields := .ofList [("length", .int 3)]

/-- The array is in a register. -/
def blankArrayState : State where
  heap := .ofList [("arr_0", blankArray)]
  frames := [{ function := mainFrameName, registers := .ofList [("%0", .str "arr_0")] }]
  counter := 1

/-- Stores five at an index of the array. -/
def storeAt (index : Int64) : Instruction where
  opcode := .storeIndex
  operands := [.text "%0", .int index, .int 5]

/-- Loads the element at an index of the array. -/
def loadAt (index : Int64) : Instruction where
  opcode := .loadIndex
  operands := [.text "%0", .int index]
  result := some "%1"

/-- The second element is loaded as it was stored. -/
theorem loadAt_after_storeAt :
    ∃ d applied, decide {} (storeAt 1) blankArrayState = .ok d ∧
      blankArrayState.apply d = .ok applied ∧
      LoadsValue {} (loadAt 1) applied.state (.int 5) := by
  have hview : ((decide {} (storeAt 1) blankArrayState).toOption.bind fun d =>
      (blankArrayState.apply d).toOption).isSome = true := by
    decide +kernel
  obtain ⟨applied, happlied⟩ := Option.isSome_iff_exists.mp hview
  obtain ⟨d, hd, happlied⟩ := Option.bind_eq_some_iff.mp happlied
  have hstore := toOption_eq_some hd
  have happly := toOption_eq_some happlied
  have hkind : Counterpart (storeAt 1).opcode (loadAt 1).opcode := .inr ⟨rfl, rfl⟩
  obtain ⟨base, key, address, obj, w, hstores, hfound, -⟩ :=
    load_after_store hkind rfl rfl hstore happly
  -- what the store is made of can be read off the instruction and the state
  have hspelled : (memberKey blankArrayState .storeIndex (.int 1)).toOption = some "1" := by
    decide +kernel
  obtain ⟨⟨op, hop, hbase⟩, index, hindex, hkey⟩ := hstores.access
  obtain ⟨value, hvalue, hw⟩ := hstores.value
  obtain rfl : Operand.text "%0" = op := Option.some.inj hop
  obtain rfl : Operand.int 1 = index := Option.some.inj hindex
  obtain rfl : Operand.int 5 = value := Option.some.inj hvalue
  obtain rfl : Value.str "arr_0" = base := Except.ok.inj hbase
  obtain rfl : "arr_0" = address := Option.some.inj hstores.reference
  obtain rfl : blankArray = obj := Option.some.inj hstores.live
  obtain rfl : "1" = key := Except.ok.inj ((toOption_eq_some hspelled).symm.trans hkey)
  obtain rfl : Value.int 5 = w := Except.ok.inj hw
  refine ⟨d, applied, hstore, happly, hfound fun _ => ⟨rfl, fun sum hsum => ?_⟩⟩
  have hnone : elementSum? blankArray "1" = none := by
    decide +kernel
  rw [hnone] at hsum
  cases hsum

/-- The last element is stored under its index from the end, and looked for under its index from the
start: what is loaded is a new unknown, which the array remembers. -/
theorem loadAt_misses_storeAt :
    ∃ d applied d', decide {} (storeAt (-1)) blankArrayState = .ok d ∧
      blankArrayState.apply d = .ok applied ∧
      decide {} (loadAt (-1)) applied.state = .ok d' ∧
      d.heapWrites.map (·.field) = ["-1"] ∧ d'.heapWrites.map (·.field) = ["2"] ∧
      (d'.registerWrites.get? "%1").map Value.isSymbolic = some true ∧
      ¬ LoadsValue {} (loadAt (-1)) applied.state (.int 5) := by
  have hview : ((decide {} (storeAt (-1)) blankArrayState).toOption.bind fun d =>
      (blankArrayState.apply d).toOption.bind fun applied =>
        (decide {} (loadAt (-1)) applied.state).toOption.map fun d' =>
          (d.heapWrites.map (·.field), d'.heapWrites.map (·.field),
            (d'.registerWrites.get? "%1").map Value.isSymbolic)) =
      some (["-1"], ["2"], some true) := by
    decide +kernel
  obtain ⟨d, hd, hview⟩ := Option.bind_eq_some_iff.mp hview
  obtain ⟨applied, happlied, hview⟩ := Option.bind_eq_some_iff.mp hview
  obtain ⟨d', hd', hview⟩ := Option.map_eq_some_iff.mp hview
  obtain ⟨hstored, hview⟩ := Prod.mk.inj hview
  obtain ⟨hloaded, hsymbolic⟩ := Prod.mk.inj hview
  have hload := toOption_eq_some hd'
  refine ⟨d, applied, d', toOption_eq_some hd, toOption_eq_some happlied, hload, hstored, hloaded,
    hsymbolic, ?_⟩
  rintro ⟨why, hplain⟩
  obtain rfl := Except.ok.inj (hload.symm.trans hplain)
  cases hloaded

end Engine

end SymbolicVM

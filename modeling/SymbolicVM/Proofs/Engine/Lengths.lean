import SymbolicVM.Proofs.Engine.Footprint
import SymbolicVM.Proofs.Engine.Memoised

/-!
# Lengths

An object with an integer in its field `length` has this length, and an object without the field is
as long as it has fields. So the length changes with everything that adds fields, and two laws that
one would expect have exceptions.

A load that misses, because the field that it reads is not there, adds the field. Loads leave all
lengths as they are but for one: when a load misses, the object has one field more, and if no length
is recorded then its length is one more, too, or unknown if the missing field was the length
(`Engine.len_load_iff`).

A new array records its size if that is an integer. Then the size is its length; with a size of any
other kind, an unknown one included, its length is zero (`Engine.len_newArray`).
-/

namespace SymbolicVM

namespace Builtin

variable {heap heap' : Dict HeapObject} {v len : Value} {address : String} {obj obj' : HeapObject}

/-! ### The length of an object -/

theorem length?_of_get? (hv : v.heapAddress? = some address) (h : heap.get? address = some obj) :
    length? heap v = objectLength? obj := by
  unfold length?
  rw [hv, Option.bind_some, h]

/-- The length of a value depends on the object that it refers to and on nothing else of the
heap. -/
theorem length?_congr (h : v.heapAddress?.bind heap.get? = v.heapAddress?.bind heap'.get?) :
    length? heap v = length? heap' v := by
  unfold length?
  rw [h]

/-- Of the fields, only the recorded length and the number of fields count. -/
theorem objectLength?_congr (h : obj'.fields = obj.fields) :
    objectLength? obj' = objectLength? obj := by
  unfold objectLength?
  rw [h]

theorem objectLength?_of_none (h : obj.fields.get? "length" = none) :
    objectLength? obj = some (.int (Int64.ofNat obj.fields.size)) := by
  unfold objectLength?
  rw [h]

theorem objectLength?_of_int {n : Int64} (h : obj.fields.get? "length" = some (.int n)) :
    objectLength? obj = some (.int n) := by
  unfold objectLength?
  rw [h]

theorem objectLength?_of_symbolic {x : Symbolic}
    (h : obj.fields.get? "length" = some (.symbolic x)) : objectLength? obj = none := by
  unfold objectLength?
  rw [h]

/-- A field besides the recorded length does not change the length. -/
theorem objectLength?_write_of_some {field : String} (hfield : field ≠ "length")
    (h : obj.fields.get? "length" = some len) (u : Value) :
    objectLength? (obj.write field u) = objectLength? obj := by
  have hlength : (obj.write field u).fields.get? "length" = obj.fields.get? "length" :=
    Dict.get?_insert_of_ne _ _ hfield
  unfold objectLength?
  rw [hlength, h]
  cases len with
  | _ => rfl

/-- Where no length is recorded, a new unknown field adds one, and as the length itself it makes the
length unknown. -/
theorem objectLength?_write_of_none {field : String} (hlength : obj.fields.get? "length" = none)
    (hmissing : obj.fields.get? field = none) (x : Symbolic) :
    objectLength? (obj.write field (.symbolic x)) =
      if field = "length" then none else some (.int (Int64.ofNat (obj.fields.size + 1))) := by
  split_ifs with hfield
  · subst hfield
    exact objectLength?_of_symbolic (Dict.get?_insert_self _ _ _)
  · have hkept : (obj.write field (.symbolic x)).fields.get? "length" = none := by
      rw [← hlength]
      exact Dict.get?_insert_of_ne _ _ hfield
    have hsize : (obj.write field (.symbolic x)).fields.size = obj.fields.size + 1 :=
      Dict.size_insert_of_notMem (Dict.get?_eq_none_iff.mp hmissing) _
    rw [objectLength?_of_none hkept, hsize]

theorem ofNat_ne_succ (n : Nat) : Int64.ofNat (n + 1) ≠ Int64.ofNat n := by
  intro h
  rw [Int64.ofNat_add] at h
  exact absurd (Int64.left_eq_add.mp h.symm) (by decide)

end Builtin

namespace State

/-- A delta that announces nothing puts nothing at a free address that it does not write to. -/
theorem get?_heap_apply_of_none {s : State} {d : Delta} {applied : Applied} {address : String}
    (hfree : s.heap.get? address = none) (hnew : d.newObjects = [])
    (hwrites : ∀ w ∈ d.heapWrites, w.address ≠ address) (happly : s.apply d = .ok applied) :
    applied.state.heap.get? address = none := by
  rw [apply_eq] at happly
  obtain ⟨c, -, rfl⟩ := map_eq_ok.mp happly
  rw [heap_withCounter, Dict.get?_eq_none_iff, (grows_effect s d).heap, hnew, List.map_nil,
    List.nil_append]
  rintro (hold | hwritten)
  · exact Dict.get?_eq_none_iff.mp hfree hold
  · obtain ⟨w, hw, haddress⟩ := List.mem_map.mp hwritten
    exact hwrites w hw haddress

end State

namespace Engine

variable {registry : Registry} {load inst : Instruction} {s : State} {d : Delta}
  {applied : State.Applied} {address field : String} {obj : HeapObject} {v : Value}

/-! ### Loads that miss -/

/-- The field that a load reads is not there. -/
structure Misses (load : Instruction) (s : State) (address field : String) (obj : HeapObject) :
    Prop where
  reads : Reads load s address field
  live : s.heap.get? address = some obj
  missing : obj.fields.get? field = none

theorem loadField_of_none (hmissing : obj.fields.get? field = none)
    (h : loadField load s address obj field = .ok d) :
    d.newObjects = [] ∧ ∃ x, d.heapWrites = [⟨address, field, .symbolic x⟩] := by
  unfold loadField at h
  dsimp only at h
  rw [hmissing] at h
  obtain ⟨sym, -, h⟩ := bind_eq_ok.mp h
  obtain rfl := Except.ok.inj h
  rw [Delta.produce_eq rfl]
  exact ⟨rfl, _, rfl⟩

/-- A load that misses writes the field, with an unknown in it. -/
theorem Misses.heapWrites (h : Misses load s address field obj)
    (hdecide : decideLoad load s = .ok d) :
    ∃ x, d.heapWrites = [⟨address, field, .symbolic x⟩] := by
  obtain ⟨obj', hlive, heq⟩ := decideLoad_of_reads h.reads
  obtain rfl := Option.some.inj (h.live.symm.trans hlive)
  rw [heq] at hdecide
  exact (loadField_of_none h.missing hdecide).2

/-- A load creates nothing, and it writes nothing to the heap unless it misses. -/
theorem writes_or_misses (hdecide : decideLoad load s = .ok d) :
    d.newObjects = [] ∧
      (d.heapWrites = [] ∨ ∃ address field obj, Misses load s address field obj) := by
  rw [decideLoad_eq] at hdecide
  obtain ⟨baseOperand, hbaseOperand, hdecide⟩ := bind_eq_ok.mp hdecide
  obtain ⟨base, hbase, hdecide⟩ := bind_eq_ok.mp hdecide
  obtain ⟨index, hindex, hdecide⟩ := bind_eq_ok.mp hdecide
  obtain ⟨direct, hdirect, hdecide⟩ := bind_eq_ok.mp hdecide
  cases direct with
  | some u =>
    obtain rfl := Except.ok.inj hdecide
    rw [Delta.produce_eq rfl]
    exact ⟨rfl, .inl rfl⟩
  | none =>
    dsimp only at hdecide
    rw [loadFromHeap_eq] at hdecide
    obtain ⟨⟨address, obj⟩, hobject, hdecide⟩ := bind_eq_ok.mp hdecide
    obtain ⟨key, hkey, hdecide⟩ := bind_eq_ok.mp hdecide
    obtain ⟨field, hfield, hdecide⟩ := bind_eq_ok.mp hdecide
    obtain ⟨base', hbase', hreference, hlive⟩ := heapObject_eq_ok.mp hobject
    obtain rfl := Except.ok.inj (hbase.symm.trans hbase')
    cases hvalue : obj.fields.get? field with
    | some u =>
      obtain ⟨why, heq⟩ := loadField_of_get? hvalue
      obtain rfl := Except.ok.inj (heq.symm.trans hdecide)
      rw [Delta.produce_eq rfl]
      exact ⟨rfl, .inl rfl⟩
    | none =>
      have haccess : Accesses load s base key :=
        ⟨⟨baseOperand, operand_eq_ok.mp hbaseOperand, hbase⟩, index, operand_eq_ok.mp hindex, hkey⟩
      -- the base of an index is not indexed by itself, so it is the address
      have hitself : load.opcode = .loadIndex → base = .str address := by
        intro hopcode
        rw [loadedPart?, if_pos hopcode] at hdirect
        exact (indexValue?_eq_none index hreference hlive).mp hdirect
      exact ⟨(loadField_of_none hvalue hdecide).1, .inr ⟨address, field, obj,
        ⟨base, key, obj, haccess, hreference, hitself, hlive, hfield⟩, hlive, hvalue⟩⟩

theorem misses_of_mem_heapWrites {w : HeapWrite} (hdecide : decideLoad load s = .ok d)
    (hw : w ∈ d.heapWrites) : ∃ field obj, Misses load s w.address field obj := by
  rcases (writes_or_misses hdecide).2 with hnone | ⟨address, field, obj, hmisses⟩
  · rw [hnone] at hw
    exact absurd hw List.not_mem_nil
  · obtain ⟨x, hwrites⟩ := hmisses.heapWrites hdecide
    rw [hwrites] at hw
    rw [List.mem_singleton.mp hw]
    exact ⟨field, obj, hmisses⟩

/-- A load that misses adds the field to the object. -/
theorem Misses.fieldsAt (h : Misses load s address field obj)
    (hdecide : decideLoad load s = .ok d) (happly : s.apply d = .ok applied) :
    ∃ x, State.FieldsAt address (obj.write field (.symbolic x)).fields applied.state.heap := by
  obtain ⟨x, hwrites⟩ := h.heapWrites hdecide
  have hobject : State.FieldsAt address obj.fields s.heap := ⟨obj, h.live, rfl⟩
  have hafter := hobject.apply happly
  rw [hwrites] at hafter
  have hfields : fieldsAfter address obj.fields [⟨address, field, .symbolic x⟩] =
      (obj.write field (.symbolic x)).fields :=
    if_pos rfl
  exact ⟨x, hfields ▸ hafter⟩

/-! ### Loads and lengths -/

/-- A load adds a field to the object that a value refers to, which has no recorded length and so
many fields. -/
def Lengthens (load : Instruction) (s : State) (v : Value) (field : String) (size : Nat) : Prop :=
  ∃ address obj, v.heapAddress? = some address ∧ Misses load s address field obj ∧
    obj.fields.get? "length" = none ∧ obj.fields.size = size

theorem Lengthens.length?_eq {size : Nat} (h : Lengthens load s v field size)
    (hdecide : decideLoad load s = .ok d) (happly : s.apply d = .ok applied) :
    Builtin.length? s.heap v = some (.int (Int64.ofNat size)) ∧
      Builtin.length? applied.state.heap v =
        if field = "length" then none else some (.int (Int64.ofNat (size + 1))) := by
  obtain ⟨address, obj, hv, hmisses, hlength, rfl⟩ := h
  constructor
  · rw [Builtin.length?_of_get? hv hmisses.live, Builtin.objectLength?_of_none hlength]
  · obtain ⟨x, obj', hobj', hfields⟩ := hmisses.fieldsAt hdecide happly
    rw [Builtin.length?_of_get? hv hobj', Builtin.objectLength?_congr hfields,
      Builtin.objectLength?_write_of_none hlength hmisses.missing]

/-- Where no object without a recorded length gets a field, lengths stay. -/
theorem length?_load_of_not_lengthens (h : ∀ field size, ¬ Lengthens load s v field size)
    (hdecide : decideLoad load s = .ok d) (happly : s.apply d = .ok applied) :
    Builtin.length? applied.state.heap v = Builtin.length? s.heap v := by
  cases hv : v.heapAddress? with
  | none =>
    apply Builtin.length?_congr
    rw [hv, Option.bind_none, Option.bind_none]
  | some address =>
    cases hlive : s.heap.get? address with
    | none =>
      -- the load misses at live addresses only
      have hother : ∀ w ∈ d.heapWrites, w.address ≠ address := by
        rintro w hw rfl
        obtain ⟨field, obj, hmisses⟩ := misses_of_mem_heapWrites hdecide hw
        rw [hmisses.live] at hlive
        contradiction
      apply Builtin.length?_congr
      rw [hv, Option.bind_some, Option.bind_some, hlive,
        State.get?_heap_apply_of_none hlive (writes_or_misses hdecide).1 hother happly]
    | some obj =>
      rw [Builtin.length?_of_get? hv hlive]
      by_cases hmisses : ∃ field, Misses load s address field obj
      · obtain ⟨field, hmisses⟩ := hmisses
        obtain ⟨x, obj', hobj', hfields⟩ := hmisses.fieldsAt hdecide happly
        rw [Builtin.length?_of_get? hv hobj', Builtin.objectLength?_congr hfields]
        cases hlength : obj.fields.get? "length" with
        | none => exact absurd ⟨address, obj, hv, hmisses, hlength, rfl⟩ (h field obj.fields.size)
        | some len =>
          have hfield : field ≠ "length" := by
            rintro rfl
            rw [hmisses.missing] at hlength
            contradiction
          exact Builtin.objectLength?_write_of_some hfield hlength _
      · -- the load writes elsewhere or nowhere
        have hother : ∀ w ∈ d.heapWrites, w.address ≠ address := by
          rintro w hw rfl
          obtain ⟨field, obj', hmisses'⟩ := misses_of_mem_heapWrites hdecide hw
          obtain rfl := Option.some.inj (hlive.symm.trans hmisses'.live)
          exact hmisses ⟨field, hmisses'⟩
        have hobject : State.FieldsAt address obj.fields s.heap := ⟨obj, hlive, rfl⟩
        obtain ⟨obj', hobj', hfields⟩ := hobject.apply happly
        rw [fieldsAfter_of_ne hother] at hfields
        rw [Builtin.length?_of_get? hv hobj', Builtin.objectLength?_congr hfields]

/-- **When loads leave a length as it is.** After a load is decided and its delta applied, the
length of a value is what it was, or is declined as it was, if and only if the load adds no field to
an object without recorded length that the value refers to. If it does, then the length was the
number of fields, and it is one more or, if the field is the length, declined. -/
theorem len_load_iff (hload : load.opcode = .loadField ∨ load.opcode = .loadIndex)
    (hdecide : decide registry load s = .ok d) (happly : s.apply d = .ok applied) (v : Value) :
    (Builtin.value? applied.state.heap .len [v] = Builtin.value? s.heap .len [v] ↔
        ∀ field size, ¬ Lengthens load s v field size) ∧
      ∀ field size, Lengthens load s v field size →
        Builtin.value? s.heap .len [v] = some (.int (Int64.ofNat size)) ∧
        Builtin.value? applied.state.heap .len [v] =
          if field = "length" then none else some (.int (Int64.ofNat (size + 1))) := by
  rw [decide_of_isLoad hload] at hdecide
  refine ⟨⟨fun hsame field size hlengthens => ?_, fun h => ?_⟩, fun field size hlengthens =>
    hlengthens.length?_eq hdecide happly⟩
  · obtain ⟨hbefore, hafter⟩ := hlengthens.length?_eq hdecide happly
    have hsame' : Builtin.length? applied.state.heap v = Builtin.length? s.heap v := hsame
    rw [hbefore, hafter] at hsame'
    split_ifs at hsame' with hfield
    have hwords := Value.int.inj (Option.some.inj hsame')
    exact Builtin.ofNat_ne_succ size hwords
  · exact length?_load_of_not_lengthens h hdecide happly

/-- The last element of an array of length three is loaded for the first time: the array gets a
field, and its length is still three. -/
theorem len_loadAt_last :
    ∃ d applied, decide {} (loadAt (-1)) blankArrayState = .ok d ∧
      blankArrayState.apply d = .ok applied ∧ d.heapWrites.map (·.field) = ["2"] ∧
      Builtin.value? applied.state.heap .len [.str "arr_0"] =
        Builtin.value? blankArrayState.heap .len [.str "arr_0"] ∧
      Builtin.value? blankArrayState.heap .len [.str "arr_0"] = some (.int 3) := by
  have hview : ((decide {} (loadAt (-1)) blankArrayState).toOption.bind fun d =>
      (blankArrayState.apply d).toOption.map fun _ => d.heapWrites.map (·.field)) =
      some ["2"] := by
    decide +kernel
  obtain ⟨d, hd, hview⟩ := Option.bind_eq_some_iff.mp hview
  obtain ⟨applied, happlied, hfields⟩ := Option.map_eq_some_iff.mp hview
  have hdecide := toOption_eq_some hd
  have happly := toOption_eq_some happlied
  have hlength : blankArray.fields.get? "length" = some (.int 3) := rfl
  have hrecorded : ∀ field size, ¬ Lengthens (loadAt (-1)) blankArrayState (.str "arr_0") field
      size := by
    rintro field size ⟨address, obj, haddress, hmisses, hnone, -⟩
    obtain rfl : "arr_0" = address := Option.some.inj haddress
    obtain rfl : blankArray = obj := Option.some.inj hmisses.live
    rw [hlength] at hnone
    contradiction
  have hlen : Builtin.length? blankArrayState.heap (.str "arr_0") = some (.int 3) :=
    (Builtin.length?_of_get? rfl rfl).trans (Builtin.objectLength?_of_int hlength)
  exact ⟨d, applied, hdecide, happly, hfields,
    (len_load_iff (.inr rfl) hdecide happly (.str "arr_0")).1.mpr hrecorded, hlen⟩

/-- An object without fields is in a register. -/
def blankPointState : State where
  heap := .ofList [("obj_0", { hint := some "Point" })]
  frames := [{ function := mainFrameName, registers := .ofList [("%0", .str "obj_0")] }]
  counter := 1

/-- Loads a field of the object. -/
def loadX : Instruction where
  opcode := .loadField
  operands := [.text "%0", .text "x"]
  result := some "%1"

/-- The field of an object without fields is loaded, and the length of the object is one and no
longer zero. -/
theorem loadX_lengthens :
    ∃ d applied, decide {} loadX blankPointState = .ok d ∧
      blankPointState.apply d = .ok applied ∧
      Builtin.value? blankPointState.heap .len [.str "obj_0"] = some (.int 0) ∧
      Builtin.value? applied.state.heap .len [.str "obj_0"] = some (.int 1) := by
  have hview : ((decide {} loadX blankPointState).toOption.bind fun d =>
      (blankPointState.apply d).toOption).isSome = true := by
    decide +kernel
  obtain ⟨applied, happlied⟩ := Option.isSome_iff_exists.mp hview
  obtain ⟨d, hd, happlied⟩ := Option.bind_eq_some_iff.mp happlied
  have hdecide : decide {} loadX blankPointState = .ok d := toOption_eq_some hd
  have haccess : Accesses loadX blankPointState (.str "obj_0") "x" :=
    ⟨⟨.text "%0", rfl, rfl⟩, .text "x", rfl, rfl⟩
  have hmisses : Misses loadX blankPointState "obj_0" "x" { hint := some "Point" } :=
    ⟨⟨.str "obj_0", "x", _, haccess, rfl, fun _ => rfl, rfl, rfl⟩, rfl, rfl⟩
  have hlengthens : Lengthens loadX blankPointState (.str "obj_0") "x" 0 :=
    ⟨"obj_0", _, rfl, hmisses, rfl, rfl⟩
  obtain ⟨hbefore, hafter⟩ := hlengthens.length?_eq hdecide (toOption_eq_some happlied)
  exact ⟨d, applied, hdecide, toOption_eq_some happlied, hbefore, hafter⟩

/-! ### New arrays -/

/-- The length of a new array of this size. -/
def arrayLength : Value → Int64
  | .int n => n
  | _ => 0

/-- The length that an array has by the fields that are written for its size. -/
theorem objectLength?_of_lengthWrites {size : Value}
    (h : obj.fields = fieldsAfter address .empty (lengthWrites address (some size))) :
    Builtin.objectLength? obj = some (.int (arrayLength size)) := by
  cases size with
  | int n =>
    apply Builtin.objectLength?_of_int
    have hfields : fieldsAfter address .empty (lengthWrites address (some (.int n))) =
        Dict.empty.insert "length" (.int n) :=
      if_pos rfl
    rw [h, hfields]
    exact Dict.get?_insert_self _ _ _
  | _ =>
    have hnone : obj.fields.get? "length" = none := by
      rw [h]
      rfl
    rw [Builtin.objectLength?_of_none hnone, h]
    rfl

theorem decide_of_isNewArray (hopcode : inst.opcode = .newArray) :
    decide registry inst s = decideNewArray inst s := by
  unfold decide
  rw [hopcode]

/-- A new array at a free address has its size as length, or zero. -/
theorem length?_of_newArray {op : Operand} (hopcode : inst.opcode = .newArray)
    (hop : inst.operand? 1 = some op) (hfree : s.heap.get? (IdKind.array.name s.counter) = none)
    (hdecide : decide registry inst s = .ok d) (happly : s.apply d = .ok applied) :
    ∃ size hint, resolve s op = .ok size ∧
      d.newObjects = [⟨IdKind.array.name s.counter, hint⟩] ∧
      Builtin.length? applied.state.heap (.str (IdKind.array.name s.counter)) =
        some (.int (arrayLength size)) := by
  rw [decide_of_isNewArray hopcode] at hdecide
  obtain ⟨size?, why, hsize, -, rfl⟩ := decideNewArray_eq_ok hdecide
  rw [arraySize?, hop] at hsize
  obtain ⟨size, hresolve, rfl⟩ := map_eq_ok.mp hsize
  obtain ⟨obj, hobj, hfields⟩ := State.FieldsAt.apply_new rfl hfree happly
  refine ⟨size, _, hresolve, rfl, ?_⟩
  rw [Builtin.length?_of_get? rfl hobj]
  exact objectLength?_of_lengthWrites hfields

/-- **The length of a new array.** Let an array be made with a size in a state whose arrays are
numbered below the counter. Its length is the size if that is an integer, and zero otherwise. So the
length tells the size if and only if the size is an integer. -/
theorem len_newArray {op : Operand} (hopcode : inst.opcode = .newArray)
    (hop : inst.operand? 1 = some op)
    (hbelow : ∀ key ∈ s.heap.keys, ∀ n, IdKind.array.number? key = some n → n < s.counter)
    (hdecide : decide registry inst s = .ok d) (happly : s.apply d = .ok applied) :
    ∃ size address hint, resolve s op = .ok size ∧ d.newObjects = [⟨address, hint⟩] ∧
      Builtin.value? applied.state.heap .len [.str address] = some (.int (arrayLength size)) ∧
      ((∀ n, Builtin.value? applied.state.heap .len [.str address] = some (.int n) →
          size = .int n) ↔ ∃ n, size = .int n) := by
  have hfree : s.heap.get? (IdKind.array.name s.counter) = none := by
    rw [Dict.get?_eq_none_iff]
    intro hmem
    have hdecided := hdecide
    rw [decide_of_isNewArray hopcode] at hdecided
    obtain ⟨-, -, -, hroom, -⟩ := decideNewArray_eq_ok hdecided
    have hnumber := IdKind.number?_name .array (Nat.lt_of_succ_lt hroom)
    exact absurd (hbelow _ hmem _ hnumber) (Nat.lt_irrefl _)
  obtain ⟨size, hint, hresolve, hnew, hlen⟩ :=
    length?_of_newArray hopcode hop hfree hdecide happly
  refine ⟨size, _, hint, hresolve, hnew, hlen, fun h => ⟨_, h _ hlen⟩, ?_⟩
  rintro ⟨n, rfl⟩ m hm
  have hsame : n = m := Value.int.inj (Option.some.inj (hlen.symm.trans hm))
  rw [hsame]

/-- Makes an array of a size. -/
def makeArray (size : Operand) : Instruction where
  opcode := .newArray
  operands := [.text "int", size]
  result := some "%2"

/-- An array is made beside another one, and its length is its size. -/
theorem len_makeArray_four :
    ∃ d applied, decide {} (makeArray (.int 4)) blankArrayState = .ok d ∧
      blankArrayState.apply d = .ok applied ∧ d.newObjects.map (·.address) = ["arr_1"] ∧
      Builtin.value? applied.state.heap .len [.str "arr_1"] = some (.int 4) := by
  have hview : ((decide {} (makeArray (.int 4)) blankArrayState).toOption.bind fun d =>
      (blankArrayState.apply d).toOption.map fun _ => d.newObjects.map (·.address)) =
      some ["arr_1"] := by
    decide +kernel
  obtain ⟨d, hd, hview⟩ := Option.bind_eq_some_iff.mp hview
  obtain ⟨applied, happlied, haddresses⟩ := Option.map_eq_some_iff.mp hview
  have hdecide := toOption_eq_some hd
  have happly := toOption_eq_some happlied
  have hnumber : IdKind.array.number? "arr_0" = some 0 := by
    decide +kernel
  have hbelow : ∀ key ∈ blankArrayState.heap.keys, ∀ n, IdKind.array.number? key = some n →
      n < blankArrayState.counter := by
    intro key hkey n hn
    obtain rfl : key = "arr_0" := List.mem_singleton.mp hkey
    obtain rfl : 0 = n := Option.some.inj (hnumber.symm.trans hn)
    exact Nat.zero_lt_one
  obtain ⟨size, address, hint, hresolve, hnew, hlen, -⟩ :=
    len_newArray rfl rfl hbelow hdecide happly
  obtain rfl : Value.int 4 = size := Except.ok.inj hresolve
  obtain rfl : address = "arr_1" := by
    rw [hnew] at haddresses
    exact (List.cons.inj haddresses).1
  exact ⟨d, applied, hdecide, happly, haddresses, hlen⟩

/-- An unknown is in a register. -/
def unknownSizeState : State where
  frames := [{ function := mainFrameName
               registers := .ofList [("%1", .symbolic { name := "sym_0" })] }]
  counter := 1

/-- The length of an array of unknown size is zero. -/
theorem len_makeArray_unknown :
    resolve unknownSizeState (.text "%1") = .ok (.symbolic { name := "sym_0" }) ∧
    ∃ d applied, decide {} (makeArray (.text "%1")) unknownSizeState = .ok d ∧
      unknownSizeState.apply d = .ok applied ∧ d.newObjects.map (·.address) = ["arr_1"] ∧
      Builtin.value? applied.state.heap .len [.str "arr_1"] = some (.int 0) := by
  have hview : ((decide {} (makeArray (.text "%1")) unknownSizeState).toOption.bind fun d =>
      (unknownSizeState.apply d).toOption.map fun _ => d.newObjects.map (·.address)) =
      some ["arr_1"] := by
    decide +kernel
  obtain ⟨d, hd, hview⟩ := Option.bind_eq_some_iff.mp hview
  obtain ⟨applied, happlied, haddresses⟩ := Option.map_eq_some_iff.mp hview
  have hdecide := toOption_eq_some hd
  have happly := toOption_eq_some happlied
  have hunknown : resolve unknownSizeState (.text "%1") = .ok (.symbolic { name := "sym_0" }) := rfl
  obtain ⟨size, hint, hresolve, hnew, hlen⟩ := length?_of_newArray rfl rfl rfl hdecide happly
  obtain rfl := Except.ok.inj (hunknown.symm.trans hresolve)
  have haddress : IdKind.array.name unknownSizeState.counter = "arr_1" := by
    rw [hnew] at haddresses
    exact (List.cons.inj haddresses).1
  rw [haddress] at hlen
  exact ⟨hunknown, d, applied, hdecide, happly, haddresses, hlen⟩

end Engine

end SymbolicVM

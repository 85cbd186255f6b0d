import SymbolicVM.Proofs.Engine.Words

/-!
# When the engine overflows

A decision fails for good when the number of an identifier or the sum of a length and an index
leaves its word. While there are numbers left it comes down to the sum: an index into an array of
known length counts from a length that the program chose, and a negative length and a negative
index may lie below the least word together. Every other operation, computed in words, stays inside
of its range (`decide_overflow_iff`).
-/

namespace SymbolicVM.Engine

variable {registry : Registry} {inst : Instruction} {s : State}

/-! ### Reading does not overflow -/

theorem avoids_orRefuse {α : Type} {reason : Refusal} {x : Option α} (h : reason ≠ .overflow) :
    Avoids .overflow (orRefuse reason x) := by
  cases x with
  | none => exact .error h
  | some a => exact .ok a

theorem avoids_operand (i : Nat) : Avoids .overflow (operand inst i) :=
  avoids_orRefuse (by simp)

theorem avoids_text (i : Nat) : Avoids .overflow (text inst i) :=
  avoids_orRefuse (by simp)

theorem avoids_resolve (op : Operand) : Avoids .overflow (resolve s op) := by
  unfold resolve
  split
  · exact avoids_orRefuse (by simp)
  · exact .ok _

theorem avoids_resolveAll (ops : List Operand) : Avoids .overflow (resolveAll s ops) :=
  .mapM fun op _ => avoids_resolve op

theorem avoids_concrete (op : Operand) : Avoids .overflow (concrete s op) := by
  refine .bind (avoids_resolve op) fun v => ?_
  split_ifs
  · exact .error (by simp)
  · exact .ok v

theorem avoids_heapObject (op : Operand) : Avoids .overflow (heapObject s op) :=
  .bind (avoids_resolve op) fun _ => .bind (avoids_orRefuse (by simp)) fun _ =>
    .bind (avoids_orRefuse (by simp)) fun _ => .ok _

theorem avoids_memberKey (opcode : Opcode) (op : Operand) :
    Avoids .overflow (memberKey s opcode op) := by
  unfold memberKey
  split
  · exact .ok _
  · exact .bind (avoids_concrete op) fun key => avoids_orRefuse (by simp)

theorem avoids_indexValue? (base : Value) (key : Operand) :
    Avoids .overflow (indexValue? s base key) := by
  unfold indexValue?
  split
  · exact .bind (avoids_concrete key) fun v => .bind (avoids_orRefuse (by simp)) fun i =>
      .bind (avoids_orRefuse (by simp)) fun n => .ok _
  · split_ifs
    · exact .ok none
    · exact .bind (avoids_concrete key) fun v => .bind (avoids_orRefuse (by simp)) fun i =>
        .bind (avoids_orRefuse (by simp)) fun n => .ok _
  · exact .bind (avoids_concrete key) fun v => .bind (avoids_orRefuse (by simp)) fun k =>
      .bind (avoids_orRefuse (by simp)) fun w => .ok _
  · exact .ok none

/-- There is a fresh identifier as long as its number has a successor. -/
theorem avoids_fresh (hcounter : s.counter + 1 < counterBound) (kind : IdKind) :
    Avoids .overflow (fresh s kind) := by
  rw [fresh_eq_ok.mpr ⟨rfl, hcounter⟩]
  exact .ok _

/-! ### Decisions that do not overflow -/

theorem avoids_decideStore : Avoids .overflow (decideStore inst s) :=
  .bind (avoids_operand 0) fun _ => .bind (avoids_heapObject _) fun _ =>
    .bind (avoids_operand 1) fun _ => .bind (avoids_memberKey _ _) fun _ =>
    .bind (avoids_operand 2) fun _ => .bind (avoids_resolve _) fun _ => .ok _

theorem avoids_decideBinop : Avoids .overflow (decideBinop inst s) :=
  .bind (avoids_text 0) fun _ => .bind (avoids_orRefuse (by simp)) fun _ =>
    .bind (avoids_operand 1) fun _ => .bind (avoids_concrete _) fun _ =>
    .bind (avoids_operand 2) fun _ => .bind (avoids_concrete _) fun _ =>
    .bind (avoids_orRefuse (by simp)) fun _ => .ok _

theorem avoids_decideUnop : Avoids .overflow (decideUnop inst s) :=
  .bind (avoids_text 0) fun _ => .bind (avoids_orRefuse (by simp)) fun _ =>
    .bind (avoids_operand 1) fun _ => .bind (avoids_concrete _) fun _ =>
    .bind (avoids_orRefuse (by simp)) fun _ => .ok _

theorem avoids_decideBranchIf : Avoids .overflow (decideBranchIf inst s) :=
  .bind (avoids_orRefuse (by simp)) fun _ => .bind (avoids_operand 0) fun _ =>
    .bind (avoids_resolve _) fun _ => .bind (avoids_orRefuse (by simp)) fun _ => .ok _

theorem avoids_decideReturn : Avoids .overflow (decideReturn inst s) := by
  unfold decideReturn
  split
  · exact .bind (avoids_resolve _) fun v => .ok _
  · exact .ok _

theorem avoids_decideSymbolic : Avoids .overflow (decideSymbolic inst s) :=
  .bind (avoids_text 0) fun _ => .bind (avoids_orRefuse (by simp)) fun _ =>
    .bind (avoids_orRefuse (by simp)) fun _ => .ok _

theorem avoids_dispatch (f : FunctionRef) (args : List Value) :
    Avoids .overflow (dispatch registry f args) :=
  .bind (avoids_orRefuse (by simp)) fun _ => .ok _

theorem avoids_decideCallMethod : Avoids .overflow (decideCallMethod registry inst s) := by
  refine .bind (avoids_operand 0) fun op => .bind (avoids_heapObject op) fun found =>
    .bind (avoids_text 1) fun method => .bind (avoids_resolveAll _) fun args => ?_
  split
  · exact avoids_dispatch _ _
  · exact .bind (avoids_orRefuse (by simp)) fun cls =>
      .bind (avoids_orRefuse (by simp)) fun label => avoids_dispatch _ _

section

variable (hcounter : s.counter + 1 < counterBound)
include hcounter

theorem avoids_decideConst : Avoids .overflow (decideConst inst s) := by
  refine .bind ?_ fun closed => .ok _
  unfold closeOver
  split
  · exact .ok _
  · split_ifs
    · exact .ok _
    · refine .bind ?_ fun env? => ?_
      · unfold closureFor
        split
        · split
          · exact .ok _
          · exact .bind (avoids_fresh hcounter .environment) fun id => .ok _
        · exact .ok none
      · split
        · exact .ok _
        · exact .ok _

theorem avoids_decideLoadVar : Avoids .overflow (decideLoadVar inst s) := by
  refine .bind (avoids_text 0) fun name => ?_
  split
  · exact .ok _
  · exact .bind (avoids_fresh hcounter .symbol) fun sym => .ok _

theorem avoids_decideNewArray : Avoids .overflow (decideNewArray inst s) := by
  rw [decideNewArray_eq]
  refine .bind ?_ fun size => .bind (avoids_fresh hcounter .array) fun address => .ok _
  unfold arraySize?
  split
  · exact .map (avoids_resolve _)
  · exact .ok none

theorem avoids_loadField (address : String) (obj : HeapObject) (field : String) :
    Avoids .overflow (loadField inst s address obj field) := by
  unfold loadField
  dsimp only
  split
  · exact .ok _
  · exact .bind (avoids_fresh hcounter .symbol) fun sym => .ok _

theorem avoids_decideLoad_of_ne (hopcode : inst.opcode ≠ .loadIndex) :
    Avoids .overflow (decideLoad inst s) := by
  have hpart (base : Value) (key : Operand) : Avoids .overflow (loadedPart? inst s base key) := by
    unfold loadedPart?
    rw [if_neg hopcode]
    exact .ok none
  have hfield (obj : HeapObject) (key : String) : Avoids .overflow (loadedField inst obj key) := by
    unfold loadedField
    rw [if_neg hopcode]
    exact .ok key
  rw [decideLoad_eq]
  refine .bind (avoids_operand 0) fun baseOperand => .bind (avoids_resolve _) fun base =>
    .bind (avoids_operand 1) fun key => .bind (hpart base key) fun part => ?_
  split
  · exact .ok _
  · rw [loadFromHeap_eq]
    exact .bind (avoids_heapObject _) fun found => .bind (avoids_memberKey _ _) fun name =>
      .bind (hfield _ _) fun field => avoids_loadField hcounter _ _ _

theorem avoids_construct (c : ClassRef) (args : List Value) :
    Avoids .overflow (construct registry c args inst s) := by
  refine .bind (avoids_fresh hcounter .object) fun address => ?_
  dsimp only
  split
  · exact .ok _
  · exact .ok _

theorem avoids_callBuiltin (name : String) (b : Builtin) (args : List Value) :
    Avoids .overflow (callBuiltin name b args inst s) := by
  unfold callBuiltin
  split_ifs
  · exact .error (by simp)
  · exact .bind (avoids_fresh hcounter .array) fun address => .ok _
  · exact .bind (avoids_orRefuse (by simp)) fun v => .ok _

theorem avoids_decideCallFunction :
    Avoids .overflow (decideCallFunction registry inst s) := by
  refine .bind (avoids_text 0) fun name => .bind (avoids_resolveAll _) fun args => ?_
  split
  · exact avoids_callBuiltin hcounter _ _ _
  · refine .bind (avoids_orRefuse (by simp)) fun target => ?_
    split
    · exact avoids_dispatch _ _
    · split
      · exact avoids_construct hcounter _ _
      · exact .error (by simp)

/-- Apart from an index into an array no decision overflows. -/
theorem avoids_decide_of_ne (hopcode : inst.opcode ≠ .loadIndex) :
    Avoids .overflow (decide registry inst s) := by
  unfold decide
  split
  case h_1 => exact .ok _
  case h_2 => exact avoids_decideConst hcounter
  case h_3 => exact avoids_decideLoadVar hcounter
  case h_4 =>
    exact .bind (avoids_text 0) fun name => .bind (avoids_operand 1) fun op =>
      .bind (avoids_resolve op) fun v => .ok _
  case h_5 => exact .bind (avoids_fresh hcounter .object) fun address => .ok _
  case h_6 => exact avoids_decideNewArray hcounter
  case h_7 => exact avoids_decideLoad_of_ne hcounter hopcode
  case h_8 => exact avoids_decideLoad_of_ne hcounter hopcode
  case h_9 => exact avoids_decideStore
  case h_10 => exact avoids_decideStore
  case h_11 => exact avoids_decideBinop
  case h_12 => exact avoids_decideUnop
  case h_13 => exact .ok _
  case h_14 => exact avoids_decideBranchIf
  case h_15 => exact avoids_decideCallFunction hcounter
  case h_16 => exact avoids_decideCallMethod
  case h_17 => exact avoids_decideReturn
  case h_18 => exact avoids_decideSymbolic
  case h_19 => exact .error (by simp)
  case h_20 => exact .error (by simp)

end

/-! ### Counting from the end of an array -/

/-- The sum that a negative index and the length of an array have as whole numbers. -/
def elementSum? (obj : HeapObject) (key : String) : Option Int :=
  match Text.int64? key.toList, obj.fields.get? "length" with
  | some i, some (.int len) => if i.toInt < 0 then some (len.toInt + i.toInt) else none
  | _, _ => none

/-- A length is at most the greatest word and the index is negative, so their sum can only be too
small. -/
theorem elementKey_overflow_iff {obj : HeapObject} {key : String} :
    elementKey obj key = .error .overflow ↔
      ∃ sum, elementSum? obj key = some sum ∧ sum < -0x8000000000000000 := by
  unfold elementKey elementSum?
  cases Text.int64? key.toList with
  | none => simp
  | some i =>
    cases obj.fields.get? "length" with
    | none => simp
    | some v =>
      cases v with
      | int len =>
        dsimp only
        split_ifs with hneg
        · have hlen := Words.bounds len
          by_cases hsmall : len.toInt + i.toInt < -0x8000000000000000
          · have hnone : Text.word? (len.toInt + i.toInt) = none := if_neg (by omega)
            rw [hnone]
            exact iff_of_true rfl ⟨_, rfl, hsmall⟩
          · rw [Words.word?_eq ⟨by omega, by omega⟩]
            refine iff_of_false (by simp) ?_
            rintro ⟨sum, hsum, hlt⟩
            exact hsmall (Option.some.inj hsum ▸ hlt)
        · simp
      | _ => simp

/-- The sum that an instruction forms when it indexes an array from its end: the base is the address
of an object whose length is known and the index reads as a negative number. -/
def countedBack? (inst : Instruction) (s : State) : Option Int :=
  if inst.opcode = .loadIndex then do
    let base ← inst.operand? 0
    let address ← (← (resolve s base).toOption).str?
    let obj ← s.heap.get? address
    let index ← inst.operand? 1
    let key ← (memberKey s inst.opcode index).toOption
    elementSum? obj key
  else none

theorem countedBack?_eq_some {sum : Int} :
    countedBack? inst s = some sum ↔
      inst.opcode = .loadIndex ∧ ∃ base address obj index key,
        inst.operand? 0 = some base ∧ resolve s base = .ok (.str address) ∧
        s.heap.get? address = some obj ∧ inst.operand? 1 = some index ∧
        memberKey s inst.opcode index = .ok key ∧ elementSum? obj key = some sum := by
  unfold countedBack?
  split_ifs with hopcode
  · simp only [Option.bind_eq_bind, Option.bind_eq_some_iff, toOption_eq_some_iff,
      Value.str?_eq_some]
    constructor
    · rintro ⟨base, hbase, v, hv, address, rfl, obj, hobj, index, hindex, key, hkey, hsum⟩
      exact ⟨hopcode, base, address, obj, index, key, hbase, hv, hobj, hindex, hkey, hsum⟩
    · rintro ⟨-, base, address, obj, index, key, hbase, hv, hobj, hindex, hkey, hsum⟩
      exact ⟨base, hbase, _, hv, address, rfl, obj, hobj, index, hindex, key, hkey, hsum⟩
  · simp [hopcode]

/-- Of the values that refer to a live object, an index goes past its address alone: in a map it
looks for an entry. -/
theorem indexValue?_eq_none {base : Value} {address : String} {obj : HeapObject} (key : Operand)
    (haddress : base.heapAddress? = some address) (hobj : s.heap.get? address = some obj) :
    indexValue? s base key = .ok none ↔ base = .str address := by
  cases base with
  | str text =>
    obtain rfl := Option.some.inj haddress
    have hcontains : s.heap.contains text = true := by
      unfold Dict.contains
      rw [hobj]
      rfl
    exact iff_of_true (if_pos hcontains) rfl
  | map entries =>
    refine iff_of_false (fun h => ?_) (by simp)
    obtain ⟨v, -, h⟩ := bind_eq_ok.mp h
    obtain ⟨k, -, h⟩ := bind_eq_ok.mp h
    obtain ⟨w, -, h⟩ := bind_eq_ok.mp h
    exact Option.some_ne_none w (Except.ok.inj h)
  | _ => contradiction

theorem decideLoad_overflow_iff (hcounter : s.counter + 1 < counterBound)
    (hopcode : inst.opcode = .loadIndex) :
    decideLoad inst s = .error .overflow ↔
      ∃ sum, countedBack? inst s = some sum ∧ sum < -0x8000000000000000 := by
  have hpart (base : Value) (key : Operand) :
      loadedPart? inst s base key = indexValue? s base key := if_pos hopcode
  have hfield (obj : HeapObject) (key : String) :
      loadedField inst obj key = elementKey obj key := if_pos hopcode
  rw [decideLoad_eq]
  constructor
  · -- all readings avoid the overflow, so it comes from the sum
    intro h
    obtain ⟨baseOperand, hbaseOperand, h⟩ := (avoids_operand 0).bind_eq_error_iff.mp h
    obtain ⟨base, hbase, h⟩ := (avoids_resolve baseOperand).bind_eq_error_iff.mp h
    obtain ⟨index, hindex, h⟩ := (avoids_operand 1).bind_eq_error_iff.mp h
    rw [hpart] at h
    obtain ⟨part, hnone, h⟩ := (avoids_indexValue? base index).bind_eq_error_iff.mp h
    cases part with
    | some v => exact absurd h (Avoids.ok _)
    | none =>
      dsimp only at h
      rw [loadFromHeap_eq] at h
      obtain ⟨⟨address, obj⟩, hobject, h⟩ :=
        (avoids_heapObject baseOperand).bind_eq_error_iff.mp h
      obtain ⟨key, hkey, h⟩ := (avoids_memberKey inst.opcode index).bind_eq_error_iff.mp h
      rw [hfield] at h
      rcases bind_eq_error.mp h with h | ⟨field, -, h⟩
      · obtain ⟨sum, hsum, hlt⟩ := elementKey_overflow_iff.mp h
        obtain ⟨base', hbase', haddress, hobj⟩ := heapObject_eq_ok.mp hobject
        obtain rfl := Except.ok.inj (hbase.symm.trans hbase')
        obtain rfl := (indexValue?_eq_none index haddress hobj).mp hnone
        exact ⟨sum, countedBack?_eq_some.mpr ⟨hopcode, baseOperand, address, obj, index, key,
          operand_eq_ok.mp hbaseOperand, hbase, hobj, operand_eq_ok.mp hindex, hkey, hsum⟩, hlt⟩
      · exact absurd h (avoids_loadField hcounter address obj field)
  · -- the base is an address, so the index reaches the array, and the sum is formed
    rintro ⟨sum, hcounted, hlt⟩
    obtain ⟨-, base, address, obj, index, key, hbase, hv, hobj, hindex, hkey, hsum⟩ :=
      countedBack?_eq_some.mp hcounted
    have hnone : indexValue? s (.str address) index = .ok none :=
      (indexValue?_eq_none index rfl hobj).mpr rfl
    have hobject : heapObject s base = .ok (address, obj) :=
      heapObject_eq_ok.mpr ⟨.str address, hv, rfl, hobj⟩
    have helement : elementKey obj key = .error .overflow :=
      elementKey_overflow_iff.mpr ⟨sum, hsum, hlt⟩
    have hheap : loadFromHeap inst s base index = .error .overflow := by
      rw [loadFromHeap_eq, hobject, ok_bind]
      dsimp only
      rw [hkey, ok_bind, hfield, helement]
      rfl
    rw [operand_eq_ok.mpr hbase, ok_bind, hv, ok_bind, operand_eq_ok.mpr hindex, ok_bind, hpart,
      hnone, ok_bind, hheap]

/-- **When the engine fails.** As long as identifiers can be numbered, deciding in words gives what
deciding on whole numbers does, literals are read without fault, and the one way to fail is to index
an array from its end where its length and the index have a sum below the least word. -/
theorem decide_overflow_iff (registry : Registry) (hcounter : s.counter + 1 < counterBound)
    (hfit : OperandsFit inst s) :
    decideInWords registry inst s = decide registry inst s ∧
      (∀ raw, Words.literal raw = .ok (Value.ofLiteral raw)) ∧
      (decideInWords registry inst s = .error .overflow ↔
        ∃ sum, countedBack? inst s = some sum ∧ sum < -0x8000000000000000) := by
  have hwords : decideInWords registry inst s = decide registry inst s := decideInWords_eq hfit
  refine ⟨hwords, Words.literal_eq, ?_⟩
  rw [hwords]
  by_cases hopcode : inst.opcode = .loadIndex
  · have hdecide : decide registry inst s = decideLoad inst s := by
      unfold decide
      rw [hopcode]
    rw [hdecide]
    exact decideLoad_overflow_iff hcounter hopcode
  · refine iff_of_false (avoids_decide_of_ne hcounter hopcode) ?_
    rintro ⟨sum, hcounted, -⟩
    exact hopcode (countedBack?_eq_some.mp hcounted).1

/-- A state with an array of length minus one, and its address in a register. -/
def belowEmptyState : State :=
  { heap := Dict.empty.insert "arr_0" { fields := Dict.empty.insert "length" (.int (-1)) }
    frames := [{ function := mainFrameName
                 registers := Dict.empty.insert "%0" (.str "arr_0") }]
    counter := 1 }

/-- Loads an item of the array. -/
def loadBelowEmpty (i : Int64) : Instruction :=
  { opcode := .loadIndex, result := some "%1", operands := [.text "%0", .int i] }

theorem operandsFit_loadBelowEmpty (i : Int64) :
    OperandsFit (loadBelowEmpty i) belowEmptyState := by
  have hregister : resolve belowEmptyState (.text "%0") = .ok (.str "arr_0") := by rfl
  intro op hop v hv
  rcases List.mem_cons.mp hop with rfl | hop
  · obtain rfl := Except.ok.inj (hregister.symm.trans hv)
    decide
  · obtain rfl := List.mem_singleton.mp hop
    obtain rfl := Except.ok.inj hv
    exact (by decide : 0 < 0x8000000000000000)

/-- The least sum that is a word: the engine decides. -/
theorem loadBelowEmpty_least :
    countedBack? (loadBelowEmpty (Int64.minValue + 1)) belowEmptyState =
        some (-0x8000000000000000) ∧
      decideInWords {} (loadBelowEmpty (Int64.minValue + 1)) belowEmptyState =
        decide {} (loadBelowEmpty (Int64.minValue + 1)) belowEmptyState ∧
      decideInWords {} (loadBelowEmpty (Int64.minValue + 1)) belowEmptyState ≠
        .error .overflow := by
  have hsum : countedBack? (loadBelowEmpty (Int64.minValue + 1)) belowEmptyState =
      some (-0x8000000000000000) := by
    decide +kernel
  obtain ⟨hsame, -, hiff⟩ :=
    decide_overflow_iff {} (by decide) (operandsFit_loadBelowEmpty (Int64.minValue + 1))
  refine ⟨hsum, hsame, fun hoverflow => ?_⟩
  obtain ⟨sum, hcounted, hlt⟩ := hiff.mp hoverflow
  rw [hsum] at hcounted
  obtain rfl := Option.some.inj hcounted
  exact absurd hlt (by decide)

/-- One less, and the engine fails, though there are identifiers left. -/
theorem loadBelowEmpty_overflow :
    belowEmptyState.counter + 1 < counterBound ∧
      countedBack? (loadBelowEmpty Int64.minValue) belowEmptyState =
        some (-0x8000000000000001) ∧
      decide {} (loadBelowEmpty Int64.minValue) belowEmptyState = .error .overflow := by
  have hsum : countedBack? (loadBelowEmpty Int64.minValue) belowEmptyState =
      some (-0x8000000000000001) := by
    decide +kernel
  have hcounter : belowEmptyState.counter + 1 < counterBound := by decide
  exact ⟨hcounter, hsum, (decideLoad_overflow_iff hcounter rfl).mpr ⟨_, hsum, by decide⟩⟩

end SymbolicVM.Engine

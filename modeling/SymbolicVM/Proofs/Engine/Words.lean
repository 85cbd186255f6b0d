import SymbolicVM.Proofs.Engine.Operands
import SymbolicVM.Proofs.Operator.Evaluation

/-!
# Deciding in machine words

The engine computes with plain operations where it counts from the end of a sequence, takes an item
of it, passes over the first operands of a call, evaluates an operator and numbers an identifier.
`decideInWords` is the engine with these operations as a machine has them: outside their range they
do not have another result, they fail. It decides as the engine does on whole numbers
(`decideInWords_eq`).
-/

namespace SymbolicVM.Engine

variable {registry : Registry} {inst : Instruction} {s : State}

/-- A plain operation of the engine. -/
def plain {α : Type} : Except Overflow α → Step α
  | .ok a => .ok a
  | .error .overflow => .error .overflow

theorem plain_ok {α : Type} (a : α) : plain (.ok a) = .ok a := rfl

theorem orRefuse_some {α : Type} (reason : Refusal) (a : α) : orRefuse reason (some a) = .ok a :=
  rfl

/-! ### Items of a sequence -/

/-- The position that an index means in a sequence; the length counts as a word. -/
def positionInWords (length : Nat) (index : Int64) : Except Overflow (Option Nat) := do
  let i ← if index.toInt < 0 then Words.add index (Int64.ofNat length) else .ok index
  return if 0 ≤ i.toInt ∧ i.toInt < length then some i.toInt.toNat else none

/-- The item of a sequence that an index means. -/
def itemInWords {α : Type} (items : List α) (index : Int64) (outOfRange : Refusal) : Step α := do
  let n ← orRefuse outOfRange (← plain (positionInWords items.length index))
  plain (Words.get items n)

/-- A length and a negative index have a sum between them, which is a word. -/
theorem positionInWords_eq {length : Nat} (h : length < 0x8000000000000000) (index : Int64) :
    positionInWords length index = .ok (position? length index) := by
  have hlength : (Int64.ofNat length).toInt = length := Int64.toInt_ofNat_of_lt h
  have hindex := Words.bounds index
  unfold positionInWords position?
  by_cases hneg : index.toInt < 0
  · have hsum : -0x8000000000000000 ≤ index.toInt + length ∧
        index.toInt + length < 0x8000000000000000 := by
      omega
    rw [if_pos hneg, if_pos hneg, Words.add, hlength, Words.ofInt_eq hsum, ok_bind]
    dsimp only
    rw [Words.toInt_ofInt hsum]
    rfl
  · rw [if_neg hneg, if_neg hneg]
    rfl

theorem lt_of_position? {length n : Nat} {index : Int64} (h : position? length index = some n) :
    n < length := by
  unfold position? at h
  dsimp only at h
  split_ifs at h
  · have hn := Option.some.inj h
    omega
  · have hn := Option.some.inj h
    omega

/-- **An item is taken at a position inside of the sequence**, and where there is none the engine
refuses. -/
theorem itemInWords_eq {α : Type} {items : List α} (h : items.length < 0x8000000000000000)
    (index : Int64) (outOfRange : Refusal) :
    itemInWords items index outOfRange =
      orRefuse outOfRange ((position? items.length index).bind fun n => items[n]?) := by
  unfold itemInWords
  rw [positionInWords_eq h, plain_ok, ok_bind]
  cases hposition : position? items.length index with
  | none => rfl
  | some n =>
    have hitem := List.getElem?_eq_getElem (lt_of_position? hposition)
    rw [Option.bind_some, hitem, orRefuse_some, ok_bind]
    unfold Words.get
    rw [hitem]
    rfl

/-- The part of a list, text or map that an index selects. -/
def indexValueInWords (s : State) (base : Value) (key : Operand) : Step (Option Value) :=
  match base with
  | .list items => do
    let i ← orRefuse .listIndexNotInteger (← concrete s key).int?
    (itemInWords items i .listIndexOutOfRange).map some
  | .str text =>
    if s.heap.contains text then .ok none
    else do
      let i ← orRefuse .textIndexNotInteger (← concrete s key).int?
      let c ← itemInWords text.toList i .textIndexOutOfRange
      return some (.str (String.ofList [c]))
  | base => indexValue? s base key

/-- How many items a value has in a row. -/
def extent : Value → Nat
  | .list items => items.length
  | .str text => text.length
  | _ => 0

theorem indexValueInWords_eq {base : Value} (h : extent base < 0x8000000000000000)
    (key : Operand) : indexValueInWords s base key = indexValue? s base key := by
  cases base with
  | list items =>
    refine bind_congr_ok rfl fun v _ => bind_congr_ok rfl fun i _ => ?_
    rw [itemInWords_eq h]
    cases hposition : position? items.length i with
    | none => rfl
    | some n =>
      have hitem := List.getElem?_eq_getElem (lt_of_position? hposition)
      simp only [Option.bind_some, orRefuse_some, ok_bind, hitem]
      rfl
  | str text =>
    have hlength : text.toList.length < 0x8000000000000000 := by
      rwa [String.length_toList]
    dsimp only [indexValueInWords, indexValue?]
    split_ifs
    · rfl
    · refine bind_congr_ok rfl fun v _ => bind_congr_ok rfl fun i _ => ?_
      rw [itemInWords_eq hlength]
      cases hposition : position? text.toList.length i with
      | none => rfl
      | some n =>
        have hitem := List.getElem?_eq_getElem (lt_of_position? hposition)
        simp only [Option.bind_some, orRefuse_some, ok_bind, hitem]
        rfl
  | _ => rfl

/-! ### Decisions -/

/-- `LOAD_INDEX`. The sum that `elementKey` forms is one of words already. -/
def decideLoadInWords (inst : Instruction) (s : State) : Step Delta := do
  let baseOperand ← operand inst 0
  let base ← resolve s baseOperand
  let key ← operand inst 1
  match ← indexValueInWords s base key with
  | some v => return { reasoning := "index into value" : Delta }.produce inst v
  | none => loadFromHeap inst s baseOperand key

/-- `BINOP`. -/
def decideBinopInWords (inst : Instruction) (s : State) : Step Delta := do
  let word ← text inst 0
  let op ← orRefuse (.unknownOperator word) (BinaryOp.ofString? word)
  let l ← concrete s (← operand inst 1)
  let r ← concrete s (← operand inst 2)
  let v ← orRefuse (.uncomputableBinary l op r) (← plain (op.evalInWords l r))
  let reasoning := l.render ++ " " ++ op.symbol ++ " " ++ r.render ++ " = " ++ v.render
  return { reasoning : Delta }.produce inst v

/-- Calls a builtin function. -/
def callBuiltinInWords (name : String) (b : Builtin) (args : List Value) (inst : Instruction)
    (s : State) : Step Delta := do
  if !b.toleratesSymbolic && args.any Value.containsSymbolic then
    .error (.symbolicArguments name)
  else if b = .arrayOf then
    let address ← fresh s .array
    let reasoning := "builtin " ++ name ++ " -> " ++ address
    return { Builtin.arrayDelta address args with reasoning }.produce inst (.str address)
  else
    let v ← orRefuse (.uncomputableBuiltin name) (← plain (b.valueInWords s.heap args))
    return { reasoning := "builtin " ++ name ++ " -> " ++ v.render : Delta }.produce inst v

/-- The arguments of a call: the values of the operands from a position on. -/
def argumentsInWords (inst : Instruction) (s : State) (first : Nat) : Step (List Value) := do
  let operands ← plain (Words.slice inst.operands first inst.operands.length)
  resolveAll s operands

/-- `CALL_FUNCTION`. -/
def decideCallFunctionInWords (registry : Registry) (inst : Instruction) (s : State) :
    Step Delta := do
  let name ← text inst 0
  let args ← argumentsInWords inst s 1
  match Builtin.ofName? name with
  | some b => callBuiltinInWords name b args inst s
  | none =>
    let target ← orRefuse (.unresolvedFunction name) ((s.lookup? name).bind Value.str?)
    match FunctionRef.parse? target with
    | some f => dispatch registry f args
    | none =>
      match ClassRef.parse? target with
      | some c => construct registry c args inst s
      | none => .error (.notCallable name)

/-- `CALL_METHOD`. -/
def decideCallMethodInWords (registry : Registry) (inst : Instruction) (s : State) :
    Step Delta := do
  let (address, obj) ← heapObject s (← operand inst 0)
  let method ← text inst 1
  let args ← argumentsInWords inst s 2
  match ((obj.fields.get? method).bind Value.str?).bind FunctionRef.parse? with
  | some f => dispatch registry f args
  | none =>
    let cls ← orRefuse (.noClass address) obj.hint
    let label ← orRefuse (.unresolvedMethod cls method) (registry.method? cls method)
    dispatch registry { name := method, label } (.str address :: args)

/-- The effects of an instruction, computed in words. What is not listed has no plain operation but
the numbering of identifiers, which counts in words already. -/
def decideInWords (registry : Registry) (inst : Instruction) (s : State) : Step Delta :=
  match inst.opcode with
  | .loadIndex => decideLoadInWords inst s
  | .binop => decideBinopInWords inst s
  | .callFunction => decideCallFunctionInWords registry inst s
  | .callMethod => decideCallMethodInWords registry inst s
  | _ => decide registry inst s

/-- All lists and texts that the operands stand for have fewer items than a word can count. -/
def OperandsFit (inst : Instruction) (s : State) : Prop :=
  ∀ op ∈ inst.operands, ∀ v, resolve s op = .ok v → extent v < 0x8000000000000000

theorem decideLoadInWords_eq (hopcode : inst.opcode = .loadIndex) (hfit : OperandsFit inst s) :
    decideLoadInWords inst s = decideLoad inst s := by
  rw [decideLoad_eq]
  refine bind_congr_ok rfl fun baseOperand hbaseOperand => bind_congr_ok rfl fun base hbase =>
    bind_congr_ok rfl fun key _ => ?_
  have hmem : baseOperand ∈ inst.operands := List.mem_of_getElem? (operand_eq_ok.mp hbaseOperand)
  have hpart : indexValueInWords s base key = loadedPart? inst s base key := by
    unfold loadedPart?
    rw [if_pos hopcode, indexValueInWords_eq (hfit baseOperand hmem base hbase)]
  exact bind_congr_ok hpart fun part _ => rfl

theorem decideBinopInWords_eq : decideBinopInWords inst s = decideBinop inst s := by
  unfold decideBinopInWords decideBinop
  simp only [BinaryOp.evalInWords_eq, plain_ok, ok_bind]

theorem callBuiltinInWords_eq (name : String) (b : Builtin) (args : List Value) :
    callBuiltinInWords name b args inst s = callBuiltin name b args inst s := by
  unfold callBuiltinInWords callBuiltin
  simp only [Builtin.valueInWords_eq, plain_ok, ok_bind]

/-- An instruction with an operand that is a name has the operands after it. -/
theorem argumentsInWords_eq {i : Nat} {name : String} (h : text inst i = .ok name) :
    argumentsInWords inst s (i + 1) = resolveAll s (inst.operands.drop (i + 1)) := by
  obtain ⟨op, hop, -⟩ := Option.bind_eq_some_iff.mp (text_eq_ok.mp h)
  obtain ⟨hlt, -⟩ := List.getElem?_eq_some_iff.mp hop
  unfold argumentsInWords
  rw [Words.slice_length hlt, plain_ok, ok_bind]

theorem decideCallFunctionInWords_eq :
    decideCallFunctionInWords registry inst s = decideCallFunction registry inst s := by
  refine bind_congr_ok rfl fun name hname =>
    bind_congr_ok (argumentsInWords_eq hname) fun args _ => ?_
  cases Builtin.ofName? name with
  | some b => exact callBuiltinInWords_eq name b args
  | none => rfl

theorem decideCallMethodInWords_eq :
    decideCallMethodInWords registry inst s = decideCallMethod registry inst s :=
  bind_congr_ok rfl fun _ _ => bind_congr_ok rfl fun _ _ => bind_congr_ok rfl fun _ hmethod =>
    bind_congr_ok (argumentsInWords_eq hmethod) fun _ _ => rfl

/-- **The engine decides in words as it does on whole numbers.** -/
theorem decideInWords_eq (hfit : OperandsFit inst s) :
    decideInWords registry inst s = decide registry inst s := by
  unfold decideInWords
  split
  · rename_i hopcode
    rw [decideLoadInWords_eq hopcode hfit]
    unfold decide
    rw [hopcode]
  · rename_i hopcode
    rw [decideBinopInWords_eq]
    unfold decide
    rw [hopcode]
  · rename_i hopcode
    rw [decideCallFunctionInWords_eq]
    unfold decide
    rw [hopcode]
  · rename_i hopcode
    rw [decideCallMethodInWords_eq]
    unfold decide
    rw [hopcode]
  · rfl

end SymbolicVM.Engine

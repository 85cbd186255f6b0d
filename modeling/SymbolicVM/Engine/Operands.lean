import SymbolicVM.Engine.Refusal
import SymbolicVM.Machine.Delta
import SymbolicVM.Value.Literal

/-!
# Operands of instructions

How the engine reads operands: a register gives its value in the current frame, anything else is a
literal.
-/

namespace SymbolicVM

/-- The value of an operand that is no register. -/
def Operand.literal : Operand → Value
  | .bool b => .bool b
  | .int i => .int i
  | .float x => .float x
  | .text s => Value.ofLiteral s
  | .null => .null

namespace Engine

/-- What reading an operand gives, or why the instruction is not decided. -/
abbrev Step (α : Type) := Except Refusal α

/-- A success, or a reason to refuse. -/
def orRefuse {α : Type} (reason : Refusal) : Option α → Step α
  | some a => .ok a
  | none => .error reason

/-- The operand at a position. -/
def operand (inst : Instruction) (i : Nat) : Step Operand :=
  orRefuse (.missingOperand inst.opcode i) (inst.operand? i)

/-- The text of the operand at a position. -/
def text (inst : Instruction) (i : Nat) : Step String :=
  orRefuse (.notAName inst.opcode i) (inst.text? i)

/-- The value of an operand. -/
def resolve (s : State) (op : Operand) : Step Value :=
  match op.register? with
  | some reg => orRefuse (.unsetRegister reg) (s.register? reg)
  | none => .ok op.literal

/-- The values of operands, in order. -/
def resolveAll (s : State) (ops : List Operand) : Step (List Value) :=
  ops.mapM (resolve s)

/-- The value of an operand, if no part of it is symbolic. -/
def concrete (s : State) (op : Operand) : Step Value := do
  let v ← resolve s op
  if v.containsSymbolic then .error (.symbolicOperand v) else .ok v

/-- The address and the object that an operand refers to. -/
def heapObject (s : State) (op : Operand) : Step (String × HeapObject) := do
  let base ← resolve s op
  let address ← orRefuse (.notAReference base) base.heapAddress?
  let obj ← orRefuse (.deadObject address) (s.heap.get? address)
  return (address, obj)

/-- Whether an instruction names its field directly. -/
def namesField : Opcode → Bool
  | .loadField | .storeField => true
  | _ => false

/-- The key of the field that an operand addresses. The name of a field is taken as it stands; an
index must have a value that can be a key. -/
def memberKey (s : State) (opcode : Opcode) (op : Operand) : Step String :=
  match op.text?, op.register?, namesField opcode with
  | some name, none, true => .ok name
  | _, _, _ => do
    let key ← concrete s op
    orRefuse (.invalidKey key) key.fieldKey?

/-- The position that an index means in a sequence; a negative index counts from the end. -/
def position? (length : Nat) (index : Int64) : Option Nat :=
  let i := if index.toInt < 0 then index.toInt + length else index.toInt
  if 0 ≤ i ∧ i < length then some i.toNat else none

/-- The part of a list, text or map that an index selects. A text that is the address of an object
is no sequence; anything that is not indexed by itself gives nothing. -/
def indexValue? (s : State) (base : Value) (key : Operand) : Step (Option Value) :=
  match base with
  | .list items => do
    let i ← orRefuse .listIndexNotInteger (← concrete s key).int?
    let n ← orRefuse .listIndexOutOfRange (position? items.length i)
    return items[n]?
  | .str text =>
    if s.heap.contains text then .ok none
    else do
      let i ← orRefuse .textIndexNotInteger (← concrete s key).int?
      let cs := text.toList
      let n ← orRefuse .textIndexOutOfRange (position? cs.length i)
      return cs[n]?.map fun c => .str (String.ofList [c])
  | .map entries => do
    let k ← orRefuse .invalidMapKey (← concrete s key).fieldKey?
    let v ← orRefuse (.missingKey k) (Entries.get? k entries)
    return some v
  | _ => .ok none

/-- Where the names of new things come from. -/
abbrev Supply := IdKind → Step String

/-- A fresh identifier. -/
def fresh (s : State) (kind : IdKind) : Step String :=
  match s.fresh kind with
  | .ok name => .ok name
  | .error .overflow => .error .overflow

end Engine

/-- The delta with a value in the result register of an instruction, if it has one. -/
def Delta.produce (d : Delta) (inst : Instruction) (v : Value) : Delta :=
  match inst.result with
  | some reg => d.writeRegister reg v
  | none => d

end SymbolicVM

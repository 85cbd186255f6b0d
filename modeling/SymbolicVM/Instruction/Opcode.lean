import SymbolicVM.Text.Split

/-!
# Opcodes

The closed set of operations of the flattened three-address representation.
-/

namespace SymbolicVM

/-- An operation. The first group produces values, the second consumes them or moves control. -/
inductive Opcode where
  | const
  | loadVar
  | loadField
  | loadIndex
  | newObject
  | newArray
  | binop
  | unop
  | callFunction
  | callMethod
  | callUnknown
  | storeVar
  | storeField
  | storeIndex
  | branchIf
  | branch
  | ret
  | throw
  | symbolic
  | label
deriving DecidableEq, Inhabited

namespace Opcode

/-- All opcodes, in the order in which counts are reported. -/
def all : List Opcode :=
  [.const, .loadVar, .loadField, .loadIndex, .newObject, .newArray, .binop, .unop, .callFunction,
    .callMethod, .callUnknown, .storeVar, .storeField, .storeIndex, .branchIf, .branch, .ret,
    .throw, .symbolic, .label]

/-- The name of an opcode, in capitals. -/
def name : Opcode → String
  | .const => "CONST"
  | .loadVar => "LOAD_VAR"
  | .loadField => "LOAD_FIELD"
  | .loadIndex => "LOAD_INDEX"
  | .newObject => "NEW_OBJECT"
  | .newArray => "NEW_ARRAY"
  | .binop => "BINOP"
  | .unop => "UNOP"
  | .callFunction => "CALL_FUNCTION"
  | .callMethod => "CALL_METHOD"
  | .callUnknown => "CALL_UNKNOWN"
  | .storeVar => "STORE_VAR"
  | .storeField => "STORE_FIELD"
  | .storeIndex => "STORE_INDEX"
  | .branchIf => "BRANCH_IF"
  | .branch => "BRANCH"
  | .ret => "RETURN"
  | .throw => "THROW"
  | .symbolic => "SYMBOLIC"
  | .label => "LABEL"

/-- The opcode with exactly this name. -/
def ofName? (name : String) : Option Opcode :=
  all.find? fun op => op.name == name

/-- The opcode with this name in any case of letters. -/
def ofString? (s : String) : Option Opcode :=
  ofName? (Text.upper s)

/-- Whether a new block must start after the instruction. -/
def endsBlock : Opcode → Bool
  | .branch | .branchIf | .ret | .throw => true
  | _ => false

/-- Every opcode is in the list of all. -/
theorem mem_all (op : Opcode) : op ∈ all := by
  cases op <;> decide

/-- An opcode is read back from its own name. -/
theorem ofName?_name (op : Opcode) : ofName? op.name = some op := by
  cases op <;> decide

end Opcode

end SymbolicVM

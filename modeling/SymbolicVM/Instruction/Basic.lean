import SymbolicVM.Instruction.Opcode
import SymbolicVM.Text.Numeral
import SymbolicVM.Decimal.Layout

/-!
# Instructions

An instruction has an opcode, operands, and optionally a register for its result, a label and a
place in the source text. `render` gives the line of a listing that stands for it.
-/

namespace SymbolicVM

/-- A name of a register begins with a percent sign. -/
def isRegister (s : String) : Bool :=
  match s.toList with
  | '%' :: _ => true
  | _ => false

/-- An operand: a register, a literal, or a word that the opcode gives a meaning to. -/
inductive Operand where
  | bool (b : Bool)
  | int (i : Int64)
  | float (x : Float)
  | text (s : String)
  | null
deriving DecidableEq, Inhabited

namespace Operand

/-- The text of an operand that is one. -/
def text? : Operand → Option String
  | .text s => some s
  | _ => none

/-- The register that an operand names. -/
def register? : Operand → Option String
  | .text s => if SymbolicVM.isRegister s then some s else none
  | _ => none

/-- Whether an operand names a register. -/
def isRegister (op : Operand) : Bool :=
  op.register?.isSome

/-- An operand as it stands in a listing. -/
def render : Operand → String
  | .bool b => if b then "True" else "False"
  | .int i => Text.ofInt64 i
  | .float x => Decimal.render x
  | .text s => s
  | .null => "None"

end Operand

/-- A range in the source text. -/
structure SourceRange where
  startLine : UInt32
  startColumn : UInt32
  endLine : UInt32
  endColumn : UInt32
deriving DecidableEq, Inhabited

namespace SourceRange

/-- The range of all zeros says nothing. -/
def isUnknown (r : SourceRange) : Bool :=
  r = ⟨0, 0, 0, 0⟩

/-- The text of a range. -/
def render (r : SourceRange) : String :=
  if r.isUnknown then "<unknown>"
  else
    toString r.startLine.toNat ++ ":" ++ toString r.startColumn.toNat ++ "-" ++
      toString r.endLine.toNat ++ ":" ++ toString r.endColumn.toNat

end SourceRange

/-- One instruction. The label is the name of a `LABEL`, the target of a `BRANCH`, and the two
targets of a `BRANCH_IF` with a comma between them. -/
structure Instruction where
  opcode : Opcode
  result : Option String := none
  operands : List Operand := []
  label : Option String := none
  location : Option SourceRange := none
deriving DecidableEq, Inhabited

namespace Instruction

/-- The operand at a position. -/
def operand? (inst : Instruction) (i : Nat) : Option Operand :=
  inst.operands[i]?

/-- The text of the operand at a position. -/
def text? (inst : Instruction) (i : Nat) : Option String :=
  (inst.operand? i).bind Operand.text?

/-- Whether the instruction names the block that it begins. -/
def isLabel (inst : Instruction) : Bool :=
  inst.opcode = .label

/-- The labels that the instruction may move control to, in the order in which they are written. -/
def targets (inst : Instruction) : List String :=
  match inst.opcode, inst.label with
  | .branch, some label => [Text.trim label]
  | .branchIf, some pair =>
    (((Text.splitWhere (fun c => c == ',') pair.toList).map Text.trimChars).filter
      (fun piece => !piece.isEmpty)).map String.ofList
  | _, _ => []

/-- The two targets of a conditional branch, for a condition that holds and for one that does not. A
label that is not exactly two non-empty names has none. -/
def branchTargets? (inst : Instruction) : Option (String × String) :=
  if inst.opcode = .branchIf then do
    let label ← inst.label
    let (onTrue, onFalse) ← Text.splitOnce ',' label.toList
    let onTrue := Text.trimChars onTrue
    let onFalse := Text.trimChars onFalse
    if onTrue.isEmpty || onFalse.isEmpty || onFalse.contains ',' then none
    else some (String.ofList onTrue, String.ofList onFalse)
  else none

/-- The instruction without its place in the source text. -/
def renderBare (inst : Instruction) : String :=
  match inst.opcode, inst.label with
  | .label, some label => label ++ ":"
  | _, _ =>
    (match inst.result with
      | some reg => reg ++ " = "
      | none => "") ++
    Text.lower inst.opcode.name ++
    String.join (inst.operands.map fun op => " " ++ op.render) ++
    (match inst.label with
      | some label => " " ++ label
      | none => "")

/-- The line of a listing that stands for the instruction. A known place in the source text follows
as a comment. -/
def render (inst : Instruction) : String :=
  inst.renderBare ++
    (match inst.location with
      | some loc => if loc.isUnknown then "" else "  # " ++ loc.render
      | none => "")

instance : ToString Instruction := ⟨render⟩

end Instruction

/-- How often each opcode occurs, without those that do not. -/
def opcodeCounts (insts : List Instruction) : List (Opcode × Nat) :=
  (Opcode.all.map fun op => (op, insts.countP fun inst => inst.opcode = op)).filter
    fun entry => entry.2 ≠ 0

/-- The head of the labels that begin the body of a function. -/
def functionHead : String := "func_"

/-- Whether a label begins the body of the function `name`: `func_`, the name, an underscore and
digits. -/
def beginsFunction (name label : String) : Bool :=
  match Text.stripHead? (functionHead ++ name ++ "_") label with
  | some digits => digits.toList.all Text.isDigit
  | none => false

/-- The instructions of a function, from the first label that begins its body up to the label that
ends it, or to the end of the list. The end label has `end_` in place of `func_`. -/
def functionBody (name : String) (insts : List Instruction) : List Instruction :=
  let begins (inst : Instruction) : Bool :=
    inst.isLabel && (inst.label.map (beginsFunction name)).getD false
  match insts.dropWhile (fun inst => !begins inst) with
  | [] => []
  | first :: rest =>
    let endLabel := (first.label.bind (Text.stripHead? functionHead)).map ("end_" ++ ·)
    first :: rest.takeWhile fun inst => !(inst.isLabel && inst.label == endLabel)

end SymbolicVM

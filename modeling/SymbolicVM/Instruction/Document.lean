import SymbolicVM.Instruction.Basic
import SymbolicVM.Json.Record

/-!
# Instructions as documents

An instruction is a record; its optional parts are left out when they are absent. An operand is a
truth value, a number, a text or `null`; a whole number that needs more than 64 bits with sign is
read as a floating-point number.
-/

namespace SymbolicVM

namespace Operand

/-- The document of an operand. -/
def toJson : Operand → Json
  | .bool b => .bool b
  | .int i => .int i.toInt
  | .float x => Json.ofFloat x
  | .text s => .str s
  | .null => .null

/-- Reads an operand. -/
def ofJson? : Json → Option Operand
  | .bool b => some (.bool b)
  | .int i =>
    match Text.word? i with
    | some w => some (.int w)
    | none => some (.float i.toNat.toUInt64.toFloat)
  | .float x => some (.float x)
  | .str s => some (.text s)
  | .null => some .null
  | _ => none

end Operand

namespace SourceRange

/-- The document of a range. -/
def toJson (r : SourceRange) : Json :=
  .obj [("start_line", .int r.startLine.toNat), ("start_col", .int r.startColumn.toNat),
    ("end_line", .int r.endLine.toNat), ("end_col", .int r.endColumn.toNat)]

/-- Reads a range. -/
def ofJson? (j : Json) : Option SourceRange := do
  match ← j.fields? ["start_line", "start_col", "end_line", "end_col"] with
  | [startLine, startColumn, endLine, endColumn] =>
    return {
      startLine := ← Json.requiredField Json.word32? startLine
      startColumn := ← Json.requiredField Json.word32? startColumn
      endLine := ← Json.requiredField Json.word32? endLine
      endColumn := ← Json.requiredField Json.word32? endColumn }
  | _ => none

end SourceRange

namespace Instruction

/-- The document of an instruction. -/
def toJson (inst : Instruction) : Json :=
  Json.record
    [Json.always "opcode" (.str inst.opcode.name),
      Json.whenSome "result_reg" Json.str inst.result,
      Json.memberUnless inst.operands.isEmpty "operands" (.arr (inst.operands.map Operand.toJson)),
      Json.whenSome "label" Json.str inst.label,
      Json.whenSome "source_location" SourceRange.toJson inst.location]

/-- Reads an instruction. -/
def ofJson? (j : Json) : Option Instruction := do
  match ← j.fields? ["opcode", "result_reg", "operands", "label", "source_location"] with
  | [opcode, result, operands, label, location] =>
    return {
      opcode := ← Json.requiredField (Json.choice? Opcode.ofName?) opcode
      result := ← Json.optionalField Json.str? result
      operands := ← Json.fieldOr [] (Json.list? Operand.ofJson?) operands
      label := ← Json.optionalField Json.str? label
      location := ← Json.optionalField SourceRange.ofJson? location }
  | _ => none

end Instruction

end SymbolicVM

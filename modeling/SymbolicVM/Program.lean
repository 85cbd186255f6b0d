import SymbolicVM.Listing
import SymbolicVM.Instruction.Document
import SymbolicVM.Json.Reader
import SymbolicVM.Json.Printer

/-!
# Programs

A program is a list of instructions and, where known, the language it was lowered from. It is read
from a listing, or from a document that is either the array of its instructions or a record.
-/

namespace SymbolicVM

/-- A lowered program. -/
structure Program where
  language : Option String := none
  instructions : List Instruction
deriving DecidableEq, Inhabited

namespace Program

/-- Why a text is not a program. -/
inductive Error where
  /-- The text is no document. -/
  | notJson
  /-- The document is an array or an object, but not of instructions. -/
  | wrongShape
  /-- The document is neither an array nor an object. -/
  | unexpected (document : String)
  /-- A line of the listing is faulty. -/
  | listing (e : Listing.Error)
deriving DecidableEq

/-- The wording of an error. -/
def Error.message : Error → String
  | .notJson => "program is not valid JSON: not a JSON document"
  | .wrongShape => "not an instruction"
  | .unexpected document => "expected an instruction array or program object, got " ++ document
  | .listing e => e.message

/-- The document of a program. -/
def toJson (p : Program) : Json :=
  Json.record
    [Json.whenSome "language" Json.str p.language,
      Json.always "instructions" (.arr (p.instructions.map Instruction.toJson))]

/-- Reads the document of a program: the array of its instructions, or a record. -/
def ofJson : Json → Except Error Program
  | .arr items =>
    match items.mapM Instruction.ofJson? with
    | some insts => .ok { instructions := insts }
    | none => .error .wrongShape
  | .obj members =>
    let fields := do
      let language ← Json.optionalField Json.str? (Entries.get? "language" members)
      let insts ← Json.requiredField (Json.list? Instruction.ofJson?)
        (Entries.get? "instructions" members)
      return { language, instructions := insts }
    match fields with
    | some p => .ok p
    | none => .error .wrongShape
  | j => .error (.unexpected j.compact)

/-- Reads a program from the text of a document. -/
def ofDocument (text : String) : Except Error Program :=
  match Json.read? text with
  | some j => ofJson j
  | none => .error .notJson

/-- Reads a program from a listing. -/
def ofListing (text : String) : Except Error Program :=
  match Listing.parse text with
  | .ok insts => .ok { instructions := insts }
  | .error e => .error (.listing e)

end Program

end SymbolicVM

import SymbolicVM.Value.Basic
import SymbolicVM.Json.Printer
import SymbolicVM.Json.Record

/-!
# Values as documents

A symbolic value is written as an object with the marker `__symbolic__` set to true; all other
values are written as the document they look like. Reading gives a map for every object without that
marker.
-/

namespace SymbolicVM

/-- The key that marks the object of a symbolic value. -/
def symbolicMarker : String := "__symbolic__"

namespace Symbolic

/-- The object of a symbolic value. The hint and the constraints are left out when there are none.
-/
def toJson (s : Symbolic) : Json :=
  Json.record
    [Json.always symbolicMarker (.bool true),
      Json.always "name" (.str s.name),
      Json.whenSome "type_hint" Json.str s.hint,
      Json.memberUnless s.constraints.isEmpty "constraints" (.arr (s.constraints.map Json.str))]

/-- The text that a document stands for where a text is wanted: its own if it is one, otherwise its
compact form. -/
def textOf : Json → String
  | .str s => s
  | j => j.compact

/-- The symbolic value of the members of an object. A missing name is empty, to be given later; a
single constraint may stand without an array. -/
def ofMembers (members : List (String × Json)) : Symbolic where
  name := ((Entries.get? "name" members).map textOf).getD ""
  hint := match Entries.get? "type_hint" members with
    | none => none
    | some .null => none
    | some j => some (textOf j)
  constraints := match Entries.get? "constraints" members with
    | none => []
    | some .null => []
    | some (.arr items) => items.map textOf
    | some j => [textOf j]

/-- Reads the record of a symbolic value, with or without the marker. -/
def ofJson? : Json → Option Symbolic
  | .obj members => some (ofMembers members)
  | _ => none

end Symbolic

namespace Value

mutual

/-- The document of a value. -/
def toJson : Value → Json
  | .null => .null
  | .bool b => .bool b
  | .int i => .int i.toInt
  | .float x => Json.ofFloat x
  | .str s => .str s
  | .list items => .arr (itemsToJson items)
  | .map entries => .obj (entriesToJson entries)
  | .symbolic s => s.toJson

/-- The documents of the items of a list. -/
def itemsToJson : List Value → List Json
  | [] => []
  | v :: vs => toJson v :: itemsToJson vs

/-- The members of the object of a map. -/
def entriesToJson : List (String × Value) → List (String × Json)
  | [] => []
  | (k, v) :: es => (k, toJson v) :: entriesToJson es

end

mutual

/-- The value of a document. A whole number beyond 64 bits with sign becomes a floating-point
number. -/
def ofJson : Json → Value
  | .null => .null
  | .bool b => .bool b
  | .int i =>
    match Text.word? i with
    | some w => .int w
    | none => .float i.toNat.toUInt64.toFloat
  | .float x => .float x
  | .str s => .str s
  | .arr items => .list (itemsOfJson items)
  | .obj members =>
    match Entries.get? symbolicMarker members with
    | some (.bool true) => .symbolic (Symbolic.ofMembers members)
    | _ => .map (Entries.ofList (entriesOfJson members))

/-- The values of the items of an array. -/
def itemsOfJson : List Json → List Value
  | [] => []
  | j :: js => ofJson j :: itemsOfJson js

/-- The entries of the members of an object. -/
def entriesOfJson : List (String × Json) → List (String × Value)
  | [] => []
  | (k, j) :: ms => (k, ofJson j) :: entriesOfJson ms

end

end Value

end SymbolicVM

import SymbolicVM.Json.Basic
import SymbolicVM.Text.Numeral

/-!
# Records in documents

A record is written as an object of its fields, or as the array of its fields in order, where fields
at the end that have a default may be missing. Members that are no field are ignored. `null` is
accepted for optional fields only.
-/

namespace SymbolicVM.Json

variable {α : Type}

/-- The fields of a record, each with its document or `none` if it is missing. -/
def fields? (names : List String) : Json → Option (List (Option Json))
  | .obj members => some (names.map fun name => Entries.get? name members)
  | .arr items =>
    if items.length ≤ names.length then
      some (items.map some ++ List.replicate (names.length - items.length) none)
    else none
  | _ => none

/-- A field with a default for when it is missing. -/
def fieldOr (default : α) (read : Json → Option α) : Option Json → Option α
  | none => some default
  | some j => read j

/-- A field that may be missing or `null`. -/
def optionalField (read : Json → Option α) : Option Json → Option (Option α)
  | none => some none
  | some .null => some none
  | some j => (read j).map some

/-- A field that must be there. -/
def requiredField (read : Json → Option α) (field : Option Json) : Option α :=
  field.bind read

/-! ### Scalars -/

/-- A truth value. -/
def bool? : Json → Option Bool
  | .bool b => some b
  | _ => none

/-- A text. -/
def str? : Json → Option String
  | .str s => some s
  | _ => none

/-- A whole number from zero to below `bound`. -/
def natBelow? (bound : Nat) : Json → Option Nat
  | .int i => if 0 ≤ i ∧ i < bound then some i.toNat else none
  | _ => none

/-- A whole number that is not negative. -/
def nat? : Json → Option Nat
  | .int i => if 0 ≤ i then some i.toNat else none
  | _ => none

/-- A whole number that fits an unsigned 32-bit word. -/
def word32? (j : Json) : Option UInt32 :=
  (natBelow? UInt32.size j).map Nat.toUInt32

/-- A whole number that fits a signed 64-bit word. -/
def int64? : Json → Option Int64
  | .int i => Text.word? i
  | _ => none

/-! ### Containers -/

/-- A list, written as an array. -/
def list? (read : Json → Option α) : Json → Option (List α)
  | .arr items => items.mapM read
  | _ => none

/-- A dictionary, written as an object. -/
def dict? (read : Json → Option α) : Json → Option (Dict α)
  | .obj members => (members.mapM fun m => (read m.2).map fun a => (m.1, a)).map Dict.ofList
  | _ => none

/-- The object of a dictionary. -/
def ofDict (f : α → Json) (d : Dict α) : Json :=
  .obj (d.entries.map fun (k, a) => (k, f a))

/-- A choice without data: its name, or an object with the name as the only key and `null` as its
value. -/
def choice? (ofName : String → Option α) : Json → Option α
  | .str name => ofName name
  | .obj [(name, .null)] => ofName name
  | _ => none

/-- The members of a record that are present. -/
def record (members : List (Option (String × Json))) : Json :=
  .obj (members.filterMap id)

/-- A member that is always written. -/
def always (name : String) (j : Json) : Option (String × Json) :=
  some (name, j)

/-- A member that is written only if it is present. -/
def whenSome (name : String) (f : α → Json) : Option α → Option (String × Json)
  | some a => some (name, f a)
  | none => none

/-- A member that is left out when it would say nothing. -/
def memberUnless (silent : Bool) (name : String) (j : Json) : Option (String × Json) :=
  if silent then none else some (name, j)

end SymbolicVM.Json

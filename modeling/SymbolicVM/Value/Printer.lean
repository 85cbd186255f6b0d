import SymbolicVM.Value.Basic
import SymbolicVM.Text.Numeral
import SymbolicVM.Decimal.Layout

/-!
# Values as texts

How values are shown to readers, and the key under which a value addresses a field. Inside lists and
maps a text stands between single quotes; a symbolic value is shown by its name.
-/

namespace SymbolicVM.Value

mutual

/-- Appends the text of a value. -/
def write (out : String) : Value → String
  | .null => out ++ "None"
  | .bool b => out ++ (if b then "True" else "False")
  | .int i => out ++ Text.ofInt64 i
  | .float x => out ++ Decimal.render x
  | .str s => out ++ s
  | .list items => writeItems (out ++ "[") true items ++ "]"
  | .map entries => writeEntries (out ++ r"{") true entries ++ r"}"
  | .symbolic s => out ++ s.name

/-- Appends the items of a list, texts in quotes, with commas between them. -/
def writeItems (out : String) (first : Bool) : List Value → String
  | [] => out
  | v :: vs =>
    let out := if first then out else out ++ ", "
    let out := match v with
      | .str s => out ++ "'" ++ s ++ "'"
      | v => write out v
    writeItems out false vs

/-- Appends the entries of a map, texts in quotes, with commas between them. -/
def writeEntries (out : String) (first : Bool) : List (String × Value) → String
  | [] => out
  | (k, v) :: es =>
    let out := (if first then out else out ++ ", ") ++ "'" ++ k ++ "': "
    let out := match v with
      | .str s => out ++ "'" ++ s ++ "'"
      | v => write out v
    writeEntries out false es

end

/-- The text of a value. -/
def render (v : Value) : String :=
  write "" v

instance : ToString Value := ⟨render⟩

/-- The key of the field that a value addresses. Lists, maps and symbolic values address none. -/
def fieldKey? : Value → Option String
  | .int i => some (Text.ofInt64 i)
  | .str s => some s
  | .bool b => some (render (.bool b))
  | .float x => some (render (.float x))
  | .null => some (render .null)
  | .list _ => none
  | .map _ => none
  | .symbolic _ => none

end SymbolicVM.Value

import SymbolicVM.Value.Basic
import SymbolicVM.Decimal.Reader

/-!
# Literals

The value of a literal in an instruction: a word for null or a truth value, an integer, a
floating-point number, a text between equal quotes, and otherwise the text itself.
-/

namespace SymbolicVM.Value

/-- The text between two equal quotes at the ends. -/
def unquote? (cs : List Char) : Option (List Char) :=
  match cs with
  | q :: rest =>
    if (q = '"' ∨ q = '\'') ∧ rest.getLast? = some q then some rest.dropLast else none
  | [] => none

/-- The words that stand for a value of their own. -/
def named? : String → Option Value
  | "None" => some .null
  | "null" => some .null
  | "True" => some (.bool true)
  | "true" => some (.bool true)
  | "False" => some (.bool false)
  | "false" => some (.bool false)
  | _ => none

/-- The value of a literal. -/
def ofLiteral (raw : String) : Value :=
  match named? raw with
  | some v => v
  | none =>
    let cs := raw.toList
    match Text.int64? cs with
    | some i => .int i
    | none =>
      match Decimal.float? cs with
      | some x => .float x
      | none =>
        match unquote? cs with
        | some inner => .str (String.ofList inner)
        | none => .str raw

end SymbolicVM.Value

import SymbolicVM.Json.Basic
import SymbolicVM.Decimal.Layout

/-!
# Writing documents

The compact form has no blanks; the indented form puts every item and member on a line of its own.
Quotes, backslashes and control characters are escaped, all other characters are written as they
are.
-/

namespace SymbolicVM.Json

/-- The lower-case hexadecimal digit of a number below 16. -/
def hexDigit (n : Nat) : Char :=
  if n < 10 then Char.ofNat ('0'.toNat + n) else Char.ofNat ('a'.toNat + (n - 10))

/-- How a character is written inside a string. -/
def escapeChar (c : Char) : List Char :=
  match c with
  | '"' => ['\\', '"']
  | '\\' => ['\\', '\\']
  | '\x08' => ['\\', 'b']
  | '\x0c' => ['\\', 'f']
  | '\n' => ['\\', 'n']
  | '\r' => ['\\', 'r']
  | '\t' => ['\\', 't']
  | _ =>
    if c.toNat < 0x20 then
      ['\\', 'u', '0', '0', hexDigit (c.toNat / 16), hexDigit (c.toNat % 16)]
    else [c]

/-- A quoted string. -/
def quote (s : String) : String :=
  String.ofList ('"' :: (s.toList.flatMap escapeChar ++ ['"']))

/-- A number that is not finite has no written form of its own and is written as `null`. -/
def renderFloat (x : Float) : String :=
  if x.isFinite then Decimal.Layout.document.finite x else "null"

mutual

/-- Appends the compact form of a document to a text. -/
def write (out : String) : Json → String
  | .null => out ++ "null"
  | .bool b => out ++ (if b then "true" else "false")
  | .int i => out ++ toString i
  | .float x => out ++ renderFloat x
  | .str s => out ++ quote s
  | .arr items => writeItems (out ++ "[") true items ++ "]"
  | .obj members => writeMembers (out ++ r"{") true members ++ r"}"

/-- Appends items with commas between them. -/
def writeItems (out : String) (first : Bool) : List Json → String
  | [] => out
  | j :: js => writeItems (write (if first then out else out ++ ",") j) false js

/-- Appends members with commas between them. -/
def writeMembers (out : String) (first : Bool) : List (String × Json) → String
  | [] => out
  | (k, j) :: ms =>
    writeMembers (write ((if first then out else out ++ ",") ++ quote k ++ ":") j) false ms

end

/-- The compact form of a document. -/
def compact (j : Json) : String :=
  write "" j

/-- A line break and the indentation of a nesting depth. -/
def newline (depth : Nat) : String :=
  "\n" ++ String.ofList (List.replicate (2 * depth) ' ')

mutual

/-- Appends the indented form of a document at a nesting depth. -/
def writeIndented (depth : Nat) (out : String) : Json → String
  | .arr [] => out ++ "[]"
  | .obj [] => out ++ r"{}"
  | .arr items => writeIndentedItems (depth + 1) (out ++ "[") true items ++ newline depth ++ "]"
  | .obj members =>
    writeIndentedMembers (depth + 1) (out ++ r"{") true members ++ newline depth ++ r"}"
  | .null => out ++ "null"
  | .bool b => out ++ (if b then "true" else "false")
  | .int i => out ++ toString i
  | .float x => out ++ renderFloat x
  | .str s => out ++ quote s

/-- Appends items, each on a line of its own. -/
def writeIndentedItems (depth : Nat) (out : String) (first : Bool) : List Json → String
  | [] => out
  | j :: js =>
    writeIndentedItems depth
      (writeIndented depth ((if first then out else out ++ ",") ++ newline depth) j) false js

/-- Appends members, each on a line of its own. -/
def writeIndentedMembers (depth : Nat) (out : String) (first : Bool) :
    List (String × Json) → String
  | [] => out
  | (k, j) :: ms =>
    writeIndentedMembers depth
      (writeIndented depth
        ((if first then out else out ++ ",") ++ newline depth ++ quote k ++ ": ") j) false ms

end

/-- The indented form of a document, two blanks for each level. -/
def indented (j : Json) : String :=
  writeIndented 0 "" j

end SymbolicVM.Json

import SymbolicVM.Json.Number

/-!
# Tokens of documents

A text is cut into tokens by an automaton that reads one character at a time: between tokens, in a
run of letters and digits (a number or one of the three words), or in a quoted string. The tokens of
a text are the fold of the automaton over its characters, so it always ends.
-/

namespace SymbolicVM.Json

/-- A token of a document: a bracket, a separator or a complete scalar. -/
inductive Token where
  | openArr
  | closeArr
  | openObj
  | closeObj
  | comma
  | colon
  | scalar (j : Json)
deriving Inhabited

/-- Where the automaton is. Characters read so far are kept in reverse. -/
inductive Mode where
  /-- Between two tokens. -/
  | between
  /-- In a number or a word. -/
  | run (seen : List Char)
  /-- In a string. -/
  | quoted (seen : List Char)
  /-- In a string, after a backslash. -/
  | escape (seen : List Char)
  /-- In a four-digit escape, with the digits still missing and the value so far. A high surrogate
  waits for its second half. -/
  | hex (seen : List Char) (high : Option Nat) (missing : Nat) (value : Nat)
  /-- After a high surrogate: a backslash must come. -/
  | pairSlash (seen : List Char) (high : Nat)
  /-- After a high surrogate and a backslash: the letter `u` must come. -/
  | pairLetter (seen : List Char) (high : Nat)

/-- The bracket or separator that a character stands for. -/
def punctuation? : Char → Option Token
  | '[' => some .openArr
  | ']' => some .closeArr
  | '{' => some .openObj
  | '}' => some .closeObj
  | ',' => some .comma
  | ':' => some .colon
  | _ => none

/-- A character of a number or of a word. -/
def isRunChar (c : Char) : Bool :=
  Text.isDigit c || c.isAlpha || c == '+' || c == '-' || c == '.'

/-- The scalar that a run of characters stands for. -/
def ofRun? (cs : List Char) : Option Json :=
  match cs with
  | ['n', 'u', 'l', 'l'] => some .null
  | ['t', 'r', 'u', 'e'] => some (.bool true)
  | ['f', 'a', 'l', 's', 'e'] => some (.bool false)
  | _ => number? cs

/-- The value of a hexadecimal digit. -/
def hexValue? (c : Char) : Option Nat :=
  if Text.isDigit c then some (Text.digitValue c)
  else if 'a' ≤ c ∧ c ≤ 'f' then some (c.toNat - 'a'.toNat + 10)
  else if 'A' ≤ c ∧ c ≤ 'F' then some (c.toNat - 'A'.toNat + 10)
  else none

/-- The character that a one-letter escape stands for. -/
def escaped? : Char → Option Char
  | '"' => some '"'
  | '\\' => some '\\'
  | '/' => some '/'
  | 'b' => some '\x08'
  | 'f' => some '\x0c'
  | 'n' => some '\n'
  | 'r' => some '\r'
  | 't' => some '\t'
  | _ => none

/-- What follows a complete four-digit escape. A high surrogate waits for a low one; a low surrogate
that follows no high one is refused. -/
def afterHex? (seen : List Char) (high : Option Nat) (value : Nat) : Option Mode :=
  match high with
  | some h =>
    if 0xDC00 ≤ value ∧ value ≤ 0xDFFF then
      some (.quoted (Char.ofNat (0x10000 + (h - 0xD800) * 0x400 + (value - 0xDC00)) :: seen))
    else none
  | none =>
    if 0xD800 ≤ value ∧ value ≤ 0xDBFF then some (.pairSlash seen value)
    else if 0xDC00 ≤ value ∧ value ≤ 0xDFFF then none
    else some (.quoted (Char.ofNat value :: seen))

/-- Reads one character between tokens. -/
def stepBetween (tokens : List Token) (c : Char) : Option (Mode × List Token) :=
  if c = ' ' ∨ c = '\n' ∨ c = '\t' ∨ c = '\r' then some (.between, tokens)
  else if c = '"' then some (.quoted [], tokens)
  else if isRunChar c then some (.run [c], tokens)
  else (punctuation? c).map fun t => (.between, t :: tokens)

/-- Reads one character. Complete tokens are kept in reverse. -/
def stepMode (state : Mode × List Token) (c : Char) : Option (Mode × List Token) :=
  let (mode, tokens) := state
  match mode with
  | .between => stepBetween tokens c
  | .run seen =>
    if isRunChar c then some (.run (c :: seen), tokens)
    else (ofRun? seen.reverse).bind fun j => stepBetween (.scalar j :: tokens) c
  | .quoted seen =>
    if c = '"' then some (.between, .scalar (.str (String.ofList seen.reverse)) :: tokens)
    else if c = '\\' then some (.escape seen, tokens)
    else if c.toNat < 0x20 then none
    else some (.quoted (c :: seen), tokens)
  | .escape seen =>
    if c = 'u' then some (.hex seen none 4 0, tokens)
    else (escaped? c).map fun d => (.quoted (d :: seen), tokens)
  | .hex seen high missing value =>
    (hexValue? c).bind fun d =>
      let value := 16 * value + d
      if missing ≤ 1 then (afterHex? seen high value).map fun mode => (mode, tokens)
      else some (.hex seen high (missing - 1) value, tokens)
  | .pairSlash seen high => if c = '\\' then some (.pairLetter seen high, tokens) else none
  | .pairLetter seen high => if c = 'u' then some (.hex seen (some high) 4 0, tokens) else none

/-- The tokens of a text, or nothing if a part of it is no token. -/
def tokens? (cs : List Char) : Option (List Token) :=
  (cs.foldlM stepMode (Mode.between, [])).bind fun (mode, tokens) =>
    match mode with
    | .between => some tokens.reverse
    | .run seen => (ofRun? seen.reverse).map fun j => (Token.scalar j :: tokens).reverse
    | _ => none

end SymbolicVM.Json

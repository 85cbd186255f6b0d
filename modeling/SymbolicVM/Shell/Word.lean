import SymbolicVM.Text.Split

/-!
# Words of shell scripts

A script is cut into words and operators. A word is a list of parts: text, variables, and scripts or
sums whose results are put in place. A part inside quotes is never split into several words.
-/

namespace SymbolicVM.Shell

/-- A part of a word. -/
inductive Part where
  /-- Text as it is written. -/
  | text (s : String) (isQuoted : Bool)
  /-- The value of a variable, or a default if there is none. -/
  | variable (name : String) (default : String) (isQuoted : Bool)
  /-- The output of a script. -/
  | output (script : String) (isQuoted : Bool)
  /-- The value of a sum. -/
  | sum (expression : String) (isQuoted : Bool)
deriving DecidableEq

/-- A word of a script. -/
abbrev Word := List Part

/-- A token of a script. -/
inductive Token where
  | word (w : Word)
  /-- An operator, with the number of a stream in front of it if one is given. -/
  | operator (symbol : String) (stream : Option Nat)
deriving DecidableEq

/-! ### Pieces in brackets -/

/-- The quotation that a character of a script stands in. -/
inductive Quotation where
  | none
  | single
  | double
deriving DecidableEq

/-- The quotation after a character that is not escaped. -/
def Quotation.next (c : Char) : Quotation → Quotation
  | .none => if c == '\'' then .single else if c == '"' then .double else .none
  | .single => if c == '\'' then .none else .single
  | .double => if c == '"' then .none else .double

/-- The text up to the bracket that closes it, and what follows. Brackets that are quoted or escaped
do not count. -/
def bracketed? (opening closing : Char) :
    Nat → Quotation → Bool → List Char → List Char → Option (List Char × List Char)
  | _, _, _, _, [] => none
  | depth, q, true, acc, c :: cs => bracketed? opening closing depth q false (c :: acc) cs
  | depth, q, false, acc, c :: cs =>
    if c == '\\' && q ≠ .single then bracketed? opening closing depth q true (c :: acc) cs
    else if c == closing && q = .none && depth == 0 then some (acc.reverse, cs)
    else
      let depth :=
        if q ≠ .none then depth
        else if c == opening then depth + 1
        else if c == closing then depth - 1
        else depth
      bracketed? opening closing depth (q.next c) false (c :: acc) cs

/-! ### Expansions -/

/-- Whether a character may begin the name of a variable. -/
def isNameStart (c : Char) : Bool :=
  c.isAlpha || c == '_'

/-- Whether a character may stand in the name of a variable. -/
def isNameChar (c : Char) : Bool :=
  c.isAlphanum || c == '_'

/-- The variables with a name of one special character. -/
def isSpecialName (c : Char) : Bool :=
  Text.isDigit c || c == '?' || c == '$' || c == '#' || c == '@' || c == '*' || c == '!'

/-- The part of a variable in braces. -/
def braced (body : List Char) (isQuoted : Bool) : Part :=
  let name := body.takeWhile fun c => isNameChar c || isSpecialName c
  let rest := body.drop name.length
  let default := match rest with
    | ':' :: '-' :: d => d
    | '-' :: d => d
    | _ => []
  .variable (String.ofList name) (String.ofList default) isQuoted

/-- The part after a dollar sign, and what follows it. -/
def dollar (isQuoted : Bool) (cs : List Char) : Part × List Char :=
  let literal := (Part.text "$" isQuoted, cs)
  match cs with
  | '(' :: '(' :: rest =>
    match bracketed? '(' ')' 0 .none false [] rest with
    | some (body, ')' :: after) => (.sum (String.ofList body) isQuoted, after)
    | _ =>
      match bracketed? '(' ')' 0 .none false [] ('(' :: rest) with
      | some (body, after) => (.output (String.ofList body) isQuoted, after)
      | none => literal
  | '(' :: rest =>
    match bracketed? '(' ')' 0 .none false [] rest with
    | some (body, after) => (.output (String.ofList body) isQuoted, after)
    | none => literal
  | '{' :: rest =>
    match bracketed? '{' '}' 0 .none false [] rest with
    | some (body, after) => (braced body isQuoted, after)
    | none => literal
  | c :: rest =>
    if isNameStart c then
      let name := cs.takeWhile isNameChar
      (.variable (String.ofList name) "" isQuoted, cs.drop name.length)
    else if isSpecialName c then (.variable c.toString "" isQuoted, rest)
    else literal
  | [] => literal

/-! ### Words -/

/-- Adds a character to the text at the end of a word. The parts are reversed. -/
def addChar (c : Char) (isQuoted : Bool) : Word → Word
  | .text s q :: rest => if q = isQuoted then .text (s.push c) q :: rest
    else .text c.toString isQuoted :: .text s q :: rest
  | w => .text c.toString isQuoted :: w

/-- Whether a character ends a word outside of quotes. -/
def endsWord (c : Char) : Bool :=
  c == ' ' || c == '\t' || c == '\n' || c == ';' || c == '&' || c == '|' || c == '<' || c == '>' ||
    c == '(' || c == ')'

/-- Reads the rest of a word. The parts read so far are reversed. -/
def word? : Nat → Quotation → Word → List Char → Option (Word × List Char)
  | 0, _, _, _ => none
  | fuel + 1, q, acc, cs =>
    match q, cs with
    | .none, [] => some (acc.reverse, [])
    | _, [] => none
    | .single, '\'' :: rest => word? fuel .none acc rest
    | .single, c :: rest => word? fuel .single (addChar c true acc) rest
    | .double, '"' :: rest => word? fuel .none acc rest
    | .double, '\\' :: c :: rest =>
      if ['$', '`', '"', '\\'].contains c then word? fuel .double (addChar c true acc) rest
      else if c == '\n' then word? fuel .double acc rest
      else word? fuel .double (addChar c true (addChar '\\' true acc)) rest
    | .none, '\\' :: '\n' :: rest => word? fuel .none acc rest
    | .none, '\\' :: c :: rest => word? fuel .none (addChar c true acc) rest
    | .none, '\'' :: rest => word? fuel .single (.text "" true :: acc) rest
    | .none, '"' :: rest => word? fuel .double (.text "" true :: acc) rest
    | q, '$' :: rest =>
      let (part, rest) := dollar (q = .double) rest
      word? fuel q (part :: acc) rest
    | q, '`' :: rest =>
      match Text.splitOnce '`' rest with
      | some (body, rest) => word? fuel q (.output (String.ofList body) (q = .double) :: acc) rest
      | none => none
    | .none, c :: rest =>
      if endsWord c then some (acc.reverse, cs) else word? fuel .none (addChar c false acc) rest
    | .double, c :: rest => word? fuel .double (addChar c true acc) rest

/-! ### Tokens -/

/-- The operators, longer ones first. -/
def operators : List String :=
  ["&&", "||", ">>", ">&", "<&", ";", "&", "|", "(", ")", "<", ">", "\n"]

/-- The operator at the start of a text, and what follows it. -/
def operator? (cs : List Char) : Option (String × List Char) :=
  operators.findSome? fun op => (Text.dropHead? op.toList cs).map fun rest => (op, rest)

/-- Whether an operator leads a stream to or from somewhere. -/
def isRedirection (symbol : String) : Bool :=
  [">>", ">&", "<&", "<", ">"].contains symbol

/-- The number of a stream right in front of a redirection, and the text from the redirection on. -/
def streamNumber? (cs : List Char) : Option (Nat × String × List Char) := do
  let digits := cs.takeWhile Text.isDigit
  if digits.isEmpty then none
  else
    let (symbol, rest) ← operator? (cs.drop digits.length)
    if isRedirection symbol then
      some (digits.foldl (fun n c => 10 * n + (c.toNat - '0'.toNat)) 0, symbol, rest)
    else none

/-- The tokens of a script. -/
def tokens? : Nat → List Char → Option (List Token)
  | 0, _ => none
  | fuel + 1, cs => do
    match cs.dropWhile fun c => c == ' ' || c == '\t' with
    | [] => return []
    | '#' :: rest => tokens? fuel (rest.dropWhile fun c => c != '\n')
    | '\\' :: '\n' :: rest => tokens? fuel rest
    | rest =>
      match streamNumber? rest with
      | some (n, symbol, rest) => return .operator symbol (some n) :: (← tokens? fuel rest)
      | none =>
        match operator? rest with
        | some (symbol, rest) => return .operator symbol none :: (← tokens? fuel rest)
        | none =>
          let (w, rest) ← word? (rest.length + 1) .none [] rest
          return .word w :: (← tokens? fuel rest)

end SymbolicVM.Shell

import SymbolicVM.Text.Numeral

/-!
# Sums in shell scripts

Whole numbers with the usual operators and their precedence. A name stands for the number in its
variable, or for zero.
-/

namespace SymbolicVM.Shell.Sum

/-- A token of a sum. -/
inductive Token where
  | number (n : Int)
  | name (s : String)
  | symbol (s : String)
deriving DecidableEq

/-- The operators, longer ones first. -/
def symbols : List String :=
  ["<=", ">=", "==", "!=", "&&", "||", "+", "-", "*", "/", "%", "<", ">", "(", ")", "!"]

/-- The tokens of a sum. -/
def tokens? : Nat → List Char → Option (List Token)
  | 0, _ => none
  | fuel + 1, cs => do
    let cs := match cs.dropWhile fun c => c == ' ' || c == '\t' || c == '\n' with
      | '$' :: rest => rest
      | rest => rest
    match cs with
    | [] => return []
    | c :: _ =>
      if Text.isDigit c then
        let digits := cs.takeWhile Text.isDigit
        let n ← Text.digits? digits
        return .number n :: (← tokens? fuel (cs.drop digits.length))
      else if c.isAlpha || c == '_' then
        let name := cs.takeWhile fun c => c.isAlphanum || c == '_'
        return .name (String.ofList name) :: (← tokens? fuel (cs.drop name.length))
      else
        let (s, rest) ← symbols.findSome? fun s =>
          (Text.dropHead? s.toList cs).map fun rest => (s, rest)
        return .symbol s :: (← tokens? fuel rest)

/-- The operators of each precedence, the weakest first. -/
def levels : List (List String) :=
  [["||"], ["&&"], ["==", "!="], ["<", ">", "<=", ">="], ["+", "-"], ["*", "/", "%"]]

/-- The number of a truth value. -/
def ofBool (b : Bool) : Int :=
  if b then 1 else 0

/-- Applies an operator. Division by zero has no value. -/
def operate? (s : String) (a b : Int) : Option Int :=
  match s with
  | "||" => some (ofBool (a != 0 || b != 0))
  | "&&" => some (ofBool (a != 0 && b != 0))
  | "==" => some (ofBool (a == b))
  | "!=" => some (ofBool (a != b))
  | "<" => some (ofBool (a < b))
  | ">" => some (ofBool (b < a))
  | "<=" => some (ofBool (a ≤ b))
  | ">=" => some (ofBool (b ≤ a))
  | "+" => some (a + b)
  | "-" => some (a - b)
  | "*" => some (a * b)
  | "/" => if b = 0 then none else some (a.tdiv b)
  | "%" => if b = 0 then none else some (a.tmod b)
  | _ => none

mutual

/-- The value of a sum of operators of the given precedences, and the tokens after it. -/
def level? (value : String → Int) : Nat → List (List String) → List Token →
    Option (Int × List Token)
  | 0, _, _ => none
  | fuel + 1, [], tokens => atom? value fuel tokens
  | fuel + 1, ops :: tighter, tokens => do
    let (first, rest) ← level? value fuel tighter tokens
    continue? value fuel ops tighter first rest

/-- Goes on with operators of one precedence after a first operand. -/
def continue? (value : String → Int) : Nat → List String → List (List String) → Int → List Token →
    Option (Int × List Token)
  | 0, _, _, _, _ => none
  | fuel + 1, ops, tighter, acc, tokens =>
    match tokens with
    | .symbol s :: rest =>
      if ops.contains s then do
        let (next, rest) ← level? value fuel tighter rest
        continue? value fuel ops tighter (← operate? s acc next) rest
      else some (acc, tokens)
    | _ => some (acc, tokens)

/-- The value of a number, a name, or a sum with a sign or in brackets. -/
def atom? (value : String → Int) : Nat → List Token → Option (Int × List Token)
  | 0, _ => none
  | fuel + 1, tokens =>
    match tokens with
    | .number n :: rest => some (n, rest)
    | .name s :: rest => some (value s, rest)
    | .symbol "-" :: rest => (atom? value fuel rest).map fun (n, rest) => (-n, rest)
    | .symbol "+" :: rest => atom? value fuel rest
    | .symbol "!" :: rest => (atom? value fuel rest).map fun (n, rest) => (ofBool (n == 0), rest)
    | .symbol "(" :: rest => do
      let (n, rest) ← level? value fuel levels rest
      match rest with
      | .symbol ")" :: rest => some (n, rest)
      | _ => none
    | _ => none

end

/-- The value of a sum. -/
def eval? (value : String → Int) (text : String) : Option Int := do
  let tokens ← tokens? (text.length + 1) text.toList
  if tokens.isEmpty then some 0
  else
    let (n, rest) ← level? value (12 * tokens.length + 12) levels tokens
    if rest.isEmpty then some n else none

end SymbolicVM.Shell.Sum

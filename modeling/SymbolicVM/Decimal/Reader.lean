import SymbolicVM.Text.Numeral

/-!
# Reading floating-point numbers

A decimal text denotes the nearest floating-point number, infinite when it is too large. The words
for infinity and for the undefined number are read in any case of letters.
-/

namespace SymbolicVM.Decimal

/-- The undefined number. -/
def undefined : Float := 0.0 / 0.0

/-- Positive infinity. -/
def infinity : Float := 1.0 / 0.0

/-- The number nearest to `digits * 10 ^ exponent`. Far outside the range of finite numbers the
answer is known without computing the power. -/
def nearest (digits : Nat) (exponent : Int) : Float :=
  let size : Int := (toString digits).length + exponent
  if digits = 0 then 0.0
  else if 400 < size then infinity
  else if size < -400 then 0.0
  else if 0 ≤ exponent then Float.ofScientific digits false exponent.toNat
  else Float.ofScientific digits true (-exponent).toNat

/-- Reads an exponent: an optional sign and at least one digit. -/
def exponent? (cs : List Char) : Option Int :=
  Text.int? cs

/-- Reads an unsigned decimal: digits with an optional point, at least one digit in all, and an
optional exponent. -/
def magnitude? (cs : List Char) : Option Float :=
  let whole := cs.takeWhile Text.isDigit
  let afterWhole := cs.dropWhile Text.isDigit
  let (fraction, afterFraction) := match afterWhole with
    | '.' :: rest => (rest.takeWhile Text.isDigit, rest.dropWhile Text.isDigit)
    | _ => ([], afterWhole)
  if whole.isEmpty && fraction.isEmpty then none
  else
    let digits := Text.digitsValue 0 (whole ++ fraction)
    let places : Int := fraction.length
    match afterFraction with
    | [] => some (nearest digits (-places))
    | c :: rest =>
      if c = 'e' ∨ c = 'E' then (exponent? rest).map fun e => nearest digits (e - places) else none

/-- Reads the name of a number that is not finite. -/
def named? (cs : List Char) : Option Float :=
  match cs.map Char.toLower with
  | ['i', 'n', 'f'] => some infinity
  | ['i', 'n', 'f', 'i', 'n', 'i', 't', 'y'] => some infinity
  | ['n', 'a', 'n'] => some undefined
  | _ => none

/-- Reads a signed decimal or the name of a number that is not finite. -/
def float? (cs : List Char) : Option Float :=
  let unsigned? (body : List Char) : Option Float := (magnitude? body).or (named? body)
  match cs with
  | '-' :: body => (unsigned? body).map fun x => -x
  | '+' :: body => unsigned? body
  | _ => unsigned? cs

end SymbolicVM.Decimal

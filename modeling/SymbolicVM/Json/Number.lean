import SymbolicVM.Json.Basic
import SymbolicVM.Text.Numeral

/-!
# Numbers in documents

A number without point and exponent is a whole number if it fits 64 bits; every other number is a
floating-point number. Its digits are gathered into one unsigned 64-bit significand, further digits
only shift the exponent or are dropped, and the significand is then scaled by a power of ten in
floating-point arithmetic. So a number of up to fifteen digits and a moderate exponent is read
exactly, and a longer one may be off in the last place. A number too large for the floating-point
range is refused.
-/

namespace SymbolicVM.Json

/-- Adds digits to a significand as long as it stays below `2 ^ 64`. Returns the significand and how
many digits it took. -/
def absorb (significand : Nat) : List Char → Nat × Nat
  | [] => (significand, 0)
  | c :: cs =>
    let next := 10 * significand + Text.digitValue c
    if next < UInt64.size then
      let (s, taken) := absorb next cs
      (s, taken + 1)
    else (significand, 0)

/-- The floating-point power of ten, for exponents up to 308. -/
def powerOfTen (n : Nat) : Float :=
  Float.ofScientific 1 false n

/-- Divides by `10 ^ n`, in steps of at most 308 places. -/
def scaleDown (x : Float) (n : Nat) : Float :=
  if n ≤ 308 then x / powerOfTen n
  else if x == 0.0 then x
  else scaleDown (x / powerOfTen 308) (n - 308)
termination_by n

/-- The number `significand * 10 ^ exponent` in floating-point arithmetic, if it is finite. -/
def scaled? (significand : Nat) (exponent : Int) : Option Float :=
  let x := significand.toUInt64.toFloat
  if exponent < 0 then some (scaleDown x (-exponent).toNat)
  else if exponent ≤ 308 then
    let y := x * powerOfTen exponent.toNat
    if y.isInf then none else some y
  else if x == 0.0 then some x
  else none

/-- Scales a significand by a written exponent. An exponent beyond 31 bits gives zero, or no number
at all when it is positive and the significand is not zero. -/
def scaledByText? (significand : Nat) (exponent : Int) (written : List Char) : Option Float :=
  let (negative, digits) := match written with
    | '-' :: rest => (true, rest)
    | '+' :: rest => (false, rest)
    | _ => (false, written)
  (Text.digits? digits).bind fun e =>
    if 1 <<< 31 ≤ e then (if significand = 0 ∨ negative then some 0.0 else none)
    else scaled? significand (if negative then exponent - e else exponent + e)

/-- Applies a sign to a floating-point number. -/
def signed (negative : Bool) (x : Float) : Json :=
  .float (if negative then -x else x)

/-- The whole number of a sign and digits, or a floating-point number if there is no such 64-bit
word. Minus zero is a floating-point number. -/
def ofSignificand (negative : Bool) (significand : Nat) : Json :=
  if negative then
    if 0 < significand ∧ significand ≤ 1 <<< 63 then .int (-significand)
    else .float (-significand.toUInt64.toFloat)
  else .int significand

/-- Reads the part of a number after its sign. -/
def unsigned? (negative : Bool) (cs : List Char) : Option Json :=
  let whole := cs.takeWhile Text.isDigit
  let rest := cs.dropWhile Text.isDigit
  let leadingZero := match whole with
    | '0' :: _ :: _ => true
    | _ => false
  if whole.isEmpty || leadingZero then none
  else
    let (significand, taken) := absorb 0 whole
    let dropped : Int := whole.length - taken
    match rest with
    | [] =>
      if dropped = 0 then some (ofSignificand negative significand)
      else (scaled? significand dropped).map (signed negative)
    | '.' :: rest =>
      let fraction := rest.takeWhile Text.isDigit
      if fraction.isEmpty then none
      else
        let (significand, taken) := absorb significand fraction
        let exponent := dropped - taken
        match rest.dropWhile Text.isDigit with
        | [] => (scaled? significand exponent).map (signed negative)
        | c :: written =>
          if c = 'e' ∨ c = 'E' then
            (scaledByText? significand exponent written).map (signed negative)
          else none
    | c :: written =>
      if c = 'e' ∨ c = 'E' then
        (scaledByText? significand dropped written).map (signed negative)
      else none

/-- Reads a whole text as a number. -/
def number? (cs : List Char) : Option Json :=
  match cs with
  | '-' :: rest => unsigned? true rest
  | _ => unsigned? false cs

end SymbolicVM.Json

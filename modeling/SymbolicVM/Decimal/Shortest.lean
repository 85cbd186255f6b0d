/-!
# The fewest digits that read back

A positive floating-point number stands for an interval of reals: those that round to it. The
shortest decimal of the number is the multiple of the largest power of ten that lies in this
interval, and of two such multiples the one nearer to the number, the even one if both are equally
near. Everything is decided by exact arithmetic on natural numbers.
-/

namespace SymbolicVM.Decimal

/-- A non-negative number `mantissa * 2 ^ exponent`. -/
structure Binary where
  mantissa : Nat
  exponent : Int
  /-- The next smaller number is half as far away as the next larger one. -/
  narrowBelow : Bool

/-- The magnitude of the double-precision number with the given 63 low bits. -/
def Binary.ofBits (bits : Nat) : Binary :=
  let field : Nat := (bits >>> 52) % (1 <<< 11)
  let fraction : Nat := bits % (1 <<< 52)
  if field = 0 then ⟨fraction, -1074, false⟩
  else ⟨(1 <<< 52) + fraction, (field : Int) - 1075, fraction = 0 && field ≠ 1⟩

/-- The decimal number `digits * 10 ^ exponent`. -/
structure Digits where
  digits : Nat
  exponent : Int
deriving DecidableEq, Repr

/-- Numerator and denominator of `2 ^ (exponent - 2) / 10 ^ k`, a quarter of the last binary place
measured on the grid of multiples of `10 ^ k`. -/
def quarterOnGrid (exponent k : Int) : Nat × Nat :=
  (Nat.pow 2 (exponent - 2).toNat * Nat.pow 10 (-k).toNat,
    Nat.pow 2 (2 - exponent).toNat * Nat.pow 10 k.toNat)

/-- The multiple of `10 ^ k` that reads back as the number and is nearest to it, if there is one.
The ends of the interval belong to it exactly when the mantissa is even. -/
def Binary.onGrid? (b : Binary) (k : Int) : Option Nat :=
  let (num, den) := quarterOnGrid b.exponent k
  let low := (4 * b.mantissa - (if b.narrowBelow then 1 else 2)) * num
  let mid := 4 * b.mantissa * num
  let high := (4 * b.mantissa + 2) * num
  let inside (d : Nat) : Bool :=
    if b.mantissa % 2 = 0 then low ≤ d * den && d * den ≤ high
    else low < d * den && d * den < high
  let d := mid / den
  match inside d, inside (d + 1) with
  | true, true =>
    if 2 * mid < (2 * d + 1) * den then some d
    else if (2 * d + 1) * den < 2 * mid then some (d + 1)
    else some (if d % 2 = 0 then d else d + 1)
  | true, false => some d
  | false, true => some (d + 1)
  | false, false => none

/-- Searches ever finer grids, `fuel` of them, starting with that of `10 ^ k`. -/
def Binary.searchFrom (b : Binary) : Nat → Int → Digits
  | 0, k => let (num, den) := quarterOnGrid b.exponent k; ⟨4 * b.mantissa * num / den, k⟩
  | fuel + 1, k =>
    match b.onGrid? k with
    | some d => ⟨d, k⟩
    | none => b.searchFrom fuel (k - 1)

/-- A power of ten above the number: `30103 / 100000` is just above the logarithm of two. -/
def Binary.firstGrid (b : Binary) : Int :=
  ((Nat.log2 b.mantissa : Int) + b.exponent + 1) * 30103 / 100000 + 1

/-- The shortest decimal that reads back as the number. Seventeen digits always suffice, so twenty
grids below the first one are enough. -/
def Binary.shortest (b : Binary) : Digits :=
  b.searchFrom 20 b.firstGrid

end SymbolicVM.Decimal

import SymbolicVM.Text.Split

/-!
# Decimal numerals

Reading and writing of whole numbers in a fixed range. A numeral is an optional sign and at least
one digit; leading zeros are allowed. A number outside its range is refused, never wrapped.
-/

namespace SymbolicVM.Text

/-- The value of a digit. -/
def digitValue (c : Char) : Nat :=
  c.toNat - '0'.toNat

/-- The number that a list of digits denotes, continuing from `n`. -/
def digitsValue (n : Nat) (cs : List Char) : Nat :=
  cs.foldl (fun acc c => 10 * acc + digitValue c) n

/-- Reads a non-empty list of digits. -/
def digits? (cs : List Char) : Option Nat :=
  if cs.isEmpty || !cs.all isDigit then none else some (digitsValue 0 cs)

/-- Reads a number below `bound`; a plus sign may precede the digits. -/
def natBelow? (bound : Nat) (cs : List Char) : Option Nat :=
  let body := match cs with
    | '+' :: rest => rest
    | _ => cs
  (digits? body).filter (fun n => n < bound)

/-- Reads a signed number, without a bound. -/
def int? (cs : List Char) : Option Int :=
  match cs with
  | '-' :: rest => (digits? rest).map fun n => -(n : Int)
  | '+' :: rest => (digits? rest).map fun n => (n : Int)
  | _ => (digits? cs).map fun n => (n : Int)

/-- The 64-bit word of a whole number, if it has one. -/
def word? (i : Int) : Option Int64 :=
  if -0x8000000000000000 ≤ i ∧ i < 0x8000000000000000 then some (Int64.ofInt i) else none

/-- Reads a number that fits a signed 64-bit word. -/
def int64? (cs : List Char) : Option Int64 :=
  (int? cs).bind word?

/-- Reads a number that fits an unsigned 64-bit word. -/
def nat64? (cs : List Char) : Option Nat :=
  natBelow? UInt64.size cs

/-- Reads a number that fits an unsigned 32-bit word. -/
def word32? (cs : List Char) : Option UInt32 :=
  (natBelow? UInt32.size cs).map Nat.toUInt32

/-- The numeral of a signed 64-bit word. -/
def ofInt64 (i : Int64) : String :=
  toString i.toInt

/-- The number after `head` in a name such as `sym_12`, if it fits an unsigned 64-bit word. -/
def numericSuffix? (head name : String) : Option Nat :=
  (dropHead? head.toList name.toList).bind nat64?

/-! ### Words are exact -/

/-- A word stands for the number that it was made from. -/
theorem toInt_of_word? {i : Int} {w : Int64} (h : word? i = some w) : w.toInt = i := by
  unfold word? at h
  split at h
  next hb =>
    simp only [Option.some.injEq] at h
    subst h
    rw [Int64.toInt_ofInt]
    exact Int.bmod_eq_of_le (by simp only [Int64.size]; omega) (by simp only [Int64.size]; omega)
  · contradiction

/-- A number has a word exactly when it lies in the range of signed 64-bit words. -/
theorem word?_isSome_iff {i : Int} :
    (word? i).isSome ↔ -0x8000000000000000 ≤ i ∧ i < 0x8000000000000000 := by
  unfold word?
  split <;> simp_all

/-- The number that a word stands for has this word. -/
theorem word?_toInt (w : Int64) : word? w.toInt = some w := by
  have hlower := Int64.le_toInt w
  have hupper := Int64.toInt_lt w
  unfold word?
  rw [if_pos ⟨by omega, by omega⟩, Int64.ofInt_toInt]

end SymbolicVM.Text

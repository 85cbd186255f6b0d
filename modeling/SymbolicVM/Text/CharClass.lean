/-!
# Character classes given by ranges of code points

A class is a list of closed ranges in increasing order. Membership walks the list and stops at the
first range that begins after the character, so ASCII characters are settled by the first few
ranges. Blank characters are the 25 code points with the Unicode property White_Space.
-/

namespace SymbolicVM.Text

/-- Whether the code point lies in one of the ranges, which are closed and in increasing order. -/
def inRanges (n : Nat) : List (Nat × Nat) → Bool
  | [] => false
  | (lo, hi) :: rest => if n < lo then false else if n ≤ hi then true else inRanges n rest

/-- The code points with the property White_Space. -/
def blankRanges : List (Nat × Nat) :=
  [(0x9, 0xD), (0x20, 0x20), (0x85, 0x85), (0xA0, 0xA0), (0x1680, 0x1680), (0x2000, 0x200A),
    (0x2028, 0x2029), (0x202F, 0x202F), (0x205F, 0x205F), (0x3000, 0x3000)]

/-- A character that separates words and is trimmed from the ends of a text. -/
def isBlank (c : Char) : Bool :=
  inRanges c.toNat blankRanges

/-- An ASCII decimal digit. -/
def isDigit (c : Char) : Bool :=
  '0' ≤ c && c ≤ '9'

/-- A character is in the class of a list of ranges as soon as one of them contains it, provided
that the ranges before it end below the character. -/
theorem inRanges_cons_of_gt {n lo hi : Nat} (rest : List (Nat × Nat)) (h : hi < n) (hle : lo ≤ n) :
    inRanges n ((lo, hi) :: rest) = inRanges n rest := by
  simp [inRanges, Nat.not_lt.mpr hle, Nat.not_le.mpr h]

end SymbolicVM.Text

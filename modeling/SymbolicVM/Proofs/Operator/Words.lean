import SymbolicVM.Proofs.Except
import SymbolicVM.Engine.Builtin
import Mathlib.Data.Int.Init
import Mathlib.Tactic.SplitIfs
import Mathlib.Tactic.Linarith

/-!
# Machine words

The operators are defined on whole numbers and ask at the end whether the result fits a word. A
machine computes in words all the way. Some of its operations are checked and say so when there is
no result; the plain ones have no such answer, and where the result leaves the word, a divisor is
zero or a position is outside, the machine cannot go on. `Words` has these plain operations, which
fail with an overflow, and what a machine computes with them: the quotient rounded down and its
remainder from the truncated ones, and shifts. These are shown to be what the whole numbers give and
never to fail (`Words.floorDiv_eq`, `Words.mod_eq`, `Words.shl_eq`, `Words.shr_eq`).
-/

namespace SymbolicVM

namespace Words

/-! ### Plain operations -/

/-- The word of a result, which must fit. -/
def ofInt (i : Int) : Except Overflow Int64 :=
  match Text.word? i with
  | some w => .ok w
  | none => .error .overflow

def add (a b : Int64) : Except Overflow Int64 :=
  ofInt (a.toInt + b.toInt)

def sub (a b : Int64) : Except Overflow Int64 :=
  ofInt (a.toInt - b.toInt)

def mul (a b : Int64) : Except Overflow Int64 :=
  ofInt (a.toInt * b.toInt)

/-- The remainder of the truncated quotient, which must fit a word itself. -/
def rem (a b : Int64) : Except Overflow Int64 :=
  if b.toInt = 0 then .error .overflow
  else do
    let _ ← ofInt (a.toInt.tdiv b.toInt)
    ofInt (a.toInt.tmod b.toInt)

/-- A shift to the right by fewer places than a word has. -/
def shiftRight (a : Int64) (n : Nat) : Except Overflow Int64 :=
  if n < 64 then .ok (Int64.ofInt (a.toInt.fdiv (Int.pow 2 n))) else .error .overflow

/-- The product of two lengths. -/
def mulLength (m n : Nat) : Except Overflow Nat :=
  if m * n < UInt64.size then .ok (m * n) else .error .overflow

/-- The quotient of two lengths, rounded up. -/
def divCeil (m n : Nat) : Except Overflow Nat :=
  if n = 0 then .error .overflow else .ok (m / n + if m % n = 0 then 0 else 1)

/-- The item at a position. -/
def get {α : Type} (items : List α) (n : Nat) : Except Overflow α :=
  match items[n]? with
  | some a => .ok a
  | none => .error .overflow

/-- The items from one position on up to another. -/
def slice {α : Type} (items : List α) (first last : Nat) : Except Overflow (List α) :=
  if first ≤ last ∧ last ≤ items.length then .ok ((items.take last).drop first)
  else .error .overflow

/-! ### Checked operations -/

/-- The truncated quotient, if there is one. -/
def checkedDiv (a b : Int64) : Option Int64 :=
  if b.toInt = 0 then none else Text.word? (a.toInt.tdiv b.toInt)

/-- The remainder of the truncated quotient, if there is one. -/
def checkedRem (a b : Int64) : Option Int64 :=
  (checkedDiv a b).bind fun _ => Text.word? (a.toInt.tmod b.toInt)

/-- The product of two lengths, or the greatest length if that is less. -/
def saturatingMul (m n : Nat) : Nat :=
  min (m * n) (UInt64.size - 1)

/-! ### Words and whole numbers -/

/-- The number fits a word. -/
def Fits (i : Int) : Prop :=
  -0x8000000000000000 ≤ i ∧ i < 0x8000000000000000

theorem bounds (a : Int64) : -0x8000000000000000 ≤ a.toInt ∧ a.toInt < 0x8000000000000000 := by
  have hle := a.le_toInt
  have hlt := a.toInt_lt
  norm_num at hle hlt
  exact ⟨hle, hlt⟩

theorem word?_eq {i : Int} (h : -0x8000000000000000 ≤ i ∧ i < 0x8000000000000000) :
    Text.word? i = some (Int64.ofInt i) :=
  if_pos h

theorem toInt_ofInt {i : Int} (h : -0x8000000000000000 ≤ i ∧ i < 0x8000000000000000) :
    (Int64.ofInt i).toInt = i :=
  Text.toInt_of_word? (word?_eq h)

theorem ofInt_eq {i : Int} (h : -0x8000000000000000 ≤ i ∧ i < 0x8000000000000000) :
    ofInt i = .ok (Int64.ofInt i) := by
  unfold ofInt
  rw [word?_eq h]

theorem ofInt_of_word? {i : Int} {w : Int64} (h : Text.word? i = some w) : ofInt i = .ok w := by
  unfold ofInt
  rw [h]

theorem ofInt_map_some {i : Int} (h : -0x8000000000000000 ≤ i ∧ i < 0x8000000000000000) :
    (ofInt i).map some = .ok (Text.word? i) := by
  rw [ofInt_eq h, word?_eq h]
  rfl

theorem slice_length {α : Type} {items : List α} {n : Nat} (h : n ≤ items.length) :
    slice items n items.length = .ok (items.drop n) := by
  unfold slice
  rw [if_pos ⟨h, Nat.le_refl _⟩, List.take_length]

/-! ### The quotient rounded down -/

/-- The quotient rounded down, from the truncated one. -/
def floorDiv (a b : Int64) : Except Overflow (Option Int64) :=
  match checkedDiv a b with
  | none => .ok none
  | some q => do
    let r ← rem a b
    if r.toInt ≠ 0 ∧ ¬ (a.toInt < 0 ↔ b.toInt < 0) then (sub q 1).map some else .ok (some q)

/-- The remainder of the quotient rounded down, from that of the truncated one. -/
def mod (a b : Int64) : Except Overflow (Option Int64) :=
  match checkedRem a b with
  | none => .ok none
  | some r =>
    if r.toInt ≠ 0 ∧ ¬ (r.toInt < 0 ↔ b.toInt < 0) then (add r b).map some else .ok (some r)

section Quotient

variable {a b : Int}

/-- The quotient rounded down is the truncated one, or one less where that is not exact and the
signs differ. -/
theorem fdiv_eq_tdiv (hb : b ≠ 0) :
    a.fdiv b = if a.tmod b ≠ 0 ∧ ¬ (a < 0 ↔ b < 0) then a.tdiv b - 1 else a.tdiv b := by
  have hdvd : b ∣ a ↔ a.tmod b = 0 := Int.dvd_iff_tmod_eq_zero
  rw [Int.fdiv_eq_tdiv]
  by_cases hrem : a.tmod b = 0
  · simp [hdvd, hrem]
  · rw [if_neg (mt hdvd.mp hrem)]
    rcases Int.lt_or_gt_of_ne hb with hneg | hpos
    · have hsign : b.sign = -1 := Int.sign_eq_neg_one_of_neg hneg
      split_ifs <;> omega
    · have hsign : b.sign = 1 := Int.sign_eq_one_of_pos hpos
      split_ifs <;> omega

/-- A remainder of the truncated quotient has the sign of the dividend. -/
theorem tmod_neg_iff (h : a.tmod b ≠ 0) : a.tmod b < 0 ↔ a < 0 := by
  constructor
  · intro hneg
    by_contra hge
    have hnonneg := Int.tmod_nonneg b (Int.not_lt.mp hge)
    omega
  · intro hneg
    have hopposite := Int.tmod_nonneg b (a := -a) (by omega)
    rw [Int.neg_tmod] at hopposite
    omega

/-- The remainder of the quotient rounded down has the sign of the divisor. -/
theorem fmod_eq_tmod (a b : Int) :
    a.fmod b = if a.tmod b ≠ 0 ∧ ¬ (a.tmod b < 0 ↔ b < 0) then a.tmod b + b else a.tmod b := by
  have hdvd : b ∣ a ↔ a.tmod b = 0 := Int.dvd_iff_tmod_eq_zero
  rw [Int.fmod_eq_tmod]
  by_cases hrem : a.tmod b = 0
  · simp [hdvd, hrem]
  · have hsign := tmod_neg_iff hrem
    rw [if_neg (mt hdvd.mp hrem)]
    split_ifs <;> omega

theorem natAbs_tmod_lt (hb : b ≠ 0) : (a.tmod b).natAbs < b.natAbs := by
  rw [Int.natAbs_tmod]
  exact Nat.mod_lt _ (Int.natAbs_pos.mpr hb)

/-- A quotient that is not exact is at most half the dividend, so there is room below it. -/
theorem two_mul_natAbs_tdiv_le (hrem : a.tmod b ≠ 0) : 2 * (a.tdiv b).natAbs ≤ a.natAbs := by
  have hquotient : (a.tdiv b).natAbs = a.natAbs / b.natAbs := Int.natAbs_tdiv a b
  rw [hquotient]
  by_cases hb : b = 0
  · simp [hb]
  have htwo : 2 ≤ b.natAbs := by
    have hlt := natAbs_tmod_lt (a := a) hb
    have hpos : 0 < (a.tmod b).natAbs := Int.natAbs_pos.mpr hrem
    omega
  calc 2 * (a.natAbs / b.natAbs) ≤ b.natAbs * (a.natAbs / b.natAbs) := Nat.mul_le_mul_right _ htwo
    _ ≤ a.natAbs := Nat.mul_div_le _ _

end Quotient

/-- Where there is a truncated quotient, the plain remainder has a result. -/
theorem rem_of_checkedDiv {a b q : Int64} (h : checkedDiv a b = some q) :
    b.toInt ≠ 0 ∧ q.toInt = a.toInt.tdiv b.toInt ∧
      ∃ r, rem a b = .ok r ∧ r.toInt = a.toInt.tmod b.toInt ∧ checkedRem a b = some r := by
  have hdiv := h
  unfold checkedDiv at hdiv
  split_ifs at hdiv with hb
  have hrange : -0x8000000000000000 ≤ a.toInt.tmod b.toInt ∧
      a.toInt.tmod b.toInt < 0x8000000000000000 := by
    have hlt := natAbs_tmod_lt (a := a.toInt) hb
    have hbounds := bounds b
    omega
  refine ⟨hb, Text.toInt_of_word? hdiv, _, ?_, toInt_ofInt hrange, ?_⟩
  · unfold rem
    rw [if_neg hb, ofInt_of_word? hdiv, ok_bind, ofInt_eq hrange]
  · unfold checkedRem
    rw [h, Option.bind_some, word?_eq hrange]

/-- The quotient rounded down fits a word exactly if the truncated one does: they differ only where
both are far from the ends of the range. -/
theorem word?_fdiv_eq_none_iff {a b : Int64} (hb : b.toInt ≠ 0) :
    Text.word? (a.toInt.fdiv b.toInt) = none ↔ checkedDiv a b = none := by
  unfold checkedDiv
  rw [if_neg hb]
  by_cases hrem : a.toInt.tmod b.toInt = 0
  · rw [fdiv_eq_tdiv hb, if_neg (by simp [hrem])]
  · -- both quotients lie within half of the range, up to one
    have hhalf := two_mul_natAbs_tdiv_le hrem
    have ha := bounds a
    have htrunc := word?_eq (i := a.toInt.tdiv b.toInt) (by omega)
    have hfloor := word?_eq (i := a.toInt.fdiv b.toInt) (by
      rw [fdiv_eq_tdiv hb]
      split_ifs <;> omega)
    simp [htrunc, hfloor]

/-- **The quotient rounded down is computed without overflow.** Its plain operations are reached
only where they have a result. -/
theorem floorDiv_eq (a b : Int64) :
    floorDiv a b = .ok (if b.toInt = 0 then none else Text.word? (a.toInt.fdiv b.toInt)) := by
  unfold floorDiv
  cases hdiv : checkedDiv a b with
  | none =>
    split_ifs with hb
    · rfl
    · rw [(word?_fdiv_eq_none_iff hb).mpr hdiv]
  | some q =>
    obtain ⟨hb, hq, r, hrem, hr, -⟩ := rem_of_checkedDiv hdiv
    rw [if_neg hb, fdiv_eq_tdiv hb]
    dsimp only
    rw [hrem, ok_bind, hr]
    split_ifs with hround
    · -- rounding down takes one from a quotient that is not exact
      have hhalf := two_mul_natAbs_tdiv_le hround.1
      have ha := bounds a
      have hone : (1 : Int64).toInt = 1 := rfl
      unfold sub
      rw [hq, hone]
      exact ofInt_map_some (by omega)
    · rw [← hq, Text.word?_toInt]

/-- **So is its remainder.** -/
theorem mod_eq (a b : Int64) :
    mod a b = .ok (if b.toInt = 0 then none
      else (Text.word? (a.toInt.fdiv b.toInt)).bind fun _ =>
        Text.word? (a.toInt.fmod b.toInt)) := by
  unfold mod
  cases hdiv : checkedDiv a b with
  | none =>
    have hrem : checkedRem a b = none := by
      unfold checkedRem
      rw [hdiv]
      rfl
    rw [hrem]
    split_ifs with hb
    · rfl
    · rw [(word?_fdiv_eq_none_iff hb).mpr hdiv]
      rfl
  | some q =>
    obtain ⟨hb, -, r, -, hr, hrem⟩ := rem_of_checkedDiv hdiv
    have hfits : Text.word? (a.toInt.fdiv b.toInt) ≠ none := by
      rw [Ne, word?_fdiv_eq_none_iff hb, hdiv]
      simp
    obtain ⟨w, hw⟩ := Option.ne_none_iff_exists'.mp hfits
    rw [hrem, if_neg hb, hw, Option.bind_some, fmod_eq_tmod, ← hr]
    dsimp only
    split_ifs with hround
    · -- the signs differ, so the sum lies between the two
      have hlt := natAbs_tmod_lt (a := a.toInt) hb
      have hbounds := bounds b
      unfold add
      exact ofInt_map_some (by omega)
    · rw [Text.word?_toInt]

/-! ### Shifts -/

/-- A shift to the left, if no bit is lost: shifting back must give the number again. -/
def shl (a : Int64) (n : Nat) : Except Overflow (Option Int64) := do
  let v := Int64.ofInt (a.toInt * Int.pow 2 n)
  let back ← shiftRight v n
  return if back = a then some v else none

/-- A shift to the right. -/
def shr (a : Int64) (n : Nat) : Except Overflow (Option Int64) :=
  (shiftRight a n).map some

theorem two_pow_pos (n : Nat) : 0 < Int.pow 2 n :=
  Int.pow_pos (n := 2) (by decide)

/-- Dividing by a positive number stays in the range. -/
theorem fdiv_bounds {i p : Int} (hp : 0 < p)
    (h : -0x8000000000000000 ≤ i ∧ i < 0x8000000000000000) :
    -0x8000000000000000 ≤ i.fdiv p ∧ i.fdiv p < 0x8000000000000000 := by
  rw [Int.fdiv_eq_ediv_of_nonneg i (Int.le_of_lt hp)]
  by_cases hi : 0 ≤ i
  · have hnonneg : 0 ≤ i / p := Int.ediv_nonneg hi (Int.le_of_lt hp)
    have hle : i / p ≤ i := Int.ediv_le_self p hi
    omega
  · have hneg : i / p < 0 := Int.ediv_neg_of_neg_of_pos (by omega) hp
    have hle : i ≤ i / p := by
      rw [Int.le_ediv_iff_mul_le hp]
      nlinarith
    omega

theorem toInt_shiftRight {a : Int64} {n : Nat} (hn : n < 64) :
    ∃ w, shiftRight a n = .ok w ∧ w.toInt = a.toInt.fdiv (Int.pow 2 n) := by
  unfold shiftRight
  rw [if_pos hn]
  exact ⟨_, rfl, toInt_ofInt (fdiv_bounds (two_pow_pos n) (bounds a))⟩

/-- A shifted word differs from the product by a multiple of the range, so the power divides it
still. -/
theorem exists_toInt_ofInt_mul (a : Int) {n : Nat} (hn : n < 64) :
    ∃ k, (Int64.ofInt (a * Int.pow 2 n)).toInt = k * Int.pow 2 n := by
  have hrange : Int.pow 2 n ∣ (Int64.size : Int) := pow_dvd_pow (2 : Int) (Nat.le_of_lt hn)
  have hdvd : Int.pow 2 n ∣ a * Int.pow 2 n - (a * Int.pow 2 n).bmod Int64.size :=
    Int.dvd_trans hrange Int.dvd_self_sub_bmod
  obtain ⟨k, hk⟩ := (Int.dvd_iff_dvd_of_dvd_sub hdvd).mp (Int.dvd_mul_left _ _)
  exact ⟨k, by rw [Int64.toInt_ofInt, hk, Int.mul_comm]⟩

/-- **A shift to the left is computed without overflow**, and shifting back finds out whether the
product fits a word. -/
theorem shl_eq (a : Int64) {n : Nat} (hn : n < 64) :
    shl a n = .ok (Text.word? (a.toInt * Int.pow 2 n)) := by
  have hpow : Int.pow 2 n ≠ 0 := Int.ne_of_gt (two_pow_pos n)
  obtain ⟨k, hk⟩ := exists_toInt_ofInt_mul a.toInt hn
  obtain ⟨back, hback, hval⟩ := toInt_shiftRight (a := Int64.ofInt (a.toInt * Int.pow 2 n)) hn
  rw [hk, Int.mul_fdiv_cancel _ hpow] at hval
  unfold shl
  dsimp only
  rw [hback, ok_bind]
  by_cases hfits : -0x8000000000000000 ≤ a.toInt * Int.pow 2 n ∧
      a.toInt * Int.pow 2 n < 0x8000000000000000
  · -- the product fits, so shifting back gives the word again
    have hsame : k = a.toInt := by
      rw [toInt_ofInt hfits] at hk
      exact Int.eq_of_mul_eq_mul_right hpow hk.symm
    have heq : back = a := Int64.toInt_inj.mp (hval.trans hsame)
    rw [if_pos heq, word?_eq hfits]
    rfl
  · -- shifting back can only give the word again if the product is the shifted word
    have hne : back ≠ a := by
      rintro rfl
      rw [hval, ← hk] at hfits
      exact hfits (bounds _)
    have hnone : Text.word? (a.toInt * Int.pow 2 n) = none := if_neg hfits
    rw [if_neg hne, hnone]
    rfl

theorem shr_eq (a : Int64) {n : Nat} (hn : n < 64) :
    shr a n = .ok (Text.word? (a.toInt.fdiv (Int.pow 2 n))) := by
  obtain ⟨w, hw, hval⟩ := toInt_shiftRight (a := a) hn
  unfold shr
  rw [hw, ← hval, Text.word?_toInt]
  rfl

end Words

end SymbolicVM

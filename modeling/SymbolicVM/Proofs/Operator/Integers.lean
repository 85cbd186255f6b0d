import SymbolicVM.Proofs.Operator.Evaluation
import Mathlib.Data.Rat.Floor
import Mathlib.Algebra.Ring.Parity

/-!
# Arithmetic on integers is exact or declined

On integers and truth values every arithmetic operator gives the exact result or none at all
(`BinaryOp.exact_of_integers`). Sums, differences, products, powers and shifts to the left have no
result where it does not fit a word. There is a quotient rounded down, and a remainder of it, for
every divisor but zero, with one exception: the least integer divided by minus one
(`Words.checkedDiv_eq_none_iff`). The quotient is the floor of the rational quotient
(`Words.fdiv_eq_floor`), and the remainder has the sign of the divisor.

A machine that computes the same in words reaches its plain operations only where they have a
result.
-/

namespace SymbolicVM

namespace Words

/-! ### The quotient rounded down -/

theorem fdiv_eq_floor_of_nonneg (a : Int) {b : Int} (hb : 0 ≤ b) :
    a.fdiv b = ⌊(a : ℚ) / b⌋ := by
  obtain ⟨n, rfl⟩ := Int.eq_ofNat_of_zero_le hb
  rw [Int.fdiv_eq_ediv_of_nonneg a hb, Int.cast_natCast, Rat.floor_intCast_div_natCast]

/-- The quotient rounded down is the floor of the rational quotient. -/
theorem fdiv_eq_floor (a b : Int) : a.fdiv b = ⌊(a : ℚ) / b⌋ := by
  rcases Int.le_total 0 b with hb | hb
  · exact fdiv_eq_floor_of_nonneg a hb
  · have hneg := fdiv_eq_floor_of_nonneg (-a) (Int.neg_nonneg_of_nonpos hb)
    rwa [Int.neg_fdiv_neg, Int.cast_neg, Int.cast_neg, neg_div_neg_eq] at hneg

/-- The operands of a division that has no result: the divisor is zero, or the quotient is one above
the greatest word. -/
def Indivisible (a b : Int) : Prop :=
  b = 0 ∨ (a = -0x8000000000000000 ∧ b = -1)

/-- All other truncated quotients are within the range of the dividend. -/
theorem fits_tdiv {a b : Int} (ha : Fits a) (h : ¬ Indivisible a b) : Fits (a.tdiv b) := by
  unfold Indivisible at h
  unfold Fits at ha ⊢
  by_cases hneg : b = -1
  · rw [hneg, Int.tdiv_neg, Int.tdiv_one]
    omega
  by_cases hone : b = 1
  · rw [hone, Int.tdiv_one]
    exact ha
  · -- the quotient by a number of at least two is at most half as large
    have hquotient : (a.tdiv b).natAbs = a.natAbs / b.natAbs := Int.natAbs_tdiv a b
    have hhalf : a.natAbs / b.natAbs ≤ a.natAbs / 2 := Nat.div_le_div_left (by omega) (by decide)
    omega

/-- Only the least word has a quotient that does not fit, and only by minus one. -/
theorem checkedDiv_eq_none_iff {a b : Int64} :
    checkedDiv a b = none ↔ Indivisible a.toInt b.toInt := by
  unfold checkedDiv
  constructor
  · intro hnone
    by_contra h
    rw [if_neg fun hzero => h (.inl hzero), word?_eq (fits_tdiv (bounds a) h)] at hnone
    contradiction
  · rintro (hzero | ⟨hleast, hone⟩)
    · rw [if_pos hzero]
    · rw [hleast, hone]
      rfl

/-- The remainder of the quotient rounded down is zero or has the sign of the divisor, and it is
less than the divisor. -/
theorem fmod_bounds (a : Int) {b : Int} (hb : b ≠ 0) :
    (0 < b → 0 ≤ a.fmod b ∧ a.fmod b < b) ∧ (b < 0 → b < a.fmod b ∧ a.fmod b ≤ 0) := by
  have hlt := natAbs_tmod_lt (a := a) hb
  rw [fmod_eq_tmod]
  split_ifs with hround <;> omega

theorem sign_fmod (a : Int) {b : Int} (hb : b ≠ 0) :
    a.fmod b = 0 ∨ (a.fmod b).sign = b.sign := by
  obtain ⟨hpos, hneg⟩ := fmod_bounds a hb
  by_cases hzero : a.fmod b = 0
  · exact .inl hzero
  right
  rcases Int.lt_or_gt_of_ne hb with hlt | hgt
  · have hremainder := hneg hlt
    rw [Int.sign_eq_neg_one_of_neg hlt, Int.sign_eq_neg_one_of_neg (by omega)]
  · have hremainder := hpos hgt
    rw [Int.sign_eq_one_of_pos hgt, Int.sign_eq_one_of_pos (by omega)]

end Words

namespace Value

/-! ### Exact results -/

/-- The result is the integer `i`, or there is none because `i` does not fit a word. -/
structure IsExact (result : Option Value) (i : Int) : Prop where
  value : Words.Fits i → ∃ w, result = some (.int w) ∧ w.toInt = i
  declined : ¬ Words.Fits i → result = none

theorem isExact_ofInt? (i : Int) : IsExact (ofInt? i) i where
  value hfits := by
    unfold ofInt?
    rw [Words.word?_eq hfits]
    exact ⟨_, rfl, Words.toInt_ofInt hfits⟩
  declined hout := by
    have hnone : Text.word? i = none := if_neg hout
    unfold ofInt?
    rw [hnone]
    rfl

theorem exists_ofInt? {i : Int} (h : Words.Fits i) :
    ∃ w, ofInt? i = some (.int w) ∧ w.toInt = i :=
  (isExact_ofInt? i).value h

/-! ### Powers -/

/-- Beyond exponent 63 a power of a number other than zero, one and minus one is out of range. -/
theorem not_fits_pow {base : Int} {n : Nat} (hbase : 2 ≤ base.natAbs) (hn : 63 < n) :
    ¬ Words.Fits (base ^ n) := by
  have hlarge : 2 ^ 64 ≤ (base ^ n).natAbs := by
    rw [Int.natAbs_pow]
    calc 2 ^ 64 ≤ 2 ^ n := Nat.pow_le_pow_right (by decide) hn
      _ ≤ base.natAbs ^ n := Nat.pow_le_pow_left hbase n
  rintro ⟨hlower, hupper⟩
  omega

/-- Of zero, one and minus one the powers with exponents of one parity are the same. -/
theorem pow_mod_two_add_two {base : Int} {n : Nat} (hbase : base.natAbs ≤ 1) (hn : 63 < n) :
    base ^ (n % 2 + 2) = base ^ n := by
  have hcases : base = -1 ∨ base = 0 ∨ base = 1 := by omega
  rcases hcases with rfl | rfl | rfl
  · rw [pow_add, neg_one_pow_eq_pow_mod_two (n := n), neg_one_sq, mul_one]
  · rw [zero_pow (by omega), zero_pow (by omega)]
  · rw [one_pow, one_pow]

/-- **A power is exact or declined.** -/
theorem power?_eq (base : Int) (n : Nat) : power? base n = ofInt? (base ^ n) := by
  unfold power?
  split_ifs with hsmall hunit
  · rfl
  · rw [← pow_mod_two_add_two hunit (by omega)]
    rfl
  · exact ((isExact_ofInt? _).declined (not_fits_pow (by omega) (by omega))).symm

/-! ### Operators on integers and truth values -/

section Integers

variable {l r v : Value} {a b : Int64}

theorem int?_eq_some :
    v.int? = some a ↔ v = .int a ∨ ∃ t, v = .bool t ∧ a = if t then 1 else 0 := by
  cases v with
  | int i => simp [int?]
  | bool t => simp [int?, eq_comm]
  | _ => simp [int?]

theorem number?_of_int? (h : v.int? = some a) : v.number? = some (.int a) := by
  rcases int?_eq_some.mp h with rfl | ⟨t, rfl, rfl⟩
  · rfl
  · rfl

theorem arithmetic_of_int? (onInt : Int → Int → Int) (onFloat : Float → Float → Float)
    (hl : l.int? = some a) (hr : r.int? = some b) :
    arithmetic onInt onFloat l r = ofInt? (onInt a.toInt b.toInt) := by
  unfold arithmetic
  rw [number?_of_int? hl, number?_of_int? hr]

theorem add_of_int? (hl : l.int? = some a) (hr : r.int? = some b) :
    add l r = ofInt? (a.toInt + b.toInt) := by
  rw [← arithmetic_of_int? (· + ·) (· + ·) hl hr]
  rcases int?_eq_some.mp hl with rfl | ⟨t, rfl, -⟩
  · rfl
  · rfl

/-- Neither operand is a text or a list, so nothing is repeated. -/
theorem mul_of_int? (hl : l.int? = some a) (hr : r.int? = some b) :
    mul l r = ofInt? (a.toInt * b.toInt) := by
  rw [← arithmetic_of_int? (· * ·) (· * ·) hl hr]
  rcases int?_eq_some.mp hl with rfl | ⟨t, rfl, -⟩
  · rcases int?_eq_some.mp hr with rfl | ⟨u, rfl, -⟩
    · rfl
    · rfl
  · rfl

theorem floorDiv_of_int? (hl : l.int? = some a) (hr : r.int? = some b) :
    floorDiv l r =
      if b.toInt = 0 then none else ofInt? (a.toInt.fdiv b.toInt) := by
  unfold floorDiv
  rw [number?_of_int? hl, number?_of_int? hr]

theorem mod_of_int? (hl : l.int? = some a) (hr : r.int? = some b) :
    mod l r =
      if b.toInt = 0 then none
      else (Text.word? (a.toInt.fdiv b.toInt)).bind fun _ => ofInt? (a.toInt.fmod b.toInt) := by
  unfold mod
  rw [number?_of_int? hl, number?_of_int? hr]

theorem pow_of_int? (hl : l.int? = some a) (hr : r.int? = some b) (hb : 0 ≤ b.toInt) :
    pow l r =
      if b.toInt < 0x100000000 then ofInt? (a.toInt ^ b.toInt.toNat) else none := by
  unfold pow
  rw [number?_of_int? hl, number?_of_int? hr]
  dsimp only
  rw [if_pos hb, power?_eq]

theorem shift_of_int? (f : Int → Nat → Int) (hl : l.int? = some a) (hr : r.int? = some b) :
    shift f l r =
      if 0 ≤ b.toInt ∧ b.toInt < 64 then ofInt? (f a.toInt b.toInt.toNat) else none := by
  unfold shift
  rw [hl, hr]

theorem shl_of_int? (hl : l.int? = some a) (hr : r.int? = some b) :
    BinaryOp.shl.eval l r =
      if 0 ≤ b.toInt ∧ b.toInt < 64 then ofInt? (a.toInt * 2 ^ b.toInt.toNat) else none :=
  shift_of_int? (fun a n => a * Int.pow 2 n) hl hr

theorem shr_of_int? (hl : l.int? = some a) (hr : r.int? = some b) :
    BinaryOp.shr.eval l r =
      if 0 ≤ b.toInt ∧ b.toInt < 64 then ofInt? (a.toInt.fdiv (2 ^ b.toInt.toNat)) else none :=
  shift_of_int? (fun a n => a.fdiv (Int.pow 2 n)) hl hr

/-! ### Quotients and remainders -/

/-- Where there is a truncated quotient, the quotient rounded down fits a word, too. -/
theorem fits_fdiv (h : ¬ Words.Indivisible a.toInt b.toInt) :
    b.toInt ≠ 0 ∧ Words.Fits (a.toInt.fdiv b.toInt) := by
  have hb : b.toInt ≠ 0 := fun hzero => h (.inl hzero)
  refine ⟨hb, Text.word?_isSome_iff.mp (Option.isSome_iff_ne_none.mpr ?_)⟩
  rwa [Ne, Words.word?_fdiv_eq_none_iff hb, Words.checkedDiv_eq_none_iff]

theorem exists_floorDiv (hl : l.int? = some a) (hr : r.int? = some b)
    (h : ¬ Words.Indivisible a.toInt b.toInt) :
    ∃ w, floorDiv l r = some (.int w) ∧ w.toInt = a.toInt.fdiv b.toInt := by
  obtain ⟨hb, hfits⟩ := fits_fdiv h
  rw [floorDiv_of_int? hl hr, if_neg hb]
  exact exists_ofInt? hfits

theorem exists_mod (hl : l.int? = some a) (hr : r.int? = some b)
    (h : ¬ Words.Indivisible a.toInt b.toInt) :
    ∃ w, mod l r = some (.int w) ∧ w.toInt = a.toInt.fmod b.toInt := by
  obtain ⟨hb, hfits⟩ := fits_fdiv h
  have hremainder := Words.fmod_bounds a.toInt hb
  have hbounds := Words.bounds b
  rw [mod_of_int? hl hr, if_neg hb, Words.word?_eq hfits, Option.bind_some]
  exact exists_ofInt? ⟨by omega, by omega⟩

theorem division_eq_none (hl : l.int? = some a) (hr : r.int? = some b)
    (h : Words.Indivisible a.toInt b.toInt) : floorDiv l r = none ∧ mod l r = none := by
  rw [floorDiv_of_int? hl hr, mod_of_int? hl hr]
  by_cases hb : b.toInt = 0
  · exact ⟨if_pos hb, if_pos hb⟩
  · have hnone := (Words.word?_fdiv_eq_none_iff hb).mpr (Words.checkedDiv_eq_none_iff.mpr h)
    rw [if_neg hb, if_neg hb, ofInt?, hnone]
    exact ⟨rfl, rfl⟩

end Integers

end Value

/-! ### All operators together -/

/-- What the arithmetic operators give on operands that stand for the whole numbers `a` and `b`. -/
structure ExactArithmetic (l r : Value) (a b : Int) : Prop where
  add : Value.IsExact (BinaryOp.add.eval l r) (a + b)
  sub : Value.IsExact (BinaryOp.sub.eval l r) (a - b)
  mul : Value.IsExact (BinaryOp.mul.eval l r) (a * b)
  floorDiv_none : BinaryOp.floorDiv.eval l r = none ↔ Words.Indivisible a b
  floorDiv : ¬ Words.Indivisible a b →
    ∃ w, BinaryOp.floorDiv.eval l r = some (.int w) ∧ w.toInt = ⌊(a : ℚ) / b⌋
  mod_none : BinaryOp.mod.eval l r = none ↔ Words.Indivisible a b
  mod : ¬ Words.Indivisible a b →
    ∃ w, BinaryOp.mod.eval l r = some (.int w) ∧ w.toInt = a - b * ⌊(a : ℚ) / b⌋ ∧
      (w.toInt = 0 ∨ w.toInt.sign = b.sign)
  pow : 0 ≤ b → b < 0x100000000 → Value.IsExact (BinaryOp.pow.eval l r) (a ^ b.toNat)
  pow_none : 0x100000000 ≤ b → BinaryOp.pow.eval l r = none
  shl : 0 ≤ b ∧ b < 64 → Value.IsExact (BinaryOp.shl.eval l r) (a * 2 ^ b.toNat)
  shl_none : ¬ (0 ≤ b ∧ b < 64) → BinaryOp.shl.eval l r = none
  shr : 0 ≤ b ∧ b < 64 →
    ∃ w, BinaryOp.shr.eval l r = some (.int w) ∧ w.toInt = ⌊(a : ℚ) / 2 ^ b.toNat⌋
  shr_none : ¬ (0 ≤ b ∧ b < 64) → BinaryOp.shr.eval l r = none
  /-- Computed in words, no plain operation leaves its word. -/
  words : ∀ op : BinaryOp, op.evalInWords l r = .ok (op.eval l r)

/-- **Arithmetic on integers and truth values is exact or declined**, and it is computed without
overflow. -/
theorem BinaryOp.exact_of_integers {l r : Value} {a b : Int64} (hl : l.int? = some a)
    (hr : r.int? = some b) : ExactArithmetic l r a.toInt b.toInt where
  add := by
    show Value.IsExact (Value.add l r) _
    rw [Value.add_of_int? hl hr]
    exact Value.isExact_ofInt? _
  sub := by
    show Value.IsExact (Value.arithmetic _ _ l r) _
    rw [Value.arithmetic_of_int? _ _ hl hr]
    exact Value.isExact_ofInt? _
  mul := by
    show Value.IsExact (Value.mul l r) _
    rw [Value.mul_of_int? hl hr]
    exact Value.isExact_ofInt? _
  floorDiv_none := by
    refine ⟨fun hnone => ?_, fun h => (Value.division_eq_none hl hr h).1⟩
    by_contra h
    obtain ⟨w, hw, -⟩ := Value.exists_floorDiv hl hr h
    exact Option.some_ne_none _ (hw.symm.trans hnone)
  floorDiv h := by
    rw [← Words.fdiv_eq_floor]
    exact Value.exists_floorDiv hl hr h
  mod_none := by
    refine ⟨fun hnone => ?_, fun h => (Value.division_eq_none hl hr h).2⟩
    by_contra h
    obtain ⟨w, hw, -⟩ := Value.exists_mod hl hr h
    exact Option.some_ne_none _ (hw.symm.trans hnone)
  mod h := by
    obtain ⟨w, hw, hvalue⟩ := Value.exists_mod hl hr h
    rw [← Words.fdiv_eq_floor, ← Int.fmod_def]
    refine ⟨w, hw, hvalue, ?_⟩
    rw [hvalue]
    exact Words.sign_fmod _ fun hzero => h (.inl hzero)
  pow hb hsmall := by
    show Value.IsExact (Value.pow l r) _
    rw [Value.pow_of_int? hl hr hb, if_pos hsmall]
    exact Value.isExact_ofInt? _
  pow_none hlarge := by
    show Value.pow l r = none
    rw [Value.pow_of_int? hl hr (by omega), if_neg (by omega)]
  shl hplaces := by
    rw [Value.shl_of_int? hl hr, if_pos hplaces]
    exact Value.isExact_ofInt? _
  shl_none hplaces := by
    rw [Value.shl_of_int? hl hr, if_neg hplaces]
  shr hplaces := by
    have hfits := Words.fdiv_bounds (Words.two_pow_pos b.toInt.toNat) (Words.bounds a)
    have hfloor := Words.fdiv_eq_floor a.toInt (2 ^ b.toInt.toNat)
    rw [Int.cast_pow, Int.cast_ofNat] at hfloor
    rw [Value.shr_of_int? hl hr, if_pos hplaces, ← hfloor]
    exact Value.exists_ofInt? hfits
  shr_none hplaces := by
    rw [Value.shr_of_int? hl hr, if_neg hplaces]
  words op := op.evalInWords_eq l r

/-- The least integer has no quotient by minus one, but it has one by one, here a truth value. -/
theorem BinaryOp.exact_of_least :
    (Value.int Int64.minValue).int? = some Int64.minValue ∧
      ((Value.int (-1)).int? = some (-1) ∧
        ExactArithmetic (.int Int64.minValue) (.int (-1)) (-0x8000000000000000) (-1)) ∧
      ((Value.bool true).int? = some 1 ∧
        ExactArithmetic (.int Int64.minValue) (.bool true) (-0x8000000000000000) 1) :=
  ⟨rfl, ⟨rfl, BinaryOp.exact_of_integers (a := Int64.minValue) (b := -1) rfl rfl⟩, rfl,
    BinaryOp.exact_of_integers (a := Int64.minValue) (b := 1) rfl rfl⟩

end SymbolicVM

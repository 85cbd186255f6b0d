import SymbolicVM.Text.Numeral
import SymbolicVM.Proofs.Text.Split

/-!
# Numerals

A number is read back from its decimal numeral (`Text.digits?_toDigits`), also as a word if it fits
one (`Text.word32?_toDigits`) and also with a sign (`Text.int?_toString`).
-/

namespace SymbolicVM.Text

theorem isDigit_of_mem_toDigits {c : Char} {n : Nat} (h : c ∈ Nat.toDigits 10 n) :
    isDigit c = true := by
  have hdigit := Nat.isDigit_of_mem_toDigits (by decide) (by decide) h
  unfold isDigit
  simpa [Char.isDigit, Char.le_def] using hdigit

/-- A digit is no blank: it lies above the first two ranges of blanks and below the others. -/
theorem isBlank_of_isDigit {c : Char} (h : isDigit c = true) : isBlank c = false := by
  simp only [isDigit, Bool.and_eq_true, decide_eq_true_eq, Char.le_def,
    UInt32.le_iff_toNat_le] at h
  have hlower : 48 ≤ c.toNat := h.1
  have hupper : c.toNat ≤ 57 := h.2
  unfold isBlank blankRanges
  rw [inRanges_cons_of_gt _ (by omega) (by omega), inRanges_cons_of_gt _ (by omega) (by omega),
    inRanges, if_pos (by omega)]

theorem digits?_toDigits (n : Nat) : digits? (Nat.toDigits 10 n) = some n := by
  have hne : Nat.toDigits 10 n ≠ [] := Nat.toDigits_ne_nil
  have hall : (Nat.toDigits 10 n).all isDigit = true :=
    List.all_eq_true.mpr fun _ hc => isDigit_of_mem_toDigits hc
  have hvalue : digitsValue 0 (Nat.toDigits 10 n) = n := Nat.ofDigitChars_ten_toDigits
  simp [digits?, hne, hall, hvalue]

/-- A number is read back from its numeral if it lies below the bound. -/
theorem natBelow?_toDigits {bound n : Nat} (h : n < bound) :
    natBelow? bound (Nat.toDigits 10 n) = some n := by
  unfold natBelow?
  dsimp only
  split
  · -- no numeral begins with a plus sign
    rename_i rest hplus
    have hmem : '+' ∈ Nat.toDigits 10 n := hplus ▸ List.mem_cons_self
    exact absurd (isDigit_of_mem_toDigits hmem) (by decide)
  · rw [digits?_toDigits]
    simp [h]

theorem word32?_toDigits (w : UInt32) : word32? (Nat.toDigits 10 w.toNat) = some w := by
  unfold word32?
  rw [natBelow?_toDigits w.toNat_lt_size, Option.map_some]
  exact congrArg some (UInt32.ofNat_toNat)

theorem toList_toString_ofNat (n : Nat) : (toString (Int.ofNat n)).toList = Nat.toDigits 10 n := by
  change (toString n).toList = _
  simp

theorem toList_toString_negSucc (n : Nat) :
    (toString (Int.negSucc n)).toList = '-' :: Nat.toDigits 10 (n + 1) := by
  change ("-" ++ toString (n + 1)).toList = _
  simp

/-- A whole number is read back from its numeral. -/
theorem int?_toString (i : Int) : int? (toString i).toList = some i := by
  cases i with
  | ofNat n =>
    have hnotMem : ∀ c ∈ ['-', '+'], c ∉ Nat.toDigits 10 n := by
      intro c hc hmem
      have hdigit := isDigit_of_mem_toDigits hmem
      rcases List.mem_cons.mp hc with rfl | hc
      · contradiction
      · rw [List.mem_singleton.mp hc] at hdigit
        contradiction
    rw [toList_toString_ofNat]
    unfold int?
    split
    · rename_i rest hminus
      exact absurd (hminus ▸ List.mem_cons_self) (hnotMem '-' (by simp))
    · rename_i rest hplus
      exact absurd (hplus ▸ List.mem_cons_self) (hnotMem '+' (by simp))
    · rw [digits?_toDigits]
      rfl
  | negSucc n =>
    rw [toList_toString_negSucc]
    show (digits? (Nat.toDigits 10 (n + 1))).map (fun n => -(n : Int)) = _
    rw [digits?_toDigits]
    rfl

end SymbolicVM.Text

import SymbolicVM.Json.Printer
import SymbolicVM.Json.Token
import SymbolicVM.Proofs.Text.Numeral
import Mathlib.Data.List.Basic

/-!
# Scalars are read back from their text

A whole number of 64 bits is read back from its numeral (`Json.runFor_int`), and a string from its
quoted form, where every character is written as itself or as an escape that stands for it
(`Json.foldlM_quote`). A floating-point number is read in floating-point arithmetic, so this need
not give back the number that was written; but what is written of it is always one number
(`Json.runChars_renderFloat`), and whether it comes back is a question of its digits alone
(`Json.runFor_float`).
-/

namespace SymbolicVM.Json

/-- A reader that stops nowhere in the first part goes on with the second part from there. -/
theorem foldlM_append_of_eq {α σ : Type} {f : σ → α → Option σ} {l rest : List α} {s s' : σ}
    (h : l.foldlM f s = some s') : (l ++ rest).foldlM f s = rest.foldlM f s' := by
  rw [List.foldlM_append, h]
  rfl

/-! ### Runs -/

/-- All characters are those of numbers and words. -/
def RunChars (cs : List Char) : Prop :=
  ∀ c ∈ cs, isRunChar c = true

instance (cs : List Char) : Decidable (RunChars cs) :=
  decidable_of_iff (cs.all isRunChar = true) List.all_eq_true

theorem RunChars.append {cs ds : List Char} (h : RunChars cs) (h' : RunChars ds) :
    RunChars (cs ++ ds) :=
  List.forall_mem_append.mpr ⟨h, h'⟩

theorem runChars_toDigits (n : Nat) : RunChars (Nat.toDigits 10 n) := by
  intro c hc
  simp [isRunChar, Text.isDigit_of_mem_toDigits hc]

/-- A number or word that stands for a scalar. -/
structure RunFor (cs : List Char) (j : Json) : Prop where
  nonempty : cs ≠ []
  chars : RunChars cs
  value : ofRun? cs = some j

/-- No number is one of the three words. -/
theorem ofRun?_of_number? {cs : List Char} {j : Json} (h : number? cs = some j) :
    ofRun? cs = some j := by
  unfold ofRun?
  split
  · cases h
  · cases h
  · cases h
  · exact h

/-! ### Whole numbers -/

/-- A number above zero does not begin with the digit zero. -/
theorem head?_toDigits_ne_zero {n : Nat} (h : 0 < n) : (Nat.toDigits 10 n).head? ≠ some '0' := by
  induction n using Nat.strongRecOn with
  | ind n ih =>
    by_cases hn : n < 10
    · have hdigit : ∀ m < 10, 0 < m → [Nat.digitChar m].head? ≠ some '0' := by decide
      rw [Nat.toDigits_of_lt_base hn]
      exact hdigit n hn h
    · rw [Nat.toDigits_of_base_le (by decide) (Nat.le_of_not_lt hn),
        List.head?_append_of_ne_nil _ Nat.toDigits_ne_nil]
      exact ih (n / 10) (by omega) (by omega)

theorem le_digitsValue (n : Nat) (cs : List Char) : n ≤ Text.digitsValue n cs := by
  induction cs generalizing n with
  | nil => exact Nat.le_refl n
  | cons c cs ih =>
    have hle : 10 * n + Text.digitValue c ≤ Text.digitsValue n (c :: cs) := ih _
    omega

/-- All digits of a number that fits are absorbed. -/
theorem absorb_eq {significand : Nat} {cs : List Char}
    (h : Text.digitsValue significand cs < UInt64.size) :
    absorb significand cs = (Text.digitsValue significand cs, cs.length) := by
  induction cs generalizing significand with
  | nil => rfl
  | cons c cs ih =>
    have hvalue : Text.digitsValue significand (c :: cs) =
        Text.digitsValue (10 * significand + Text.digitValue c) cs := rfl
    rw [hvalue] at h ⊢
    have hnext := Nat.lt_of_le_of_lt (le_digitsValue _ cs) h
    rw [absorb]
    dsimp only
    rw [if_pos hnext, ih h]
    rfl

/-- Digits that do not begin with a superfluous zero are read as a whole number, if it fits. -/
theorem unsigned?_of_digits (negative : Bool) {c : Char} {rest : List Char}
    (hdigits : ∀ d ∈ c :: rest, Text.isDigit d = true) (hzero : c = '0' → rest = [])
    (h : Text.digitsValue 0 (c :: rest) < UInt64.size) :
    unsigned? negative (c :: rest) =
      some (ofSignificand negative (Text.digitsValue 0 (c :: rest))) := by
  unfold unsigned?
  simp only [List.takeWhile_eq_self_iff.mpr hdigits, List.dropWhile_eq_nil_iff.mpr hdigits,
    absorb_eq h, List.isEmpty_cons, Bool.false_or, Int.sub_self, if_true]
  cases rest with
  | nil => simp
  | cons d rest =>
    have hc : c ≠ '0' := fun heq => List.cons_ne_nil _ _ (hzero heq)
    simp [hc]

theorem unsigned?_toDigits (negative : Bool) {n : Nat} (h : n < UInt64.size) :
    unsigned? negative (Nat.toDigits 10 n) = some (ofSignificand negative n) := by
  have hdigits : ∀ c ∈ Nat.toDigits 10 n, Text.isDigit c = true :=
    fun _ hc => Text.isDigit_of_mem_toDigits hc
  have hvalue : Text.digitsValue 0 (Nat.toDigits 10 n) = n := Nat.ofDigitChars_ten_toDigits
  have hhead : 0 < n → (Nat.toDigits 10 n).head? ≠ some '0' := head?_toDigits_ne_zero
  cases n with
  | zero => cases negative <;> rfl
  | succ n =>
    obtain ⟨c, rest, hlist⟩ :=
      List.exists_cons_of_ne_nil (Nat.toDigits_ne_nil (b := 10) (n := n + 1))
    rw [hlist] at hdigits hvalue hhead ⊢
    have hread := unsigned?_of_digits negative hdigits
      (fun heq => absurd (congrArg some heq) (hhead (Nat.succ_pos n))) (hvalue.symm ▸ h)
    rwa [hvalue] at hread

/-- **A whole number of 64 bits is read back from its numeral.** -/
theorem runFor_int {i : Int} (hlower : -0x8000000000000000 ≤ i) (hupper : i < UInt64.size) :
    RunFor (toString i).toList (.int i) := by
  cases i with
  | ofNat n =>
    have hdigits : ∀ c ∈ Nat.toDigits 10 n, Text.isDigit c = true :=
      fun _ hc => Text.isDigit_of_mem_toDigits hc
    have hread := unsigned?_toDigits false (Int.ofNat_lt.mp hupper)
    rw [Text.toList_toString_ofNat]
    refine ⟨Nat.toDigits_ne_nil, runChars_toDigits n, ofRun?_of_number? ?_⟩
    unfold number?
    split
    · rename_i rest hminus
      exact absurd (hdigits '-' (hminus ▸ List.mem_cons_self)) (by decide)
    · exact hread
  | negSucc n =>
    rw [Text.toList_toString_negSucc]
    refine ⟨List.cons_ne_nil _ _, List.forall_mem_cons.mpr ⟨by decide, runChars_toDigits _⟩,
      ofRun?_of_number? ?_⟩
    · have hbound : n + 1 ≤ 1 <<< 63 := by
        have : (Int.negSucc n) = -((n : Int) + 1) := Int.negSucc_eq n
        omega
      show unsigned? true (Nat.toDigits 10 (n + 1)) = _
      rw [unsigned?_toDigits true (Nat.lt_of_le_of_lt hbound (by decide)), ofSignificand,
        if_pos rfl, if_pos ⟨Nat.succ_pos n, hbound⟩]
      rfl

/-! ### Floating-point numbers -/

theorem runChars_toString (i : Int) : RunChars (toString i).toList := by
  cases i with
  | ofNat n =>
    rw [Text.toList_toString_ofNat]
    exact runChars_toDigits n
  | negSucc n =>
    rw [Text.toList_toString_negSucc]
    exact List.forall_mem_cons.mpr ⟨by decide, runChars_toDigits (n + 1)⟩

/-- A sign that is written or not. -/
theorem runChars_ite {text : String} (h : RunChars text.toList) (p : Prop) [Decidable p] :
    RunChars (if p then text else "").toList := by
  split_ifs
  · exact h
  · exact fun c hc => absurd hc List.not_mem_nil

theorem runChars_positive (d : Decimal.Digits) :
    RunChars (Decimal.Layout.document.positive d).toList := by
  have hdigits : RunChars (toString d.digits).toList := runChars_toString (Int.ofNat d.digits)
  have hzeros (k : Nat) : RunChars (List.replicate k '0') := by
    intro c hc
    rw [List.eq_of_mem_replicate hc]
    decide
  unfold Decimal.Layout.positive
  dsimp only
  generalize (toString d.digits).toList = ds at hdigits ⊢
  split
  · rw [String.toList_ofList]
    exact (hdigits.append (hzeros _)).append (by decide)
  split
  · rw [String.toList_ofList]
    refine RunChars.append (fun c hc => hdigits c (List.mem_of_mem_take hc)) ?_
    exact List.forall_mem_cons.mpr ⟨by decide, fun c hc => hdigits c (List.mem_of_mem_drop hc)⟩
  split
  · rw [String.toList_ofList]
    exact RunChars.append (List.forall_mem_cons.mpr
      ⟨by decide, List.forall_mem_cons.mpr ⟨by decide, hzeros _⟩⟩) hdigits
  · rw [String.toList_append, String.toList_append, String.toList_append, String.toList_ofList]
    refine ((RunChars.append ?_ (by decide)).append (runChars_ite (by decide) _)).append
      (runChars_toString _)
    cases ds with
    | nil => exact hdigits
    | cons c ds =>
      cases ds with
      | nil => exact hdigits
      | cons d ds =>
        obtain ⟨hc, hrest⟩ := List.forall_mem_cons.mp hdigits
        exact List.forall_mem_cons.mpr ⟨hc, List.forall_mem_cons.mpr ⟨by decide, hrest⟩⟩

/-- The text of a floating-point number has digits, signs, a point and an exponent, and no other
characters. -/
theorem runChars_renderFloat (x : Float) : RunChars (renderFloat x).toList := by
  unfold renderFloat Decimal.Layout.finite
  dsimp only
  split
  · split
    · rw [String.toList_append]
      exact (runChars_ite (by decide) _).append (by decide)
    · rw [String.toList_append]
      exact (runChars_ite (by decide) _).append (runChars_positive _)
  · decide

/-- A floating-point number is read back from its text if its digits say enough. -/
theorem runFor_float {x : Float} (h : number? (renderFloat x).toList = some (.float x)) :
    RunFor (renderFloat x).toList (.float x) where
  nonempty hnil := by
    rw [hnil] at h
    cases h
  chars := runChars_renderFloat x
  value := ofRun?_of_number? h

/-! ### Strings -/

theorem hexValue?_hexDigit : ∀ d < 16, hexValue? (hexDigit d) = some d := by
  decide

/-- The last digit of an escape that is no surrogate. -/
theorem stepMode_lastDigit {c d : Char} {value digit : Nat} (hd : hexValue? d = some digit)
    (hvalue : 16 * value + digit = c.toNat) (hc : c.toNat < 0xD800) (seen : List Char)
    (ts : List Token) :
    stepMode (.hex seen none 1 value, ts) d = some (.quoted (c :: seen), ts) := by
  have hafter : afterHex? seen none c.toNat = some (.quoted (Char.ofNat c.toNat :: seen)) := by
    unfold afterHex?
    rw [if_neg (by omega), if_neg (by omega)]
  unfold stepMode
  simp only [hd, Option.bind_some, hvalue, Nat.le_refl, if_true, hafter, Option.map_some,
    Char.ofNat_toNat]

/-- **A character is read back from the way it is written inside a string.** -/
theorem foldlM_escapeChar (c : Char) (seen : List Char) (ts : List Token) :
    (escapeChar c).foldlM stepMode (.quoted seen, ts) = some (.quoted (c :: seen), ts) := by
  unfold escapeChar
  split
  · rfl
  · rfl
  · rfl
  · rfl
  · rfl
  · rfl
  · rfl
  · rename_i hquote hbackslash _ _ _ _ _
    split_ifs with hc
    · -- four hexadecimal digits, the first two of them zero
      have hhigh := hexValue?_hexDigit (c.toNat / 16) (by omega)
      have hlow := hexValue?_hexDigit (c.toNat % 16) (by omega)
      have hzeros : ['\\', 'u', '0', '0'].foldlM stepMode (Mode.quoted seen, ts) =
          some (.hex seen none 2 0, ts) := rfl
      have hthird : stepMode (.hex seen none 2 0, ts) (hexDigit (c.toNat / 16)) =
          some (.hex seen none 1 (c.toNat / 16), ts) := by
        unfold stepMode
        simp [hhigh]
      have hlast : stepMode (.hex seen none 1 (c.toNat / 16), ts) (hexDigit (c.toNat % 16)) =
          some (.quoted (c :: seen), ts) :=
        stepMode_lastDigit hlow (by omega) (by omega) seen ts
      have hsplit : ['\\', 'u', '0', '0', hexDigit (c.toNat / 16), hexDigit (c.toNat % 16)] =
          ['\\', 'u', '0', '0'] ++ [hexDigit (c.toNat / 16), hexDigit (c.toNat % 16)] := rfl
      rw [hsplit, foldlM_append_of_eq hzeros]
      simp [hthird, hlast]
    · have hstep : stepMode (.quoted seen, ts) c = some (.quoted (c :: seen), ts) := by
        unfold stepMode
        dsimp only
        rw [if_neg hquote, if_neg hbackslash, if_neg hc]
      simp [hstep]

theorem foldlM_escaped (cs seen : List Char) (ts : List Token) :
    (cs.flatMap escapeChar).foldlM stepMode (.quoted seen, ts) =
      some (.quoted (cs.reverse ++ seen), ts) := by
  induction cs generalizing seen with
  | nil => rfl
  | cons c cs ih =>
    rw [List.flatMap_cons, foldlM_append_of_eq (foldlM_escapeChar c seen ts), ih,
      List.reverse_cons, List.append_assoc, List.singleton_append]

/-- **A string is read back from its quoted form.** -/
theorem foldlM_quote (s : String) (ts : List Token) :
    (quote s).toList.foldlM stepMode (.between, ts) =
      some (.between, .scalar (.str s) :: ts) := by
  have hopen : ['"'].foldlM stepMode (Mode.between, ts) = some (.quoted [], ts) := rfl
  have hclose (seen : List Char) : ['"'].foldlM stepMode (.quoted seen, ts) =
      some (.between, .scalar (.str (String.ofList seen.reverse)) :: ts) := rfl
  rw [quote, String.toList_ofList, ← List.singleton_append, foldlM_append_of_eq hopen,
    foldlM_append_of_eq (foldlM_escaped s.toList [] ts), hclose]
  simp

end SymbolicVM.Json

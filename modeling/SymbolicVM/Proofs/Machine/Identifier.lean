import SymbolicVM.Proofs.Machine.Apply
import SymbolicVM.Proofs.Text.Numeral

/-!
# Identifiers and their numbers

An identifier is the head of its kind and a decimal number. Reading the number of an identifier
gives back the number that it was made from (`IdKind.number?_name`), so identifiers with different
numbers differ, and no text is an identifier of two kinds (`IdKind.anyNumber?_eq_some`).

A step that raises a counter above the number of a name (`State.Raises`) moves it, over a list of
names, to the least number that is not below it and above the numbers of all names; it fails exactly
if one of these has no successor (`State.Raises.foldlM_eq_error_iff`). Reserving names is such a
step (`State.raises_reserveNumber`).
-/

namespace SymbolicVM

namespace IdKind

/-! ### Names and numbers -/

theorem toList_name (kind : IdKind) (n : Nat) :
    (kind.name n).toList = kind.head.toList ++ Nat.toDigits 10 n := by
  simp [name]

theorem name_ne_empty (kind : IdKind) (n : Nat) : kind.name n ≠ "" := by
  intro h
  have hlist := congrArg String.toList h
  rw [toList_name] at hlist
  exact Nat.toDigits_ne_nil (List.append_eq_nil_iff.mp hlist).2

/-- The number of a name is the one that it was made from, if that fits a word. -/
theorem number?_name (kind : IdKind) {n : Nat} (h : n < counterBound) :
    kind.number? (kind.name n) = some n := by
  unfold number? Text.numericSuffix?
  rw [toList_name, Text.dropHead?_append]
  exact Text.natBelow?_toDigits h

theorem name_injective (kind : IdKind) {m n : Nat} (h : kind.name m = kind.name n) : m = n := by
  have hlists := congrArg String.toList h
  rw [toList_name, toList_name] at hlists
  have hdigits := List.append_cancel_left hlists
  have := congrArg Text.digits? hdigits
  rw [Text.digits?_toDigits, Text.digits?_toDigits] at this
  exact Option.some.inj this

/-- The heads of different kinds differ in their first character. -/
theorem eq_of_head_append {k l : IdKind} {as bs : List Char}
    (h : k.head.toList ++ as = l.head.toList ++ bs) : k = l := by
  cases k <;> cases l <;> first | rfl | simp [head] at h

theorem eq_of_name_eq {k l : IdKind} {m n : Nat} (h : k.name m = l.name n) : k = l ∧ m = n := by
  have hlists := congrArg String.toList h
  rw [toList_name, toList_name] at hlists
  obtain rfl := eq_of_head_append hlists
  exact ⟨rfl, name_injective k h⟩

/-- A text has a number as an identifier of one kind at most. -/
theorem eq_of_number?_eq_some {k l : IdKind} {name : String} {m n : Nat}
    (hk : k.number? name = some m) (hl : l.number? name = some n) : k = l := by
  obtain ⟨as, has, -⟩ := Option.bind_eq_some_iff.mp hk
  obtain ⟨bs, hbs, -⟩ := Option.bind_eq_some_iff.mp hl
  exact eq_of_head_append
    ((Text.eq_append_of_dropHead? has).symm.trans (Text.eq_append_of_dropHead? hbs))

theorem anyNumber?_eq_some {kind : IdKind} {name : String} {n : Nat}
    (h : kind.number? name = some n) : anyNumber? name = some n := by
  have hother : ∀ other : IdKind, other ≠ kind → other.number? name = none := by
    intro other hne
    by_contra hsome
    obtain ⟨m, hm⟩ := Option.ne_none_iff_exists'.mp hsome
    exact hne (eq_of_number?_eq_some hm h)
  unfold anyNumber? all
  cases kind <;> simp [h, hother]

end IdKind

namespace State

/-! ### Reserving names -/

theorem nextNumber_eq_ok {n m : Nat} (h : nextNumber n = .ok m) :
    m = n + 1 ∧ n + 1 < counterBound := by
  unfold nextNumber at h
  split_ifs at h with hlt
  exact ⟨(Except.ok.inj h).symm, hlt⟩

/-- The step raises a counter above the number of a name, if the name has one, and no further. It
succeeds if that number has a successor. -/
structure Raises (number? : String → Option Nat) (step : Nat → String → Except Overflow Nat) :
    Prop where
  least : ∀ {c c' name}, step c name = .ok c' →
    c ≤ c' ∧ (∀ n, number? name = some n → n < c') ∧
      (c' = c ∨ ∃ n, number? name = some n ∧ c' = n + 1)
  bounded : ∀ {c c' name}, c < counterBound → step c name = .ok c' → c' < counterBound
  total : ∀ c {name}, (∀ n, number? name = some n → n + 1 < counterBound) →
    ∃ c', step c name = .ok c'

namespace Raises

variable {number? : String → Option Nat} {step : Nat → String → Except Overflow Nat}
  {names : List String} {c c' : Nat}

/-- The counter after a list of names is above the numbers of all of them, and no greater than it
has to be. -/
theorem foldlM_eq_ok (hstep : Raises number? step) (h : names.foldlM step c = .ok c') :
    c ≤ c' ∧ (∀ name ∈ names, ∀ n, number? name = some n → n < c') ∧
      (c' = c ∨ ∃ name ∈ names, ∃ n, number? name = some n ∧ c' = n + 1) := by
  induction names generalizing c with
  | nil =>
    obtain rfl := Except.ok.inj h
    simp
  | cons name names ih =>
    rw [List.foldlM_cons] at h
    obtain ⟨c₁, hfirst, hrest⟩ := bind_eq_ok.mp h
    obtain ⟨hle, habove, hleast⟩ := hstep.least hfirst
    obtain ⟨hle', habove', hleast'⟩ := ih hrest
    refine ⟨Nat.le_trans hle hle', ?_, ?_⟩
    · intro other hother n hn
      rcases List.mem_cons.mp hother with rfl | hother
      · exact Nat.lt_of_lt_of_le (habove n hn) hle'
      · exact habove' other hother n hn
    · -- the last name that raises the counter is a later one, or this one, or there is none
      rcases hleast' with rfl | ⟨other, hother, n, hn, rfl⟩
      · rcases hleast with rfl | ⟨n, hn, rfl⟩
        · exact .inl rfl
        · exact .inr ⟨name, List.mem_cons_self, n, hn, rfl⟩
      · exact .inr ⟨other, List.mem_cons_of_mem _ hother, n, hn, rfl⟩

theorem foldlM_lt (hstep : Raises number? step) (hc : c < counterBound)
    (h : names.foldlM step c = .ok c') : c' < counterBound :=
  @foldlM_invariant _ _ _ (· < counterBound) _ _ _ _ (fun _ _ _ hb => hstep.bounded hb) hc h

theorem exists_foldlM (hstep : Raises number? step) (c : Nat)
    (h : ∀ name ∈ names, ∀ n, number? name = some n → n + 1 < counterBound) :
    ∃ c', names.foldlM step c = .ok c' :=
  exists_foldlM_eq_ok (fun name hname c => hstep.total c (h name hname)) c

/-- Raising the counter above a list of names fails exactly if the number of one of them has no
successor. -/
theorem foldlM_eq_error_iff (hstep : Raises number? step) (hc : c < counterBound) :
    names.foldlM step c = .error .overflow ↔
      ∃ name ∈ names, ∃ n, number? name = some n ∧ counterBound ≤ n + 1 := by
  constructor
  · intro h
    by_contra hnone
    obtain ⟨c', hok⟩ := hstep.exists_foldlM c fun name hname n hn =>
      Nat.lt_of_not_le fun hle => hnone ⟨name, hname, n, hn, hle⟩
    rw [hok] at h
    contradiction
  · rintro ⟨name, hname, n, hn, hle⟩
    cases hfold : names.foldlM step c with
    | error e => rfl
    | ok c' =>
      have hlt := hstep.foldlM_lt hc hfold
      have habove := (hstep.foldlM_eq_ok hfold).2.1 name hname n hn
      omega

end Raises

theorem raises_reserveNumber : Raises IdKind.anyNumber? reserveNumber where
  least {c c' name} h := by
    unfold reserveNumber at h
    cases hn : IdKind.anyNumber? name with
    | none =>
      rw [hn] at h
      obtain rfl := Except.ok.inj h
      simp
    | some n =>
      rw [hn] at h
      dsimp only at h
      split_ifs at h with hle
      · obtain ⟨rfl, -⟩ := nextNumber_eq_ok h
        refine ⟨by omega, ?_, .inr ⟨n, rfl, rfl⟩⟩
        rintro m hm
        obtain rfl := Option.some.inj hm
        omega
      · obtain rfl := Except.ok.inj h
        refine ⟨Nat.le_refl _, ?_, .inl rfl⟩
        rintro m hm
        obtain rfl := Option.some.inj hm
        omega
  bounded {c c' name} hc h := by
    unfold reserveNumber at h
    cases hn : IdKind.anyNumber? name with
    | none =>
      rw [hn] at h
      rwa [← Except.ok.inj h]
    | some n =>
      rw [hn] at h
      dsimp only at h
      split_ifs at h
      · obtain ⟨rfl, hroom⟩ := nextNumber_eq_ok h
        exact hroom
      · rwa [← Except.ok.inj h]
  total c name h := by
    unfold reserveNumber nextNumber
    cases hn : IdKind.anyNumber? name with
    | none => exact ⟨c, rfl⟩
    | some n =>
      dsimp only
      rw [if_pos (h n hn)]
      split_ifs
      · exact ⟨n + 1, rfl⟩
      · exact ⟨c, rfl⟩

/-- The counter after reserving names is above the numbers of all of them, and no greater than it
has to be. -/
theorem foldlM_reserveNumber {c c' : Nat} {names : List String}
    (h : names.foldlM reserveNumber c = .ok c') :
    c ≤ c' ∧ (∀ name ∈ names, ∀ n, IdKind.anyNumber? name = some n → n < c') ∧
      (c' = c ∨ ∃ name ∈ names, ∃ n, IdKind.anyNumber? name = some n ∧ c' = n + 1) :=
  raises_reserveNumber.foldlM_eq_ok h

/-- The counter stays below the bound. -/
theorem foldlM_reserveNumber_lt {c c' : Nat} {names : List String} (hc : c < counterBound)
    (h : names.foldlM reserveNumber c = .ok c') : c' < counterBound :=
  raises_reserveNumber.foldlM_lt hc h

/-- Names whose numbers all have a successor can be reserved. -/
theorem exists_foldlM_reserveNumber {names : List String} (c : Nat)
    (h : ∀ name ∈ names, ∀ n, IdKind.anyNumber? name = some n → n + 1 < counterBound) :
    ∃ c', names.foldlM reserveNumber c = .ok c' :=
  raises_reserveNumber.exists_foldlM c h

end State

end SymbolicVM

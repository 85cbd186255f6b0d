import SymbolicVM.Proofs.Operator.Evaluation

/-!
# Ranges

A range counts how many steps from its start lie before its stop and lists that many numbers. The
count is exact (`Builtin.isCount_rangeLength`), whatever the signs and also where the stop is hit or
passed at once. So a range that there is has the numbers that it should have, and there is none only
for a step of zero, a distance that does not fit a word or too many numbers (`Builtin.range_exact`).
-/

namespace SymbolicVM

namespace Builtin

/-- What the arguments of a range mean: its start, its stop and its step. -/
inductive RangeArguments : List Value → Int → Int → Int → Prop where
  | upTo {v : Value} {stop : Int64} (hv : v.int? = some stop) :
    RangeArguments [v] 0 stop.toInt 1
  | between {u v : Value} {start stop : Int64} (hu : u.int? = some start)
      (hv : v.int? = some stop) :
    RangeArguments [u, v] start.toInt stop.toInt 1
  | stepping {u v w : Value} {start stop step : Int64} (hu : u.int? = some start)
      (hv : v.int? = some stop) (hw : w.int? = some step) :
    RangeArguments [u, v, w] start.toInt stop.toInt step.toInt

section Range

variable {args : List Value} {start stop step : Int}

theorem range?_eq (h : RangeArguments args start stop step) :
    range? args = if step = 0 then none else Words.rangeList? start stop step := by
  cases h with
  | @upTo v stop hv =>
    have hints : [v].mapM Value.int? = some [stop] := by simp [hv]
    unfold range?
    rw [hints]
    rfl
  | @between u v start stop hu hv =>
    have hints : [u, v].mapM Value.int? = some [start, stop] := by simp [hu, hv]
    unfold range?
    rw [hints]
    rfl
  | @stepping u v w start stop step hu hv hw =>
    have hints : [u, v, w].mapM Value.int? = some [start, stop, step] := by simp [hu, hv, hw]
    unfold range?
    rw [hints]
    by_cases hstep : step.toInt = 0
    · simp [rangeBounds?, hstep]
    · simp [rangeBounds?, hstep, Words.rangeList?]

/-- The start and the stop are words. -/
theorem RangeArguments.fits (h : RangeArguments args start stop step) :
    Words.Fits start ∧ Words.Fits stop := by
  cases h with
  | @upTo v stop hv => exact ⟨by unfold Words.Fits; omega, Words.bounds stop⟩
  | @between u v start stop hu hv => exact ⟨Words.bounds start, Words.bounds stop⟩
  | @stepping u v w start stop step hu hv hw => exact ⟨Words.bounds start, Words.bounds stop⟩

/-- The items are the numbers from the start on, in steps, that lie before the stop. -/
structure IsRange (start stop step : Int) (items : List Value) : Prop where
  item : ∀ i < items.length, ∃ w, items[i]? = some (.int w) ∧ w.toInt = start + i * step
  before : ∀ i < items.length, Before step stop (start + i * step)
  /-- The number that would come next is not before the stop. -/
  next : ¬ Before step stop (start + items.length * step)
  length_le : items.length ≤ 0x10000
  /-- The product and the sum that make an item are words. -/
  fits : ∀ i < items.length, Words.Fits (i * step) ∧ Words.Fits (start + i * step)

theorem isRange_of_isCount {n : Nat} (hstart : Words.Fits start) (hstop : Words.Fits stop)
    (hspan : Words.Fits (stop - start)) (hcount : IsCount start stop step n) (hn : n ≤ 0x10000) :
    IsRange start stop step
      ((List.range n).map fun (i : Nat) => .int (Int64.ofInt (start + i * step))) := by
  have hfits : ∀ i < n, Words.Fits (i * step) ∧ Words.Fits (start + i * step) := fun i hi =>
    ((hcount i).mpr hi).fits hstart hstop hspan
  constructor
  case item =>
    intro i hi
    rw [List.length_map, List.length_range] at hi
    refine ⟨_, ?_, Words.toInt_ofInt (hfits i hi).2⟩
    rw [List.getElem?_map, List.getElem?_range hi]
    rfl
  all_goals rw [List.length_map, List.length_range]
  case before => exact fun i hi => (hcount i).mpr hi
  case next => exact fun hbefore => Nat.lt_irrefl n ((hcount n).mp hbefore)
  case length_le => exact hn
  case fits => exact hfits

/-- The list of a range is there if its distance fits a word and it is not too long. -/
theorem rangeList?_eq_some {v : Value} :
    Words.rangeList? start stop step = some v ↔
      Words.Fits (stop - start) ∧ rangeLength (stop - start) step ≤ 0x10000 ∧
        v = .list ((List.range (rangeLength (stop - start) step)).map fun (i : Nat) =>
          .int (Int64.ofInt (start + i * step))) := by
  unfold Words.rangeList?
  by_cases hspan : Words.Fits (stop - start)
  · rw [Words.word?_eq hspan, Option.bind_some]
    dsimp only
    split_ifs with hcount
    · have hcount' : rangeLength (stop - start) step ≤ 0x10000 := hcount
      simp [hspan, hcount', eq_comm]
    · have hcount' : ¬ rangeLength (stop - start) step ≤ 0x10000 := hcount
      simp [hcount']
  · have hnone : Text.word? (stop - start) = none := if_neg hspan
    simp [hnone, hspan]

theorem rangeList?_eq_none_iff :
    Words.rangeList? start stop step = none ↔
      ¬ Words.Fits (stop - start) ∨ 0x10000 < rangeLength (stop - start) step := by
  rw [Option.eq_none_iff_forall_ne_some]
  simp only [Ne, rangeList?_eq_some]
  constructor
  · intro h
    by_contra hnot
    rw [not_or, not_not, Nat.not_lt] at hnot
    exact h _ ⟨hnot.1, hnot.2, rfl⟩
  · rintro (hspan | hlong) v ⟨hspan', hcount, -⟩
    · exact hspan hspan'
    · omega

/-- **A range is exact.** If there is a list, it has the numbers that it should have. There is none
exactly if the step is zero, the distance does not fit a word or there are too many numbers.
Computed in words, nothing overflows. -/
theorem range_exact (heap : Dict HeapObject) (h : RangeArguments args start stop step) :
    (∀ v, Builtin.range.value? heap args = some v →
      ∃ items, v = .list items ∧ IsRange start stop step items) ∧
    (Builtin.range.value? heap args = none ↔
      step = 0 ∨ ¬ Words.Fits (stop - start) ∨
        ∃ n, IsCount start stop step n ∧ 0x10000 < n) ∧
    Builtin.range.valueInWords heap args = .ok (Builtin.range.value? heap args) := by
  have hvalue : Builtin.range.value? heap args =
      if step = 0 then none else Words.rangeList? start stop step := range?_eq h
  obtain ⟨hstart, hstop⟩ := h.fits
  refine ⟨fun v hv => ?_, ?_, valueInWords_eq heap .range args⟩
  · rw [hvalue] at hv
    split_ifs at hv with hstep
    obtain ⟨hspan, hlength, rfl⟩ := rangeList?_eq_some.mp hv
    exact ⟨_, rfl,
      isRange_of_isCount hstart hstop hspan (isCount_rangeLength start stop hstep) hlength⟩
  · rw [hvalue]
    by_cases hstep : step = 0
    · simp [hstep]
    · have hcount := isCount_rangeLength start stop hstep
      rw [if_neg hstep, rangeList?_eq_none_iff, or_iff_right hstep]
      refine or_congr_right ⟨fun hlong => ⟨_, hcount, hlong⟩, ?_⟩
      rintro ⟨n, hn, hlong⟩
      rwa [hcount.unique hn]

end Range

/-- From minus one down to the least word in steps of almost that length there are two numbers. The
next one would be far below the least word. -/
theorem range_exact_of_least :
    RangeArguments [.int (-1), .int Int64.minValue, .int (Int64.minValue + 2)] (-1)
        (-0x8000000000000000) (-0x7ffffffffffffffe) ∧
      Builtin.range.value? .empty [.int (-1), .int Int64.minValue, .int (Int64.minValue + 2)] =
        some (.list [.int (-1), .int (Int64.minValue + 1)]) ∧
      IsRange (-1) (-0x8000000000000000) (-0x7ffffffffffffffe)
        [.int (-1), .int (Int64.minValue + 1)] := by
  have hargs : RangeArguments [.int (-1), .int Int64.minValue, .int (Int64.minValue + 2)] (-1)
      (-0x8000000000000000) (-0x7ffffffffffffffe) :=
    @RangeArguments.stepping _ _ _ (-1) Int64.minValue (Int64.minValue + 2) rfl rfl rfl
  have hvalue : Builtin.range.value? .empty
      [.int (-1), .int Int64.minValue, .int (Int64.minValue + 2)] =
        some (.list [.int (-1), .int (Int64.minValue + 1)]) := by rfl
  obtain ⟨items, heq, hrange⟩ := (range_exact .empty hargs).1 _ hvalue
  obtain rfl := Value.list.inj heq
  exact ⟨hargs, hvalue, hrange⟩

end Builtin

end SymbolicVM

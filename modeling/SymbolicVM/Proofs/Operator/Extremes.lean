import SymbolicVM.Proofs.Operator.Comparison

/-!
# Extremes

The greatest and the least of some items are found in one pass that keeps the best item so far and
moves on only to a better one. Of the operators that decide what is better only this matters: they
have an answer for any two items, and being better is a strict weak order (`Builtin.Ranks`). Then
the item that is kept is the first of those that no item is better than. One step of the pass keeps
this (`Builtin.IsFirstBest.step`), so it holds at the end (`Builtin.extremes_first`), where equal
items of different kinds, such as one and the truth value, make a difference.
-/

namespace SymbolicVM

namespace Builtin

open Value (Holds OrderedAs Comparable)

/-! ### Ranking operators -/

/-- Of any two values with the property the operator says whether the first is better, and being
better is a strict weak order. -/
structure Ranks (op : BinaryOp) (P : Value → Prop) : Prop where
  answers : ∀ {u v}, P u → P v → op.eval u v = some (.bool true) ∨ op.eval u v = some (.bool false)
  irrefl : ∀ {v}, P v → ¬ Holds op v v
  trans : ∀ {u v w}, P u → P v → P w → Holds op u v → Holds op v w → Holds op u w
  /-- What is better than one of two values is better than the other, or that one is better than
  it. -/
  cotrans : ∀ {u v w}, P u → P v → P w → Holds op u w → Holds op u v ∨ Holds op v w

theorem Ranks.not_holds {op : BinaryOp} {P : Value → Prop} (h : Ranks op P) {u v : Value}
    (hu : P u) (hv : P v) : ¬ Holds op u v ↔ op.eval u v = some (.bool false) := by
  unfold Holds
  rcases h.answers hu hv with htrue | hfalse
  · simp [htrue]
  · simp [hfalse]

/-- An operator that swaps its operands ranks values as well. -/
theorem Ranks.swap {op op' : BinaryOp} {P : Value → Prop} (h : Ranks op P)
    (hswap : ∀ {u v}, P u → P v → op'.eval u v = op.eval v u) : Ranks op' P where
  answers hu hv := by
    rw [hswap hu hv]
    exact h.answers hv hu
  irrefl hv := by
    unfold Holds
    rw [hswap hv hv]
    exact h.irrefl hv
  trans hu hv hw := by
    unfold Holds
    rw [hswap hu hv, hswap hv hw, hswap hu hw]
    exact fun huv hvw => h.trans hw hv hu hvw huv
  cotrans hu hv hw := by
    unfold Holds
    rw [hswap hu hw, hswap hu hv, hswap hv hw]
    exact fun huw => (h.cotrans hw hv hu huw).symm

section Views

variable {α : Type} [Ord α] [Std.TransOrd α] {view : Value → Option α}

theorem ranks_gt (h : OrderedAs view) : Ranks .gt fun v => ∃ a, view v = some a where
  answers := by
    rintro u v ⟨a, ha⟩ ⟨b, hb⟩
    rw [h.eval_gt ha hb]
    cases compare a b <;> simp
  irrefl := by
    rintro v ⟨a, ha⟩
    rw [h.holds_gt ha ha]
    simp
  trans := by
    rintro u v w ⟨a, ha⟩ ⟨b, hb⟩ ⟨c, hc⟩
    rw [h.holds_gt ha hb, h.holds_gt hb hc, h.holds_gt ha hc]
    exact Std.TransCmp.gt_trans
  cotrans := by
    rintro u v w ⟨a, ha⟩ ⟨b, hb⟩ ⟨c, hc⟩
    rw [h.holds_gt ha hc, h.holds_gt ha hb, h.holds_gt hb hc]
    contrapose!
    simp only [← Ordering.isLE_iff_ne_gt]
    exact fun h => Std.TransCmp.isLE_trans h.1 h.2

theorem ranks_lt (h : OrderedAs view) : Ranks .lt fun v => ∃ a, view v = some a := by
  refine (ranks_gt h).swap ?_
  rintro u v ⟨a, ha⟩ ⟨b, hb⟩
  have hswap : compare b a = (compare a b).swap := Std.OrientedOrd.eq_swap
  rw [h.eval_lt ha hb, h.eval_gt hb ha, hswap]
  cases compare a b <;> rfl

end Views

/-! ### The first of the best -/

/-- No item is better than this one, and it is the first such item. -/
structure IsFirstBest (op : BinaryOp) (items : List Value) (v : Value) : Prop where
  unbeaten : ∀ u ∈ items, op.eval u v = some (.bool false)
  first : ∃ before after, items = before ++ v :: after ∧
    ∀ u ∈ before, ∃ w ∈ items, op.eval w u = some (.bool true)

namespace IsFirstBest

variable {op : BinaryOp} {P : Value → Prop} {seen rest : List Value} {best item : Value}

theorem mem (h : IsFirstBest op seen best) : best ∈ seen := by
  obtain ⟨before, after, rfl, -⟩ := h.first
  exact List.mem_append_right _ List.mem_cons_self

theorem singleton (hop : Ranks op P) (hitem : P item) : IsFirstBest op [item] item where
  unbeaten u hu := by
    obtain rfl := List.mem_singleton.mp hu
    exact (hop.not_holds hitem hitem).mp (hop.irrefl hitem)
  first := ⟨[], [], rfl, fun u hu => absurd hu List.not_mem_nil⟩

/-- A better item takes the place of the best one so far. -/
theorem push_better (hop : Ranks op P) (hseen : ∀ u ∈ seen, P u) (hitem : P item)
    (h : IsFirstBest op seen best) (hbetter : Holds op item best) :
    IsFirstBest op (seen ++ [item]) item where
  unbeaten u hu := by
    rcases List.mem_append.mp hu with hu | hu
    · -- an item that is better than the new one would be better than the old best one
      refine (hop.not_holds (hseen u hu) hitem).mp fun hover => ?_
      have hbest := hop.trans (hseen u hu) hitem (hseen best h.mem) hover hbetter
      exact (hop.not_holds (hseen u hu) (hseen best h.mem)).mpr (h.unbeaten u hu) hbest
    · obtain rfl := List.mem_singleton.mp hu
      exact (hop.not_holds hitem hitem).mp (hop.irrefl hitem)
  first := by
    refine ⟨seen, [], rfl, fun u hu => ⟨item, by simp, ?_⟩⟩
    -- the new one is better than the old best one, which no item that was seen is better than
    rcases hop.cotrans hitem (hseen u hu) (hseen best h.mem) hbetter with hover | hbest
    · exact hover
    · exact absurd hbest
        ((hop.not_holds (hseen u hu) (hseen best h.mem)).mpr (h.unbeaten u hu))

/-- An item that is not better changes nothing. -/
theorem push_other (h : IsFirstBest op seen best)
    (hother : op.eval item best = some (.bool false)) :
    IsFirstBest op (seen ++ [item]) best where
  unbeaten u hu := by
    rcases List.mem_append.mp hu with hu | hu
    · exact h.unbeaten u hu
    · obtain rfl := List.mem_singleton.mp hu
      exact hother
  first := by
    obtain ⟨before, after, heq, hbefore⟩ := h.first
    refine ⟨before, after ++ [item], by simp [heq], fun u hu => ?_⟩
    obtain ⟨w, hw, hover⟩ := hbefore u hu
    exact ⟨w, List.mem_append_left _ hw, hover⟩

/-- **One step of the pass** keeps the first of the best items so far. -/
theorem step (hop : Ranks op P) (hseen : ∀ u ∈ seen, P u) (hitem : P item)
    (h : IsFirstBest op seen best) :
    ∃ v, better? op best item = some v ∧ IsFirstBest op (seen ++ [item]) v := by
  unfold better?
  rcases hop.answers hitem (hseen best h.mem) with hbetter | hother
  · rw [hbetter]
    exact ⟨item, rfl, h.push_better hop hseen hitem hbetter⟩
  · rw [hother]
    exact ⟨best, rfl, h.push_other hother⟩

/-- The whole pass ends with the first of the best items. -/
theorem foldlM (hop : Ranks op P) (hseen : ∀ u ∈ seen, P u) (hrest : ∀ u ∈ rest, P u)
    (h : IsFirstBest op seen best) :
    ∃ v, rest.foldlM (better? op) best = some v ∧ IsFirstBest op (seen ++ rest) v := by
  induction rest generalizing seen best with
  | nil => exact ⟨best, rfl, by rwa [List.append_nil]⟩
  | cons item rest ih =>
    obtain ⟨hitem, hrest⟩ := List.forall_mem_cons.mp hrest
    obtain ⟨next, hnext, hbest⟩ := h.step hop hseen hitem
    have hseen' : ∀ u ∈ seen ++ [item], P u := by
      intro u hu
      rcases List.mem_append.mp hu with hu | hu
      · exact hseen u hu
      · rwa [List.mem_singleton.mp hu]
    obtain ⟨v, hv, hlast⟩ := ih hseen' hrest hbest
    refine ⟨v, ?_, by rwa [List.append_assoc] at hlast⟩
    rw [List.foldlM_cons, hnext]
    exact hv

end IsFirstBest

/-! ### Greatest and least items -/

/-- Items that can be compared are found one by one as well as in a list. -/
theorem extremeItems_of_comparable {items : List Value} (h : Comparable items) :
    extremeItems items = items := by
  unfold extremeItems
  split
  · rename_i inner
    rcases h with h | h
    · exact absurd (h (.list inner) List.mem_cons_self) (by simp [Value.str?])
    · exact absurd (h (.list inner) List.mem_cons_self) (by simp [Value.int?])
  · rfl

/-- An operator that ranks the items has the first of the best ones as its extreme. -/
theorem exists_extreme? {op : BinaryOp} {P : Value → Prop} {items : List Value} (hop : Ranks op P)
    (hitems : ∀ u ∈ items, P u) (hne : items ≠ []) :
    ∃ v, extreme? op [.list items] = some v ∧ IsFirstBest op items v := by
  cases items with
  | nil => contradiction
  | cons first rest =>
    obtain ⟨hfirst, hrest⟩ := List.forall_mem_cons.mp hitems
    refine (IsFirstBest.singleton hop hfirst).foldlM hop (fun u hu => ?_) hrest
    rwa [List.mem_singleton.mp hu]

/-- The function finds the first of the best items, given one by one or in a list. -/
def FindsFirstBest (heap : Dict HeapObject) (b : Builtin) (op : BinaryOp) (items : List Value) :
    Prop :=
  ∃ v, b.value? heap items = some v ∧ b.value? heap [.list items] = some v ∧
    IsFirstBest op items v

theorem findsFirstBest {heap : Dict HeapObject} {b : Builtin} {op : BinaryOp} {P : Value → Prop}
    {items : List Value} (hb : b.value? heap = extreme? op) (hop : Ranks op P)
    (hitems : ∀ u ∈ items, P u) (hkind : Comparable items) (hne : items ≠ []) :
    FindsFirstBest heap b op items := by
  obtain ⟨v, hv, hbest⟩ := exists_extreme? hop hitems hne
  have hsame : extreme? op items = extreme? op [.list items] := by
    unfold extreme?
    rw [extremeItems_of_comparable hkind]
    rfl
  refine ⟨v, ?_, ?_, hbest⟩
  · rw [hb, hsame, hv]
  · rw [hb, hv]

/-- **The greatest and the least item are the first ones of their kind**, however the items are
given, and without items there is neither. -/
theorem extremes_first (heap : Dict HeapObject) {items : List Value} (h : Comparable items) :
    (items ≠ [] → FindsFirstBest heap .max .gt items ∧ FindsFirstBest heap .min .lt items) ∧
      (items = [] → ∀ b ∈ [Builtin.max, .min],
        b.value? heap items = none ∧ b.value? heap [.list items] = none) := by
  constructor
  · intro hne
    refine h.elim fun hview hall => ⟨?_, ?_⟩
    · exact findsFirstBest rfl (ranks_gt hview) hall h hne
    · exact findsFirstBest rfl (ranks_lt hview) hall h hne
  · rintro rfl b hb
    rcases List.mem_cons.mp hb with rfl | hb
    · exact ⟨rfl, rfl⟩
    · obtain rfl := List.mem_singleton.mp hb
      exact ⟨rfl, rfl⟩

/-- Of one and the truth value, which are equal, the one that comes first is the greatest item. The
least of some texts is not a longer one that starts with it. -/
theorem extremes_first_of_ties :
    (Comparable [.int 0, .bool true, .int 1, .bool false] ∧
      value? .empty .max [.int 0, .bool true, .int 1, .bool false] = some (.bool true) ∧
      FindsFirstBest .empty .max .gt [.int 0, .bool true, .int 1, .bool false]) ∧
    (Comparable [.str "b", .str "a", .str "ab"] ∧
      value? .empty .min [.str "b", .str "a", .str "ab"] = some (.str "a") ∧
      FindsFirstBest .empty .min .lt [.str "b", .str "a", .str "ab"]) := by
  have hnumbers : Comparable [.int 0, .bool true, .int 1, .bool false] := by decide
  have htexts : Comparable [.str "b", .str "a", .str "ab"] := by decide
  exact ⟨⟨hnumbers, rfl, ((extremes_first .empty hnumbers).1 (by simp)).1⟩,
    htexts, rfl, ((extremes_first .empty htexts).1 (by simp)).2⟩

end Builtin

end SymbolicVM

import SymbolicVM.Proofs.Dict
import SymbolicVM.Proofs.Operator.Integers
import SymbolicVM.Proofs.Value.Parts

/-!
# Equality and order

Two values without floating-point numbers are equal exactly if they have the same standard form, in
which truth values are integers and unknowns are nothing but their names (`Value.looseEq_iff`). So
equality is an equivalence relation, although on maps it only asks that every entry of one map has
an equal one in the other.

Texts are ordered as texts, and integers and truth values as integers. That is all that the
comparisons know about them (`Value.OrderedAs`): which of them hold follows from how two texts or
two integers compare. Together the two parts say that equality and order are coherent
(`Value.comparisons_coherent`).
-/

namespace SymbolicVM

namespace Value

/-! ### Standard forms -/

mutual

/-- The value that stands for all values equal to it. -/
def standard : Value → Value
  | .bool b => .int (if b then 1 else 0)
  | .symbolic s => .symbolic { name := s.name }
  | .list items => .list (standardItems items)
  | .map entries => .map (standardEntries entries)
  | .null => .null
  | .int i => .int i
  | .float x => .float x
  | .str s => .str s

/-- The standard forms of items. -/
def standardItems : List Value → List Value
  | [] => []
  | v :: vs => standard v :: standardItems vs

/-- The entries with the standard forms of their values. -/
def standardEntries : List (String × Value) → List (String × Value)
  | [] => []
  | (k, v) :: es => (k, standard v) :: standardEntries es

end

theorem standard_list (items : List Value) :
    standard (.list items) = .list (items.map standard) := by
  rw [standard]
  congr 1
  induction items with
  | nil => rw [standardItems]; rfl
  | cons v vs ih => rw [standardItems, ih, List.map_cons]

theorem standard_map (entries : List (String × Value)) :
    standard (.map entries) = .map (Entries.mapValues standard entries) := by
  rw [standard]
  congr 1
  induction entries with
  | nil => rw [standardEntries]; rfl
  | cons e es ih => rw [standardEntries, ih]; rfl

/-! ### Discrete values -/

/-- The value is no floating-point number. -/
def NoFloat (v : Value) : Prop :=
  ∀ x, v ≠ .float x

/-- A map lists its entries by increasing key. -/
def OrderedMap (v : Value) : Prop :=
  ∀ entries, v = .map entries → Entries.Ascending entries

/-- The value contains no floating-point number, and its maps list their entries by increasing
key. -/
structure Discrete (v : Value) : Prop where
  noFloat : v.Everywhere NoFloat
  ordered : v.Everywhere OrderedMap

section Discrete

variable {v : Value} {items : List Value} {entries : List (String × Value)}

theorem discrete_list : Discrete (.list items) ↔ ∀ v ∈ items, Discrete v := by
  constructor
  · intro h v hv
    exact ⟨(everywhere_list.mp h.noFloat).2 v hv, (everywhere_list.mp h.ordered).2 v hv⟩
  · intro h
    refine ⟨everywhere_list.mpr ⟨fun x => ?_, fun v hv => (h v hv).noFloat⟩,
      everywhere_list.mpr ⟨fun es heq => ?_, fun v hv => (h v hv).ordered⟩⟩
    · simp
    · contradiction

theorem discrete_map :
    Discrete (.map entries) ↔ Entries.Ascending entries ∧ ∀ e ∈ entries, Discrete e.2 := by
  constructor
  · intro h
    refine ⟨(everywhere_map.mp h.ordered).1 entries rfl, fun e he => ?_⟩
    exact ⟨(everywhere_map.mp h.noFloat).2 e he, (everywhere_map.mp h.ordered).2 e he⟩
  · rintro ⟨hasc, h⟩
    refine ⟨everywhere_map.mpr ⟨fun x => ?_, fun e he => (h e he).noFloat⟩,
      everywhere_map.mpr ⟨fun es heq => ?_, fun e he => (h e he).ordered⟩⟩
    · simp
    · rwa [← Value.map.inj heq]

theorem discrete_of_isScalar (hv : v.isScalar = true) : Discrete v ↔ NoFloat v := by
  refine ⟨fun h => (everywhere_of_isScalar hv).mp h.noFloat, fun h => ?_⟩
  refine ⟨(everywhere_of_isScalar hv).mpr h, (everywhere_of_isScalar hv).mpr fun es heq => ?_⟩
  rw [heq] at hv
  contradiction

theorem discrete_symbolic (x : Symbolic) : Discrete (.symbolic x) := by
  refine ⟨everywhere_symbolic.mpr fun y => ?_, everywhere_symbolic.mpr fun es heq => ?_⟩
  · simp
  · contradiction

end Discrete

/-! ### Equality -/

/-- Scalars that are no floating-point numbers are equal if their standard forms are. -/
theorem scalarEq_iff {l r : Value} (hl : l.isScalar = true) (hr : r.isScalar = true)
    (hl' : NoFloat l) (hr' : NoFloat r) : scalarEq l r = true ↔ l.standard = r.standard := by
  cases l with
  | list _ | map _ | symbolic _ => contradiction
  | float x => exact absurd rfl (hl' x)
  | null | bool _ | int _ | str _ =>
    cases r with
    | list _ | map _ | symbolic _ => contradiction
    | float x => exact absurd rfl (hr' x)
    | null | bool _ | int _ | str _ => simp [scalarEq, number?, standard]

theorem looseEq_of_isScalar {l r : Value} (hl : l.isScalar = true) (hr : r.isScalar = true) :
    looseEq l r = scalarEq l r := by
  cases l with
  | list _ | map _ | symbolic _ => contradiction
  | null | bool _ | int _ | float _ | str _ =>
    cases r with
    | list _ | map _ | symbolic _ => contradiction
    | null | bool _ | int _ | float _ | str _ => rfl

mutual

/-- **Values without floating-point numbers are equal exactly if they have the same standard
form.** -/
theorem looseEq_iff : ∀ {l r : Value}, Discrete l → Discrete r →
    (looseEq l r = true ↔ l.standard = r.standard)
  | .symbolic x, r, _, _ => by
    cases r with
    | symbolic y => simp [looseEq, standard]
    | _ => simp [looseEq, standard]
  | .list as, r, hl, hr => by
    cases r with
    | list bs =>
      rw [looseEq, standard_list, standard_list, Value.list.injEq, Bool.and_eq_true, beq_iff_eq]
      constructor
      · rintro ⟨hlength, hitems⟩
        exact (looseEqItems_iff (discrete_list.mp hl) (discrete_list.mp hr) hlength).mp hitems
      · intro hitems
        have hlength : as.length = bs.length := by
          simpa using congrArg List.length hitems
        exact ⟨hlength,
          (looseEqItems_iff (discrete_list.mp hl) (discrete_list.mp hr) hlength).mpr hitems⟩
    | _ => simp [looseEq, scalarEq, number?, standard]
  | .map as, r, hl, hr => by
    cases r with
    | map bs =>
      obtain ⟨hasc, hl⟩ := discrete_map.mp hl
      obtain ⟨hasc', hr⟩ := discrete_map.mp hr
      have has : Entries.Ascending (Entries.mapValues standard as) :=
        Entries.ascending_mapValues.mpr hasc
      have hbs : Entries.Ascending (Entries.mapValues standard bs) :=
        Entries.ascending_mapValues.mpr hasc'
      rw [looseEq, standard_map, standard_map, Value.map.injEq, Bool.and_eq_true, beq_iff_eq,
        looseEqEntries_iff hl hr]
      constructor
      · -- every entry of the one is an entry of the other, and there are equally many
        rintro ⟨hlength, hentries⟩
        refine has.eq_of_subset hbs (by simpa [Entries.mapValues] using hlength) fun e he => ?_
        obtain ⟨e', he', rfl⟩ := List.mem_map.mp he
        exact Entries.mem_of_get? (hentries e' he')
      · intro hentries
        refine ⟨by simpa [Entries.mapValues] using congrArg List.length hentries, fun e he => ?_⟩
        rw [← hentries]
        exact (Entries.get?_eq_some_iff has).mpr (List.mem_map_of_mem he)
    | _ => simp [looseEq, scalarEq, number?, standard]
  | .null, r, hl, hr | .bool _, r, hl, hr | .int _, r, hl, hr | .float _, r, hl, hr
  | .str _, r, hl, hr => by
    cases r with
    | list _ | map _ | symbolic _ => simp [looseEq, scalarEq, number?, standard]
    | null | bool _ | int _ | float _ | str _ =>
      rw [looseEq_of_isScalar rfl rfl]
      exact scalarEq_iff rfl rfl ((discrete_of_isScalar rfl).mp hl)
        ((discrete_of_isScalar rfl).mp hr)

theorem looseEqItems_iff : ∀ {as bs : List Value}, (∀ v ∈ as, Discrete v) → (∀ v ∈ bs, Discrete v) →
    as.length = bs.length → (looseEqItems as bs = true ↔ as.map standard = bs.map standard)
  | [], [], _, _, _ => by simp [looseEqItems]
  | a :: as, b :: bs, has, hbs, hlength => by
    obtain ⟨ha, has⟩ := List.forall_mem_cons.mp has
    obtain ⟨hb, hbs⟩ := List.forall_mem_cons.mp hbs
    rw [looseEqItems, Bool.and_eq_true, looseEq_iff ha hb,
      looseEqItems_iff has hbs (Nat.succ.inj hlength), List.map_cons, List.map_cons,
      List.cons.injEq]

theorem looseEqEntries_iff : ∀ {es bs : List (String × Value)}, (∀ e ∈ es, Discrete e.2) →
    (∀ e ∈ bs, Discrete e.2) → (looseEqEntries es bs = true ↔
      ∀ e ∈ es, Entries.get? e.1 (Entries.mapValues standard bs) = some e.2.standard)
  | [], _, _, _ => by simp [looseEqEntries]
  | (k, v) :: es, bs, hes, hbs => by
    obtain ⟨hv, hes⟩ := List.forall_mem_cons.mp hes
    rw [looseEqEntries, Bool.and_eq_true, looseEqEntries_iff hes hbs, List.forall_mem_cons]
    refine and_congr_left fun _ => ?_
    rw [Entries.get?_mapValues]
    cases hw : Entries.get? k bs with
    | none => simp
    | some w =>
      have hw' : Discrete w := hbs _ (Entries.mem_of_get? hw)
      rw [looseEq_iff hv hw', Option.map_some, Option.some.injEq, eq_comm]

end

/-- A value that is symbolic is never equal to one that is not. -/
theorem looseEq_of_isSymbolic_ne {l r : Value} (h : l.isSymbolic ≠ r.isSymbolic) :
    looseEq l r = false := by
  cases l with
  | symbolic x =>
    cases r with
    | symbolic y => exact absurd rfl h
    | _ => rfl
  | _ =>
    cases r with
    | symbolic y => rfl
    | _ => exact absurd rfl h

/-! ### Order -/

/-- The comparison has the answer yes. -/
def Holds (op : BinaryOp) (l r : Value) : Prop :=
  op.eval l r = some (.bool true)

/-- The values of which the view shows something are equal, less or greater as what it shows. -/
structure OrderedAs {α : Type} [Ord α] (view : Value → Option α) : Prop where
  looseEq : ∀ {l r a b}, view l = some a → view r = some b →
    looseEq l r = (compare a b == .eq)
  compare? : ∀ {l r a b}, view l = some a → view r = some b →
    compare? l r = some (.ofOrdering (compare a b))

theorem orderedAs_str : OrderedAs str? where
  looseEq {l r a b} hl hr := by
    obtain rfl := str?_eq_some.mp hl
    obtain rfl := str?_eq_some.mp hr
    show (a == b) = _
    rw [Bool.eq_iff_iff, beq_iff_eq, beq_iff_eq, Std.compare_eq_iff_eq]
  compare? {l r a b} hl hr := by
    obtain rfl := str?_eq_some.mp hl
    obtain rfl := str?_eq_some.mp hr
    rfl

theorem orderedAs_int : OrderedAs int? where
  looseEq {l r a b} hl hr := by
    have heq : scalarEq l r = (a == b) := by
      unfold scalarEq
      rw [number?_of_int? hl, number?_of_int? hr]
    rw [looseEq_of_isScalar (isScalar_of_int? hl) (isScalar_of_int? hr), heq, Bool.eq_iff_iff,
      beq_iff_eq, beq_iff_eq, Std.compare_eq_iff_eq]
  compare? {l r a b} hl hr := by
    rcases int?_eq_some.mp hl with rfl | ⟨t, rfl, rfl⟩
    · rcases int?_eq_some.mp hr with rfl | ⟨u, rfl, rfl⟩
      · rfl
      · rfl
    · rcases int?_eq_some.mp hr with rfl | ⟨u, rfl, rfl⟩
      · rfl
      · rfl

namespace OrderedAs

variable {α : Type} [Ord α] {view : Value → Option α} {l m r : Value} {a b c : α}

theorem eval_eq (h : OrderedAs view) (hl : view l = some a) (hr : view r = some b) :
    BinaryOp.eq.eval l r = some (.bool (compare a b == .eq)) :=
  congrArg (fun answer => some (Value.bool answer)) (h.looseEq hl hr)

theorem eval_lt (h : OrderedAs view) (hl : view l = some a) (hr : view r = some b) :
    BinaryOp.lt.eval l r = some (.bool (compare a b == .lt)) := by
  show compares [.less] l r = _
  unfold compares
  rw [h.compare? hl hr]
  cases compare a b <;> rfl

theorem eval_gt (h : OrderedAs view) (hl : view l = some a) (hr : view r = some b) :
    BinaryOp.gt.eval l r = some (.bool (compare a b == .gt)) := by
  show compares [.greater] l r = _
  unfold compares
  rw [h.compare? hl hr]
  cases compare a b <;> rfl

theorem eval_le (h : OrderedAs view) (hl : view l = some a) (hr : view r = some b) :
    BinaryOp.le.eval l r = some (.bool (compare a b).isLE) := by
  show compares [.less, .equal] l r = _
  unfold compares
  rw [h.compare? hl hr]
  cases compare a b <;> rfl

theorem eval_ge (h : OrderedAs view) (hl : view l = some a) (hr : view r = some b) :
    BinaryOp.ge.eval l r = some (.bool (compare a b).isGE) := by
  show compares [.greater, .equal] l r = _
  unfold compares
  rw [h.compare? hl hr]
  cases compare a b <;> rfl

end OrderedAs

/-- The comparisons of two values agree with each other. -/
structure Coherent (l r : Value) : Prop where
  /-- Exactly one of less, equal and greater holds. -/
  trichotomy : (Holds .lt l r ∧ ¬ Holds .eq l r ∧ ¬ Holds .gt l r) ∨
    (¬ Holds .lt l r ∧ Holds .eq l r ∧ ¬ Holds .gt l r) ∨
    (¬ Holds .lt l r ∧ ¬ Holds .eq l r ∧ Holds .gt l r)
  /-- Less or equal is not greater. -/
  le : ∃ b, BinaryOp.gt.eval l r = some (.bool b) ∧ BinaryOp.le.eval l r = some (.bool !b)
  /-- Greater or equal is not less. -/
  ge : ∃ b, BinaryOp.lt.eval l r = some (.bool b) ∧ BinaryOp.ge.eval l r = some (.bool !b)

namespace OrderedAs

variable {α : Type} [Ord α] {view : Value → Option α} {l m r : Value} {a b c : α}

theorem coherent (h : OrderedAs view) (hl : view l = some a) (hr : view r = some b) :
    Coherent l r where
  trichotomy := by
    unfold Holds
    rw [h.eval_lt hl hr, h.eval_eq hl hr, h.eval_gt hl hr]
    cases compare a b with
    | lt => simp
    | eq => simp
    | gt => simp
  le := by
    refine ⟨_, h.eval_gt hl hr, ?_⟩
    rw [h.eval_le hl hr]
    cases compare a b <;> rfl
  ge := by
    refine ⟨_, h.eval_lt hl hr, ?_⟩
    rw [h.eval_ge hl hr]
    cases compare a b <;> rfl

theorem holds_lt (h : OrderedAs view) (hl : view l = some a) (hr : view r = some b) :
    Holds .lt l r ↔ compare a b = .lt := by
  unfold Holds
  rw [h.eval_lt hl hr]
  simp

theorem holds_gt (h : OrderedAs view) (hl : view l = some a) (hr : view r = some b) :
    Holds .gt l r ↔ compare a b = .gt := by
  unfold Holds
  rw [h.eval_gt hl hr]
  simp

theorem lt_trans [Std.TransOrd α] (h : OrderedAs view) (hl : view l = some a)
    (hm : view m = some b) (hr : view r = some c) (hlm : Holds .lt l m) (hmr : Holds .lt m r) :
    Holds .lt l r :=
  (h.holds_lt hl hr).mpr
    (Std.TransCmp.lt_trans ((h.holds_lt hl hm).mp hlm) ((h.holds_lt hm hr).mp hmr))

end OrderedAs

/-- All values are texts, or all are integers or truth values. -/
def Comparable (vs : List Value) : Prop :=
  (∀ v ∈ vs, (str? v).isSome) ∨ (∀ v ∈ vs, (int? v).isSome)

instance (vs : List Value) : Decidable (Comparable vs) :=
  inferInstanceAs (Decidable ((∀ v ∈ vs, _) ∨ ∀ v ∈ vs, _))

/-- Values of both kinds are ordered as something is. -/
theorem Comparable.elim {vs : List Value} {P : Prop} (h : Comparable vs)
    (hview : ∀ {α : Type} [Ord α] [Std.TransOrd α] {view : Value → Option α}, OrderedAs view →
      (∀ v ∈ vs, ∃ a, view v = some a) → P) : P := by
  rcases h with h | h
  · exact hview orderedAs_str fun v hv => Option.isSome_iff_exists.mp (h v hv)
  · exact hview orderedAs_int fun v hv => Option.isSome_iff_exists.mp (h v hv)

/-! ### Both together -/

/-- Equality is an equivalence relation on discrete values. -/
theorem equivalence_looseEq :
    Equivalence fun l r : { v : Value // Discrete v } => looseEq l.1 r.1 = true where
  refl v := (looseEq_iff v.2 v.2).mpr rfl
  symm {l r} h := (looseEq_iff r.2 l.2).mpr ((looseEq_iff l.2 r.2).mp h).symm
  trans {l m r} h h' := (looseEq_iff l.2 r.2).mpr
    (((looseEq_iff l.2 m.2).mp h).trans ((looseEq_iff m.2 r.2).mp h'))

/-- **Equality and order are coherent.** Equality is an equivalence relation on values without
floating-point numbers, namely to have the same standard form, and no unknown is equal to a known
value. The comparisons of texts, or of integers and truth values, belong to one linear order. -/
theorem comparisons_coherent :
    (Equivalence fun l r : { v : Value // Discrete v } => looseEq l.1 r.1 = true) ∧
      (∀ l r, Discrete l → Discrete r → (looseEq l r = true ↔ l.standard = r.standard)) ∧
      (∀ l r : Value, l.isSymbolic ≠ r.isSymbolic → looseEq l r = false) ∧
      (∀ l r, Comparable [l, r] → Coherent l r) ∧
      ∀ l m r, Comparable [l, m, r] → Holds .lt l m → Holds .lt m r → Holds .lt l r := by
  refine ⟨equivalence_looseEq, fun l r hl hr => looseEq_iff hl hr,
    fun l r => looseEq_of_isSymbolic_ne, fun l r h => ?_, fun l m r h hlm hmr => ?_⟩
  · refine h.elim fun hview hall => ?_
    obtain ⟨a, ha⟩ := hall l (by simp)
    obtain ⟨b, hb⟩ := hall r (by simp)
    exact hview.coherent ha hb
  · refine h.elim fun hview hall => ?_
    obtain ⟨a, ha⟩ := hall l (by simp)
    obtain ⟨b, hb⟩ := hall m (by simp)
    obtain ⟨c, hc⟩ := hall r (by simp)
    exact hview.lt_trans ha hb hc hlm hmr

/-- A list of a truth value and a map with an unknown in it. -/
def nestedTrue : Value :=
  .list [.bool true, .map [("k", .symbolic { name := "sym_0", hint := some "int" })]]

/-- A list that differs from it in kinds and hints. -/
def nestedOne : Value :=
  .list [.int 1, .map [("k", .symbolic { name := "sym_0" })]]

/-- The two lists are equal, both ways. The truth values and two are in order, so false is less than
two. -/
theorem nestedTrue_coherent :
    (Discrete nestedTrue ∧ Discrete nestedOne) ∧ looseEq nestedTrue nestedOne = true ∧
      looseEq nestedOne nestedTrue = true ∧ Comparable [.bool false, .bool true, .int 2] ∧
      Holds .lt (.bool false) (.bool true) ∧ Holds .lt (.bool true) (.int 2) ∧
      Holds .lt (.bool false) (.int 2) := by
  have hscalar : ∀ v ∈ [Value.bool true, .int 1], Discrete v := by
    intro v hv
    rcases List.mem_cons.mp hv with rfl | hv
    · exact (discrete_of_isScalar rfl).mpr fun x => by simp
    · obtain rfl := List.mem_singleton.mp hv
      exact (discrete_of_isScalar rfl).mpr fun x => by simp
  have hmap (x : Symbolic) : Discrete (.map [("k", .symbolic x)]) :=
    discrete_map.mpr ⟨List.pairwise_singleton _ _, by simp [discrete_symbolic]⟩
  have htrue : Discrete nestedTrue := discrete_list.mpr (by simp [hscalar, hmap])
  have hone : Discrete nestedOne := discrete_list.mpr (by simp [hscalar, hmap])
  have hequal : looseEq nestedTrue nestedOne = true := by decide +kernel
  have hkind : Comparable [.bool false, .bool true, .int 2] := by decide
  have hlow : Holds .lt (.bool false) (.bool true) := by rfl
  have hhigh : Holds .lt (.bool true) (.int 2) := by rfl
  obtain ⟨hequivalence, -, -, -, htrans⟩ := comparisons_coherent
  exact ⟨⟨htrue, hone⟩, hequal,
    hequivalence.symm (x := ⟨nestedTrue, htrue⟩) (y := ⟨nestedOne, hone⟩) hequal,
    hkind, hlow, hhigh, htrans _ _ _ hkind hlow hhigh⟩

end Value

end SymbolicVM

import SymbolicVM.Engine.Operands

/-!
# The parts of a value

`Value.parts` lists a value and everything nested in it. A property may be asked of all of them
(`Value.Everywhere`). `Value.Built` says that a value is put together from given ones, as the
machine does it: with scalars and lists of its own, but without new unknowns or maps. What holds of
all parts of the given values, of scalars and of lists then holds of all parts of what is built
(`Value.Built.everywhere`).
-/

namespace SymbolicVM

namespace Value

/-- Whether the value is known and has no parts. -/
def isScalar : Value → Bool
  | .list _ => false
  | .map _ => false
  | .symbolic _ => false
  | _ => true

theorem str?_eq_some {v : Value} {s : String} : v.str? = some s ↔ v = .str s := by
  cases v with
  | str t => simp [str?]
  | _ => simp [str?]

theorem isScalar_of_int? {v : Value} {i : Int64} (h : v.int? = some i) : v.isScalar = true := by
  cases v with
  | list _ | map _ | symbolic _ => contradiction
  | _ => rfl

mutual

/-- The value and everything nested in it. -/
def parts : Value → List Value
  | .list items => .list items :: partsOfItems items
  | .map entries => .map entries :: partsOfEntries entries
  | v => [v]

/-- The items and everything nested in them. -/
def partsOfItems : List Value → List Value
  | [] => []
  | v :: vs => parts v ++ partsOfItems vs

/-- The values of the entries and everything nested in them. -/
def partsOfEntries : List (String × Value) → List Value
  | [] => []
  | (_, v) :: es => parts v ++ partsOfEntries es

end

theorem parts_of_isScalar {v : Value} (h : v.isScalar = true) : v.parts = [v] := by
  cases v with
  | list _ | map _ | symbolic _ => contradiction
  | _ => rw [parts] <;> simp

@[simp] theorem parts_symbolic (x : Symbolic) : parts (.symbolic x) = [.symbolic x] := by
  rw [parts] <;> simp

theorem partsOfItems_eq (items : List Value) : partsOfItems items = items.flatMap parts := by
  induction items with
  | nil => rw [partsOfItems]; rfl
  | cons v vs ih => rw [partsOfItems, ih, List.flatMap_cons]

theorem partsOfEntries_eq (entries : List (String × Value)) :
    partsOfEntries entries = entries.flatMap fun e => e.2.parts := by
  induction entries with
  | nil => rw [partsOfEntries]; rfl
  | cons e es ih => rw [partsOfEntries, ih, List.flatMap_cons]

/-! ### Properties of all parts -/

/-- The value and everything nested in it has the property. -/
def Everywhere (P : Value → Prop) (v : Value) : Prop :=
  ∀ u ∈ v.parts, P u

instance {P : Value → Prop} [DecidablePred P] (v : Value) : Decidable (v.Everywhere P) :=
  inferInstanceAs (Decidable (∀ u ∈ v.parts, P u))

section Everywhere

variable {P : Value → Prop} {v : Value} {items : List Value} {entries : List (String × Value)}

theorem everywhere_of_isScalar (h : v.isScalar = true) : v.Everywhere P ↔ P v := by
  unfold Everywhere
  rw [parts_of_isScalar h]
  exact List.forall_mem_singleton

theorem everywhere_symbolic {x : Symbolic} :
    (symbolic x).Everywhere P ↔ P (.symbolic x) := by
  unfold Everywhere
  rw [parts_symbolic]
  exact List.forall_mem_singleton

theorem everywhere_list :
    (list items).Everywhere P ↔ P (.list items) ∧ ∀ v ∈ items, v.Everywhere P := by
  unfold Everywhere
  rw [parts, partsOfItems_eq, List.forall_mem_cons, List.forall_mem_flatMap]

theorem everywhere_map :
    (map entries).Everywhere P ↔ P (.map entries) ∧ ∀ e ∈ entries, e.2.Everywhere P := by
  unfold Everywhere
  rw [parts, partsOfEntries_eq, List.forall_mem_cons, List.forall_mem_flatMap]

end Everywhere

/-! ### Values put together from others -/

/-- A value that is put together from given ones. Scalars are free, lists are made of what is built
already, and parts of what is built may be used on their own. There is no way to make a map. -/
inductive Built (given : Value → Prop) : Value → Prop where
  | given {v : Value} (h : given v) : Built given v
  | scalar {v : Value} (h : v.isScalar = true) : Built given v
  | list {items : List Value} (h : ∀ v ∈ items, Built given v) : Built given (.list items)
  | item {items : List Value} {v : Value} (h : Built given (.list items)) (hv : v ∈ items) :
    Built given v
  | entry {entries : List (String × Value)} {e : String × Value}
      (h : Built given (.map entries)) (he : e ∈ entries) : Built given e.2

theorem Built.mono {given given' : Value → Prop} {v : Value} (h : v.Built given)
    (hgiven : ∀ u, given u → given' u) : v.Built given' := by
  induction h with
  | given hu => exact .given (hgiven _ hu)
  | scalar hu => exact .scalar hu
  | list _ ih => exact .list ih
  | item _ hv ih => exact .item ih hv
  | entry _ he ih => exact .entry ih he

/-- What holds of all parts of the given values, of scalars and of lists holds of all parts of what
is built. -/
theorem Built.everywhere {given P : Value → Prop} {v : Value} (h : v.Built given)
    (hgiven : ∀ u, given u → u.Everywhere P) (hscalar : ∀ u, u.isScalar = true → P u)
    (hlist : ∀ items, P (.list items)) : v.Everywhere P := by
  induction h with
  | given h => exact hgiven _ h
  | scalar h => exact (everywhere_of_isScalar h).mpr (hscalar _ h)
  | list h ih => exact everywhere_list.mpr ⟨hlist _, ih⟩
  | item h hv ih => exact (everywhere_list.mp ih).2 _ hv
  | entry h he ih => exact (everywhere_map.mp ih).2 _ he

/-! ### Literals -/

theorem isScalar_ofLiteral (raw : String) : (ofLiteral raw).isScalar = true := by
  unfold ofLiteral
  split
  · rename_i v hv
    unfold named? at hv
    split at hv <;> first | (obtain rfl := Option.some.inj hv; rfl) | contradiction
  · dsimp only
    repeat' split
    all_goals rfl

end Value

theorem Operand.isScalar_literal (op : Operand) : op.literal.isScalar = true := by
  cases op with
  | text raw => exact Value.isScalar_ofLiteral raw
  | _ => rfl

end SymbolicVM

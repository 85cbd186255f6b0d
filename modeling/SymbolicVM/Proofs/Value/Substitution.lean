import SymbolicVM.Proofs.Value.Unknowns
import SymbolicVM.Value.Printer

/-!
# Substituting for unknowns

`Value.subst ρ` puts the value `ρ s` in the place of every symbolic value `s`, at any depth. A value
without unknowns stays as it is (`subst_of_unknowns_eq_nil`), and what can be read off a value with
unknowns (a truth value, an address, a part, a key) can be read off every instance of it.
-/

namespace SymbolicVM

namespace Value

section Subst

variable (ρ : Symbolic → Value)

mutual

/-- The value with every symbolic part replaced. -/
def subst : Value → Value
  | .symbolic s => ρ s
  | .list items => .list (substItems items)
  | .map entries => .map (substEntries entries)
  | .null => .null
  | .bool b => .bool b
  | .int i => .int i
  | .float x => .float x
  | .str s => .str s

/-- The items with every symbolic part replaced. -/
def substItems : List Value → List Value
  | [] => []
  | v :: vs => subst v :: substItems vs

/-- The entries with every symbolic part replaced. -/
def substEntries : List (String × Value) → List (String × Value)
  | [] => []
  | (k, v) :: es => (k, subst v) :: substEntries es

end

end Subst

/-- The substitution of `v` for the unknowns with the name `x`. -/
def replacing (x : String) (v : Value) (s : Symbolic) : Value :=
  if s.name = x then v else .symbolic s

variable {ρ : Symbolic → Value}

@[simp] theorem subst_null : subst ρ .null = .null := by rw [subst]

@[simp] theorem subst_bool (b : Bool) : subst ρ (.bool b) = .bool b := by rw [subst]

@[simp] theorem subst_int (i : Int64) : subst ρ (.int i) = .int i := by rw [subst]

@[simp] theorem subst_float (x : Float) : subst ρ (.float x) = .float x := by rw [subst]

@[simp] theorem subst_str (s : String) : subst ρ (.str s) = .str s := by rw [subst]

@[simp] theorem subst_symbolic (s : Symbolic) : subst ρ (.symbolic s) = ρ s := by rw [subst]

@[simp] theorem subst_list (items : List Value) :
    subst ρ (.list items) = .list (items.map (subst ρ)) := by
  rw [subst]
  congr 1
  induction items with
  | nil => rw [substItems]; rfl
  | cons v vs ih => rw [substItems, ih, List.map_cons]

@[simp] theorem subst_map (entries : List (String × Value)) :
    subst ρ (.map entries) = .map (Entries.mapValues (subst ρ) entries) := by
  rw [subst]
  congr 1
  induction entries with
  | nil => rw [substEntries]; rfl
  | cons e es ih => rw [substEntries, ih]; rfl

/-! ### Values without unknowns -/

mutual

theorem subst_of_unknowns_eq_nil : ∀ {v : Value}, v.unknowns = [] → v.subst ρ = v
  | .null, _ | .bool _, _ | .int _, _ | .float _, _ | .str _, _ => by simp
  | .symbolic s, h => by simp at h
  | .list items, h => by
    rw [unknowns] at h
    rw [subst, substItems_of_unknowns_eq_nil h]
  | .map entries, h => by
    rw [unknowns] at h
    rw [subst, substEntries_of_unknowns_eq_nil h]

theorem substItems_of_unknowns_eq_nil :
    ∀ {items : List Value}, unknownsOfItems items = [] → substItems ρ items = items
  | [], _ => by rw [substItems]
  | v :: vs, h => by
    rw [unknownsOfItems, List.append_eq_nil_iff] at h
    rw [substItems, subst_of_unknowns_eq_nil h.1, substItems_of_unknowns_eq_nil h.2]

theorem substEntries_of_unknowns_eq_nil :
    ∀ {es : List (String × Value)}, unknownsOfEntries es = [] → substEntries ρ es = es
  | [], _ => by rw [substEntries]
  | (k, v) :: es, h => by
    rw [unknownsOfEntries, List.append_eq_nil_iff] at h
    rw [substEntries, subst_of_unknowns_eq_nil h.1, substEntries_of_unknowns_eq_nil h.2]

end

/-! ### What is read off a value -/

theorem str?_subst {v : Value} {s : String} (h : v.str? = some s) : (v.subst ρ).str? = some s := by
  cases v with
  | str t => simpa using h
  | null | bool | int | float | list | map | symbolic => simp [str?] at h

theorem truthy?_subst {v : Value} {b : Bool} (h : v.truthy? = some b) :
    (v.subst ρ).truthy? = some b := by
  cases v with
  | symbolic s => simp [truthy?] at h
  | list items => simpa [truthy?] using h
  | map entries => simpa [truthy?, Entries.mapValues] using h
  | null | bool | int | float | str => simpa using h

theorem heapAddress?_subst {v : Value} {address : String} (h : v.heapAddress? = some address) :
    (v.subst ρ).heapAddress? = some address := by
  cases v with
  | map entries =>
    obtain ⟨w, hw, hstr⟩ := Option.bind_eq_some_iff.mp h
    rw [subst_map]
    show (Entries.get? "addr" (Entries.mapValues (subst ρ) entries)).bind str? = some address
    rw [Entries.get?_mapValues, hw]
    exact str?_subst hstr
  | str s => simpa using h
  | null | bool | int | float | list | symbolic => simp [heapAddress?] at h

end Value

end SymbolicVM

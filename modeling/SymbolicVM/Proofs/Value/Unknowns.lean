import SymbolicVM.Proofs.Value.Parts
import SymbolicVM.Proofs.Dict

/-!
# The unknowns in a value

`Value.unknowns` lists the symbolic values in a value, at any depth and from left to right. It is
the view through which the rest of the theory speaks of them: folding over symbolic values is
folding over this list (`foldSymbolic_eq_foldl`), and a value is free of symbolic parts exactly when
the list is empty (`containsSymbolic_eq_false_iff`). No literal contains an unknown, and a value
that is built from others has no unknowns but theirs (`Built.forall_unknowns`).
-/

namespace SymbolicVM

namespace Value

mutual

/-- The symbolic values in a value, from left to right. -/
def unknowns : Value → List Symbolic
  | .symbolic s => [s]
  | .list items => unknownsOfItems items
  | .map entries => unknownsOfEntries entries
  | _ => []

/-- The symbolic values in a list of values. -/
def unknownsOfItems : List Value → List Symbolic
  | [] => []
  | v :: vs => unknowns v ++ unknownsOfItems vs

/-- The symbolic values in a list of entries. -/
def unknownsOfEntries : List (String × Value) → List Symbolic
  | [] => []
  | (_, v) :: es => unknowns v ++ unknownsOfEntries es

end

@[simp] theorem unknowns_null : unknowns .null = [] := by rw [unknowns]; all_goals simp

@[simp] theorem unknowns_bool (b : Bool) : unknowns (.bool b) = [] := by
  rw [unknowns]; all_goals simp

@[simp] theorem unknowns_int (i : Int64) : unknowns (.int i) = [] := by
  rw [unknowns]; all_goals simp

@[simp] theorem unknowns_float (x : Float) : unknowns (.float x) = [] := by
  rw [unknowns]; all_goals simp

@[simp] theorem unknowns_str (s : String) : unknowns (.str s) = [] := by
  rw [unknowns]; all_goals simp

@[simp] theorem unknowns_symbolic (s : Symbolic) : unknowns (.symbolic s) = [s] := by
  rw [unknowns]

@[simp] theorem unknowns_list (items : List Value) :
    unknowns (.list items) = items.flatMap unknowns := by
  rw [unknowns]
  induction items with
  | nil => rw [unknownsOfItems]; rfl
  | cons v vs ih => rw [unknownsOfItems, ih, List.flatMap_cons]

@[simp] theorem unknowns_map (entries : List (String × Value)) :
    unknowns (.map entries) = entries.flatMap fun e => e.2.unknowns := by
  rw [unknowns]
  induction entries with
  | nil => rw [unknownsOfEntries]; rfl
  | cons e es ih => rw [unknownsOfEntries, ih, List.flatMap_cons]

/-! ### Folds and tests through the view -/

section Fold

variable {β : Type} (f : β → Symbolic → β)

mutual

/-- Folding over the symbolic values of a value is folding over the list of them. -/
theorem foldSymbolic_eq_foldl (b : β) : ∀ v : Value, foldSymbolic f b v = v.unknowns.foldl f b
  | .null | .bool _ | .int _ | .float _ | .str _ => by rw [foldSymbolic] <;> simp
  | .symbolic s => by rw [foldSymbolic, unknowns]; rfl
  | .list items => by rw [foldSymbolic, unknowns, foldSymbolicItems_eq_foldl]
  | .map entries => by rw [foldSymbolic, unknowns, foldSymbolicEntries_eq_foldl]

theorem foldSymbolicItems_eq_foldl (b : β) :
    ∀ items : List Value, foldSymbolicItems f b items = (unknownsOfItems items).foldl f b
  | [] => by rw [foldSymbolicItems, unknownsOfItems]; rfl
  | v :: vs => by
    rw [foldSymbolicItems, unknownsOfItems, List.foldl_append, ← foldSymbolic_eq_foldl b v,
      ← foldSymbolicItems_eq_foldl _ vs]

theorem foldSymbolicEntries_eq_foldl (b : β) :
    ∀ es : List (String × Value), foldSymbolicEntries f b es = (unknownsOfEntries es).foldl f b
  | [] => by rw [foldSymbolicEntries, unknownsOfEntries]; rfl
  | (_, v) :: es => by
    rw [foldSymbolicEntries, unknownsOfEntries, List.foldl_append, ← foldSymbolic_eq_foldl b v,
      ← foldSymbolicEntries_eq_foldl _ es]

end

end Fold

theorem symbolicNames_eq (v : Value) : v.symbolicNames = v.unknowns.map (·.name) := by
  unfold symbolicNames
  rw [foldSymbolic_eq_foldl, List.foldl_flip_cons_eq_append, List.append_nil, List.reverse_reverse]

theorem symbolicNames_symbolic (x : Symbolic) : (Value.symbolic x).symbolicNames = [x.name] := by
  simp [symbolicNames_eq]

theorem symbolicNames_list (items : List Value) :
    (Value.list items).symbolicNames = items.flatMap symbolicNames := by
  rw [symbolicNames_eq, unknowns_list, List.map_flatMap, funext symbolicNames_eq]

theorem symbolicNames_map (entries : List (String × Value)) :
    (Value.map entries).symbolicNames = entries.flatMap fun e => e.2.symbolicNames := by
  simp only [symbolicNames_eq, unknowns_map, List.map_flatMap]

mutual

/-- A value has no symbolic part exactly when no unknown occurs in it. -/
theorem containsSymbolic_eq_false_iff : ∀ v : Value, v.containsSymbolic = false ↔ v.unknowns = []
  | .null | .bool _ | .int _ | .float _ | .str _ => by rw [containsSymbolic] <;> simp
  | .symbolic s => by rw [containsSymbolic]; simp
  | .list items => by rw [containsSymbolic, unknowns, anySymbolic_eq_false_iff]
  | .map entries => by rw [containsSymbolic, unknowns, anySymbolicEntry_eq_false_iff]

theorem anySymbolic_eq_false_iff :
    ∀ items : List Value, anySymbolic items = false ↔ unknownsOfItems items = []
  | [] => by simp [anySymbolic, unknownsOfItems]
  | v :: vs => by
    rw [anySymbolic, unknownsOfItems, Bool.or_eq_false_iff, List.append_eq_nil_iff,
      containsSymbolic_eq_false_iff v, anySymbolic_eq_false_iff vs]

theorem anySymbolicEntry_eq_false_iff :
    ∀ es : List (String × Value), anySymbolicEntry es = false ↔ unknownsOfEntries es = []
  | [] => by simp [anySymbolicEntry, unknownsOfEntries]
  | (_, v) :: es => by
    rw [anySymbolicEntry, unknownsOfEntries, Bool.or_eq_false_iff, List.append_eq_nil_iff,
      containsSymbolic_eq_false_iff v, anySymbolicEntry_eq_false_iff es]

end

/-! ### Unknowns as parts -/

mutual

/-- The unknowns in a value are its symbolic parts. -/
theorem mem_unknowns_iff {x : Symbolic} : ∀ v : Value, x ∈ v.unknowns ↔ .symbolic x ∈ v.parts
  | .null | .bool _ | .int _ | .float _ | .str _ => by rw [parts_of_isScalar rfl]; simp
  | .symbolic s => by simp
  | .list items => by
    rw [unknowns, parts, List.mem_cons, mem_unknownsOfItems_iff]
    simp
  | .map entries => by
    rw [unknowns, parts, List.mem_cons, mem_unknownsOfEntries_iff]
    simp

theorem mem_unknownsOfItems_iff {x : Symbolic} :
    ∀ items : List Value, x ∈ unknownsOfItems items ↔ .symbolic x ∈ partsOfItems items
  | [] => by simp [unknownsOfItems, partsOfItems]
  | v :: vs => by
    rw [unknownsOfItems, partsOfItems, List.mem_append, List.mem_append, mem_unknowns_iff v,
      mem_unknownsOfItems_iff vs]

theorem mem_unknownsOfEntries_iff {x : Symbolic} :
    ∀ es : List (String × Value), x ∈ unknownsOfEntries es ↔ .symbolic x ∈ partsOfEntries es
  | [] => by simp [unknownsOfEntries, partsOfEntries]
  | (_, v) :: es => by
    rw [unknownsOfEntries, partsOfEntries, List.mem_append, List.mem_append, mem_unknowns_iff v,
      mem_unknownsOfEntries_iff es]

end

theorem unknowns_of_isScalar {v : Value} (h : v.isScalar = true) : v.unknowns = [] := by
  cases v with
  | list _ | map _ | symbolic _ => contradiction
  | _ => simp

/-- What holds of the unknowns in all given values holds of those in a value built from them. -/
theorem Built.forall_unknowns {given : Value → Prop} {P : Symbolic → Prop} {v : Value}
    (h : v.Built given) (hgiven : ∀ u, given u → ∀ x ∈ u.unknowns, P x) :
    ∀ x ∈ v.unknowns, P x := by
  have heverywhere : v.Everywhere fun u => ∀ x, u = .symbolic x → P x := by
    refine h.everywhere (fun u hu w hw x hx => ?_) (fun u hu x hx => ?_) (fun _ _ hx => ?_)
    · subst hx
      exact hgiven u hu x ((mem_unknowns_iff u).mpr hw)
    · subst hx
      contradiction
    · contradiction
  exact fun x hx => heverywhere _ ((mem_unknowns_iff v).mp hx) x rfl

end Value

@[simp] theorem Operand.unknowns_literal (op : Operand) : op.literal.unknowns = [] :=
  Value.unknowns_of_isScalar op.isScalar_literal

end SymbolicVM

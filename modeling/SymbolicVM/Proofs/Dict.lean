import SymbolicVM.Dict
import Mathlib.Data.List.Perm.Subperm
import Mathlib.Logic.Basic
import Mathlib.Tactic.SplitIfs

/-!
# Keys and values of a dictionary

What inserting does to the keys and to the values that a dictionary lists, and how `mapValues`
commutes with the other operations. Every fact is proved on plain lists of entries first, because
nested values keep their entries in such a list.
-/

namespace SymbolicVM

variable {α β : Type}

namespace Entries

instance (es : List (String × α)) : Decidable (Ascending es) :=
  inferInstanceAs (Decidable (es.Pairwise fun a b => a.1 < b.1))

/-! ### Looking up -/

/-- What is found at a key is one of the entries. -/
theorem mem_of_get? {key : String} {value : α} :
    ∀ {es : List (String × α)}, get? key es = some value → (key, value) ∈ es
  | [], h => by simp [get?] at h
  | (k, v) :: rest, h => by
    unfold get? at h
    split_ifs at h with hk
    · obtain rfl := Option.some.inj h
      rw [hk]
      exact List.mem_cons_self
    · exact List.mem_cons_of_mem _ (mem_of_get? h)

/-- Nothing is found at a key that no entry has. -/
theorem get?_eq_none_iff {key : String} :
    ∀ {es : List (String × α)}, get? key es = none ↔ key ∉ es.map (·.1)
  | [] => by simp [get?]
  | (k, v) :: rest => by
    unfold get?
    split_ifs with hk
    · simp [hk]
    · simp [get?_eq_none_iff, Ne.symm hk]

/-- In key order every entry is the one that is found at its key. -/
theorem get?_eq_some_iff {key : String} {value : α} {es : List (String × α)} (h : Ascending es) :
    get? key es = some value ↔ (key, value) ∈ es := by
  refine ⟨mem_of_get?, fun hmem => ?_⟩
  induction es with
  | nil => exact absurd hmem List.not_mem_nil
  | cons e es ih =>
    obtain ⟨hfirst, hrest⟩ := List.pairwise_cons.mp h
    unfold get?
    rcases List.mem_cons.mp hmem with rfl | hmem
    · exact if_pos rfl
    · have hlt : e.1 < key := hfirst (key, value) hmem
      have hne : e.1 ≠ key := by
        rintro rfl
        exact String.lt_irrefl _ hlt
      rw [if_neg hne]
      exact ih hrest hmem

theorem Ascending.nodup {es : List (String × α)} (h : Ascending es) : es.Nodup := by
  refine List.Pairwise.imp ?_ h
  rintro a b hlt rfl
  exact String.lt_irrefl _ hlt

/-- Two lists of entries in key order that are equally long are the same if one contains the
other. -/
theorem Ascending.eq_of_subset {es fs : List (String × α)} (hes : Ascending es) (hfs : Ascending fs)
    (hlength : es.length = fs.length) (hsub : es ⊆ fs) : es = fs := by
  have hperm : es.Perm fs :=
    (List.subperm_of_subset hes.nodup hsub).perm_of_length_le (Nat.le_of_eq hlength.symm)
  refine hperm.eq_of_pairwise (fun a b _ _ hab hba => ?_) hes hfs
  exact absurd hba (String.lt_asymm hab)

/-! ### Inserting -/

theorem mem_keys_insert {key k : String} {value : α} {es : List (String × α)} :
    k ∈ (insert key value es).map (·.1) ↔ k = key ∨ k ∈ es.map (·.1) := by
  rw [← not_iff_not, not_or, ← get?_eq_none_iff, ← get?_eq_none_iff, get?_insert]
  by_cases h : key = k
  · simp [h]
  · simp [h, Ne.symm h]

/-! ### Putting in order -/

/-- An entry with a key above all others is put at the end. -/
theorem insert_of_lt {key : String} (value : α) :
    ∀ {es : List (String × α)}, (∀ e ∈ es, e.1 < key) → insert key value es = es ++ [(key, value)]
  | [], _ => rfl
  | e :: es, h => by
    have hlt := h e List.mem_cons_self
    have hne : key ≠ e.1 := fun heq => String.lt_irrefl _ (heq ▸ hlt)
    have ih := insert_of_lt value fun e' he' => h e' (List.mem_cons_of_mem _ he')
    rw [insert, if_neg (String.lt_asymm hlt), if_neg hne, ih]
    rfl

/-- Entries in key order stay as they are. -/
theorem ofList_of_ascending {es : List (String × α)} (h : Ascending es) : ofList es = es := by
  suffices hacc : ∀ acc : List (String × α), Ascending (acc ++ es) →
      es.foldl (fun acc e => insert e.1 e.2 acc) acc = acc ++ es from hacc [] h
  clear h
  induction es with
  | nil => simp
  | cons e es ih =>
    intro acc hacc
    have hlt : ∀ e' ∈ acc, e'.1 < e.1 := fun e' he' =>
      (List.pairwise_append.mp hacc).2.2 e' he' e List.mem_cons_self
    rw [List.append_cons] at hacc ⊢
    rw [List.foldl_cons, insert_of_lt e.2 hlt, ih _ hacc]

/-- Putting entries in order brings in no others. -/
theorem mem_of_mem_ofList {es : List (String × α)} {e : String × α} (h : e ∈ ofList es) :
    e ∈ es := by
  suffices hacc : ∀ acc : List (String × α),
      e ∈ es.foldl (fun acc e => insert e.1 e.2 acc) acc → e ∈ acc ∨ e ∈ es from
    (hacc [] h).resolve_left List.not_mem_nil
  clear h
  induction es with
  | nil => exact fun _ h => .inl h
  | cons a es ih =>
    intro acc h
    rcases ih _ h with h | h
    · rcases mem_insert h with rfl | h
      · exact .inr List.mem_cons_self
      · exact .inl h
    · exact .inr (List.mem_cons_of_mem _ h)

/-- Where every key occurs once, putting entries in order changes no look-up. -/
theorem get?_ofList {es : List (String × α)} (h : (es.map (·.1)).Nodup) (key : String) :
    get? key (ofList es) = get? key es := by
  suffices hacc : ∀ acc : List (String × α),
      get? key (es.foldl (fun acc e => insert e.1 e.2 acc) acc) =
        (get? key es).or (get? key acc) from (hacc []).trans (Option.or_none)
  induction es with
  | nil => simp [get?]
  | cons e es ih =>
    intro acc
    obtain ⟨hnot, hrest⟩ := List.nodup_cons.mp h
    rw [List.foldl_cons, ih hrest, get?_insert, get?]
    split_ifs with hkey
    · rw [← hkey, get?_eq_none_iff.mpr hnot]
      rfl
    · rfl

/-! ### Applying a function to the values -/

/-- The entries with a function applied to every value. -/
def mapValues (f : α → β) (es : List (String × α)) : List (String × β) :=
  es.map fun e => (e.1, f e.2)

theorem ascending_mapValues {f : α → β} {es : List (String × α)} :
    Ascending (mapValues f es) ↔ Ascending es :=
  List.pairwise_map

theorem get?_mapValues (f : α → β) (key : String) :
    ∀ es : List (String × α), get? key (mapValues f es) = (get? key es).map f
  | [] => rfl
  | (k, v) :: rest => by
    have ih := get?_mapValues f key rest
    unfold mapValues at ih ⊢
    rw [List.map_cons, get?, get?]
    split_ifs
    · rfl
    · exact ih

theorem mapValues_insert (f : α → β) (key : String) (value : α) :
    ∀ es : List (String × α),
      mapValues f (insert key value es) = insert key (f value) (mapValues f es)
  | [] => rfl
  | (k, v) :: rest => by
    have ih := mapValues_insert f key value rest
    unfold mapValues at ih ⊢
    rw [List.map_cons, insert, insert]
    split_ifs
    · rfl
    · rfl
    · rw [List.map_cons, ih]

end Entries

namespace Dict

/-! ### Keys -/

theorem get?_eq_none_iff {d : Dict α} {key : String} : d.get? key = none ↔ key ∉ d.keys :=
  Entries.get?_eq_none_iff

theorem mem_keys_of_get? {d : Dict α} {key : String} {value : α} (h : d.get? key = some value) :
    key ∈ d.keys :=
  List.mem_map_of_mem (f := (·.1)) (Entries.mem_of_get? h)

@[simp] theorem mem_keys_insert {d : Dict α} {key k : String} {value : α} :
    k ∈ (d.insert key value).keys ↔ k = key ∨ k ∈ d.keys :=
  Entries.mem_keys_insert

@[simp] theorem keys_empty : (empty : Dict α).keys = [] := rfl

theorem contains_iff {d : Dict α} {key : String} : d.contains key = true ↔ key ∈ d.keys := by
  unfold contains
  rw [Option.isSome_iff_ne_none, Ne, get?_eq_none_iff, not_not]

theorem nodup_keys (d : Dict α) : d.keys.Nodup := by
  refine List.Pairwise.imp ?_ (List.pairwise_map.mpr d.ascending)
  intro a b hlt heq
  exact String.lt_irrefl b (heq ▸ hlt)

@[simp] theorem length_keys (d : Dict α) : d.keys.length = d.size :=
  List.length_map _

/-- Putting a value at a key that has one adds no key. -/
theorem size_insert_of_mem {d : Dict α} {key : String} (h : key ∈ d.keys) (value : α) :
    (d.insert key value).size = d.size := by
  have hperm : (d.insert key value).keys.Perm d.keys := by
    rw [List.perm_ext_iff_of_nodup (nodup_keys _) (nodup_keys d)]
    intro k
    rw [mem_keys_insert]
    exact ⟨fun hk => hk.elim (fun heq => heq ▸ h) id, .inr⟩
  rw [← length_keys, ← length_keys, hperm.length_eq]

/-- Putting a value at a key that has none adds the key. -/
theorem size_insert_of_notMem {d : Dict α} {key : String} (h : key ∉ d.keys) (value : α) :
    (d.insert key value).size = d.size + 1 := by
  have hperm : (d.insert key value).keys.Perm (key :: d.keys) := by
    rw [List.perm_ext_iff_of_nodup (nodup_keys _) (List.nodup_cons.mpr ⟨h, nodup_keys d⟩)]
    intro k
    rw [mem_keys_insert, List.mem_cons]
  rw [← length_keys, ← length_keys, hperm.length_eq, List.length_cons]

/-! ### Values -/

theorem mem_values_of_get? {d : Dict α} {key : String} {value : α}
    (h : d.get? key = some value) : value ∈ d.values :=
  List.mem_map_of_mem (f := (·.2)) (Entries.mem_of_get? h)

/-- The values after inserting are the new one and old ones. -/
theorem mem_values_insert {d : Dict α} {key : String} {value v : α}
    (h : v ∈ (d.insert key value).values) : v = value ∨ v ∈ d.values := by
  obtain ⟨e, he, rfl⟩ := List.mem_map.mp h
  rcases Entries.mem_insert he with rfl | he
  · exact .inl rfl
  · exact .inr (List.mem_map_of_mem he)

@[simp] theorem values_empty : (empty : Dict α).values = [] := rfl

@[simp] theorem values_insert_empty (key : String) (value : α) :
    (empty.insert key value).values = [value] := rfl

/-! ### Inserting many -/

theorem get?_foldl_insert_of_notMem {key : String} (es : List (String × α)) (d : Dict α)
    (h : key ∉ es.map (·.1)) :
    (es.foldl (fun acc e => acc.insert e.1 e.2) d).get? key = d.get? key := by
  induction es generalizing d with
  | nil => rfl
  | cons e es ih =>
    rw [List.map_cons, List.mem_cons, not_or] at h
    rw [List.foldl_cons, ih _ h.2, get?_insert_of_ne _ _ (Ne.symm h.1)]

/-- Of all entries that are inserted, that with a key is the one found there afterwards. -/
theorem get?_insertAll_of_get? (d : Dict α) {e : Dict α} {key : String} {value : α}
    (h : e.get? key = some value) : (d.insertAll e).get? key = some value := by
  obtain ⟨es, hasc⟩ := e
  change Entries.get? key es = some value at h
  change (es.foldl (fun acc e => acc.insert e.1 e.2) d).get? key = some value
  induction es generalizing d with
  | nil => simp [Entries.get?] at h
  | cons e es ih =>
    obtain ⟨hfirst, hrest⟩ := List.pairwise_cons.mp hasc
    rw [List.foldl_cons]
    unfold Entries.get? at h
    split_ifs at h with hkey
    · -- no later entry has the same key
      have hnot : key ∉ es.map (·.1) := by
        intro hmem
        obtain ⟨e', he', heq⟩ := List.mem_map.mp hmem
        have hlt := hfirst e' he'
        rw [heq, hkey] at hlt
        exact String.lt_irrefl key hlt
      rw [get?_foldl_insert_of_notMem es _ hnot, hkey, get?_insert_self]
      exact h
    · exact ih _ hrest h

/-- Of two dictionaries put together, the one that is put in later counts. -/
theorem get?_insertAll (d e : Dict α) (key : String) :
    (d.insertAll e).get? key = (e.get? key).or (d.get? key) := by
  cases hget : e.get? key with
  | some value => exact get?_insertAll_of_get? d hget
  | none => exact get?_foldl_insert_of_notMem e.entries d (get?_eq_none_iff.mp hget)

/-! ### Dictionaries of lists -/

theorem mem_of_get?_ofList {es : List (String × α)} {key : String} {value : α}
    (h : (ofList es).get? key = some value) : (key, value) ∈ es :=
  Entries.mem_of_mem_ofList (Entries.mem_of_get? h)

theorem mem_of_mem_keys_ofList {es : List (String × α)} {key : String}
    (h : key ∈ (ofList es).keys) : ∃ value, (key, value) ∈ es := by
  obtain ⟨e, he, rfl⟩ := List.mem_map.mp h
  exact ⟨e.2, Entries.mem_of_mem_ofList he⟩

/-! ### Applying a function to the values -/

@[simp] theorem entries_mapValues (f : α → β) (d : Dict α) :
    (d.mapValues f).entries = Entries.mapValues f d.entries := rfl

@[simp] theorem get?_mapValues (f : α → β) (d : Dict α) (key : String) :
    (d.mapValues f).get? key = (d.get? key).map f :=
  Entries.get?_mapValues f key d.entries

@[simp] theorem contains_mapValues (f : α → β) (d : Dict α) (key : String) :
    (d.mapValues f).contains key = d.contains key := by
  unfold contains
  rw [get?_mapValues, Option.isSome_map]

@[simp] theorem size_mapValues (f : α → β) (d : Dict α) : (d.mapValues f).size = d.size := by
  simp [size, Entries.mapValues]

theorem mapValues_insert (f : α → β) (d : Dict α) (key : String) (value : α) :
    (d.insert key value).mapValues f = (d.mapValues f).insert key (f value) :=
  ext_entries (Entries.mapValues_insert f key value d.entries)

@[simp] theorem mapValues_empty (f : α → β) : (empty : Dict α).mapValues f = empty := rfl

end Dict

end SymbolicVM

/-!
# Dictionaries in key order

A dictionary maps texts to values and lists its entries by increasing key, in the order of code
points. The order is part of the type, so two dictionaries with the same look-ups are equal and
printing needs no sorting. The operations are first defined on plain lists of entries, because
nested values keep their entries in such a list.
-/

namespace SymbolicVM

variable {α β : Type}

/-! ### Lists of entries -/

namespace Entries

/-- The keys increase strictly. -/
def Ascending (es : List (String × α)) : Prop :=
  es.Pairwise fun a b => a.1 < b.1

/-- The value at a key. -/
def get? (key : String) : List (String × α) → Option α
  | [] => none
  | (k, v) :: rest => if k = key then some v else get? key rest

/-- Puts a value at a key, in key order; an old value at the key is replaced. -/
def insert (key : String) (value : α) : List (String × α) → List (String × α)
  | [] => [(key, value)]
  | (k, v) :: rest =>
    if key < k then (key, value) :: (k, v) :: rest
    else if key = k then (key, value) :: rest
    else (k, v) :: insert key value rest

/-- Puts entries in key order; of several with one key the last stays. -/
def ofList (es : List (String × α)) : List (String × α) :=
  es.foldl (fun acc (k, v) => insert k v acc) []

theorem mem_insert {key : String} {value : α} {es : List (String × α)} {e : String × α}
    (h : e ∈ insert key value es) : e = (key, value) ∨ e ∈ es := by
  induction es with
  | nil => simpa [insert] using h
  | cons a rest ih =>
    simp only [insert] at h
    split at h
    · simpa using h
    · split at h
      · rcases List.mem_cons.mp h with h | h
        · exact .inl h
        · exact .inr (List.mem_cons_of_mem _ h)
      · rcases List.mem_cons.mp h with h | h
        · exact .inr (h ▸ List.mem_cons_self)
        · exact (ih h).imp_right (List.mem_cons_of_mem _)

/-- Inserting keeps the keys increasing. -/
theorem Ascending.insert {es : List (String × α)} (key : String) (value : α)
    (h : Ascending es) : Ascending (insert key value es) := by
  induction es with
  | nil => simp [Entries.insert, Ascending]
  | cons a rest ih =>
    have hcons := List.pairwise_cons.mp h
    simp only [Entries.insert]
    split
    next hlt =>
      refine List.pairwise_cons.mpr ⟨fun e he => ?_, h⟩
      rcases List.mem_cons.mp he with rfl | he
      · exact hlt
      · exact String.lt_trans hlt (hcons.1 e he)
    next hnlt =>
      split
      next heq => exact List.pairwise_cons.mpr ⟨fun e he => heq ▸ hcons.1 e he, hcons.2⟩
      next hne =>
        have hlt : a.1 < key := by
          rcases Std.lt_trichotomy key a.1 with h | h | h
          · exact absurd h hnlt
          · exact absurd h hne
          · exact h
        refine List.pairwise_cons.mpr ⟨fun e he => ?_, ih hcons.2⟩
        rcases mem_insert he with rfl | he
        · exact hlt
        · exact hcons.1 e he

/-- Entries put in order one by one end up in key order. -/
theorem ascending_ofList (es : List (String × α)) : Ascending (ofList es) := by
  suffices h : ∀ acc : List (String × α), Ascending acc →
      Ascending (es.foldl (fun acc (k, v) => insert k v acc) acc) from h [] List.Pairwise.nil
  induction es with
  | nil => exact fun _ h => h
  | cons e rest ih => exact fun acc h => ih _ (h.insert e.1 e.2)

/-- What was put at a key is found there, and all other keys are as before. -/
theorem get?_insert (key : String) (value : α) (es : List (String × α)) (k : String) :
    get? k (insert key value es) = if key = k then some value else get? k es := by
  induction es with
  | nil => simp [insert, get?]
  | cons a rest ih =>
    simp only [insert]
    split
    · simp [get?]
    · split
      next _ heq =>
        by_cases hk : key = k
        · simp [get?, hk]
        · simp [get?, hk, heq ▸ hk]
      next _ hne =>
        simp only [get?, ih]
        by_cases hk : a.1 = k
        · simp [hk, show ¬key = k from fun h => hne (h.trans hk.symm)]
        · simp [hk]

end Entries

/-! ### Dictionaries -/

/-- A finite map from texts to values, listed by increasing key. -/
structure Dict (α : Type) where
  entries : List (String × α)
  ascending : Entries.Ascending entries

namespace Dict

instance [DecidableEq α] : DecidableEq (Dict α) := fun d e =>
  if h : d.entries = e.entries then
    isTrue (by cases d; cases e; cases h; rfl)
  else isFalse fun he => h (he ▸ rfl)

/-- The dictionary without entries. -/
def empty : Dict α := ⟨[], List.Pairwise.nil⟩

instance : Inhabited (Dict α) := ⟨empty⟩

/-- The value at a key. -/
def get? (d : Dict α) (key : String) : Option α :=
  Entries.get? key d.entries

/-- Whether the key has a value. -/
def contains (d : Dict α) (key : String) : Bool :=
  (d.get? key).isSome

/-- Puts a value at a key. -/
def insert (d : Dict α) (key : String) (value : α) : Dict α :=
  ⟨Entries.insert key value d.entries, d.ascending.insert key value⟩

/-- The dictionary of a list of entries; of several with one key the last stays. -/
def ofList (es : List (String × α)) : Dict α :=
  ⟨Entries.ofList es, Entries.ascending_ofList es⟩

/-- Puts all entries of `e` into `d`. -/
def insertAll (d e : Dict α) : Dict α :=
  e.entries.foldl (fun acc (k, v) => acc.insert k v) d

/-- The keys in increasing order. -/
def keys (d : Dict α) : List String :=
  d.entries.map (·.1)

/-- The values in the order of their keys. -/
def values (d : Dict α) : List α :=
  d.entries.map (·.2)

/-- How many keys have a value. -/
def size (d : Dict α) : Nat :=
  d.entries.length

/-- Whether no key has a value. -/
def isEmpty (d : Dict α) : Bool :=
  d.entries.isEmpty

/-- Applies a function to every value. -/
def mapValues (f : α → β) (d : Dict α) : Dict β :=
  ⟨d.entries.map fun (k, v) => (k, f v), by
    have h := d.ascending
    exact List.pairwise_map.mpr h⟩

@[ext] theorem ext_entries {d e : Dict α} (h : d.entries = e.entries) : d = e := by
  cases d; cases e; cases h; rfl

@[simp] theorem get?_empty (key : String) : (empty : Dict α).get? key = none := rfl

theorem get?_insert (d : Dict α) (key : String) (value : α) (k : String) :
    (d.insert key value).get? k = if key = k then some value else d.get? k :=
  Entries.get?_insert key value d.entries k

@[simp] theorem get?_insert_self (d : Dict α) (key : String) (value : α) :
    (d.insert key value).get? key = some value := by
  simp [get?_insert]

theorem get?_insert_of_ne (d : Dict α) {key k : String} (value : α) (h : key ≠ k) :
    (d.insert key value).get? k = d.get? k := by
  simp [get?_insert, h]

end Dict

end SymbolicVM

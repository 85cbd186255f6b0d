import SymbolicVM.Json.Record
import SymbolicVM.Proofs.Dict
import Mathlib.Data.List.Forall2

/-!
# Reading records back

What a record gives back when it is read from its canonical document. `Json.fields?_record` says it
once for all records: every field has the canonical document of its member, or none if the member
was left out. The lemmas after it say for each kind of member when the field is read back as it was,
so a round trip is put together member by member.
-/

namespace SymbolicVM.Json

/-! ### Equality of documents -/

mutual

/-- Whether two documents are equal. -/
def same : Json → Json → Bool
  | .null, .null => true
  | .bool a, .bool b => decide (a = b)
  | .int a, .int b => decide (a = b)
  | .float a, .float b => decide (a = b)
  | .str a, .str b => decide (a = b)
  | .arr a, .arr b => sameItems a b
  | .obj a, .obj b => sameMembers a b
  | _, _ => false

@[inherit_doc same]
def sameItems : List Json → List Json → Bool
  | [], [] => true
  | a :: as, b :: bs => same a b && sameItems as bs
  | _, _ => false

@[inherit_doc same]
def sameMembers : List (String × Json) → List (String × Json) → Bool
  | [], [] => true
  | (k, a) :: as, (l, b) :: bs => decide (k = l) && same a b && sameMembers as bs
  | _, _ => false

end

mutual

theorem same_iff : ∀ {a b : Json}, same a b = true ↔ a = b
  | .arr a, b => by cases b <;> simp [same, @sameItems_iff a]
  | .obj a, b => by cases b <;> simp [same, @sameMembers_iff a]
  | .null, b | .bool _, b | .int _, b | .float _, b | .str _, b => by cases b <;> simp [same]

theorem sameItems_iff : ∀ {a b : List Json}, sameItems a b = true ↔ a = b
  | [], b => by cases b <;> simp [sameItems]
  | a :: as, b => by cases b <;> simp [sameItems, @same_iff a, @sameItems_iff as]

theorem sameMembers_iff : ∀ {a b : List (String × Json)}, sameMembers a b = true ↔ a = b
  | [], b => by cases b <;> simp [sameMembers]
  | (k, a) :: as, b => by
    cases b <;> simp [sameMembers, @same_iff a, @sameMembers_iff as, Prod.ext_iff]

end

instance : DecidableEq Json :=
  fun _ _ => decidable_of_iff _ same_iff

/-! ### Canonical documents -/

theorem canonicalItems_eq (items : List Json) : canonicalItems items = items.map canonical := by
  induction items with
  | nil => rw [canonicalItems]; rfl
  | cons j js ih => rw [canonicalItems, ih, List.map_cons]

theorem canonicalMembers_eq (members : List (String × Json)) :
    canonicalMembers members = Entries.mapValues canonical members := by
  induction members with
  | nil => rw [canonicalMembers]; rfl
  | cons m ms ih =>
    rw [canonicalMembers, ih]
    rfl

theorem canonical_arr (items : List Json) :
    canonical (.arr items) = .arr (items.map canonical) := by
  rw [canonical, canonicalItems_eq]

theorem canonical_obj (members : List (String × Json)) :
    canonical (.obj members) = .obj (Entries.ofList (Entries.mapValues canonical members)) := by
  rw [canonical, canonicalMembers_eq]

/-! ### Members and fields -/

/-- The canonical document of a member, as its field has it. -/
def fieldOf (member : Option (String × Json)) : Option Json :=
  member.map fun e => e.2.canonical

/-- The member has the name, if it is present. -/
def Named (name : String) (member : Option (String × Json)) : Prop :=
  ∀ m ∈ member, m.1 = name

section Named

variable {α : Type} {name : String} {j : Json}

theorem named_always : Named name (always name j) := by
  intro m hm
  obtain rfl := Option.some.inj hm
  rfl

theorem named_whenSome {f : α → Json} {o : Option α} : Named name (whenSome name f o) := by
  intro m hm
  cases o with
  | none => contradiction
  | some a =>
    obtain rfl := Option.some.inj hm
    rfl

theorem named_memberUnless {silent : Bool} : Named name (memberUnless silent name j) := by
  intro m hm
  cases silent with
  | true => contradiction
  | false =>
    obtain rfl := Option.some.inj hm
    rfl

end Named

/-- The members that are present have names out of the list. -/
theorem mem_names_of_named {names : List String} {members : List (Option (String × Json))}
    (h : List.Forall₂ Named names members) {m : String × Json} (hm : m ∈ members.filterMap id) :
    m.1 ∈ names := by
  induction h with
  | nil => simp at hm
  | @cons name member names members hnamed _ ih =>
    cases member with
    | none => exact List.mem_cons_of_mem _ (ih hm)
    | some first =>
      rcases List.mem_cons.mp hm with rfl | hm
      · rw [hnamed _ rfl]
        exact List.mem_cons_self
      · exact List.mem_cons_of_mem _ (ih hm)

theorem keys_nodup_of_named {names : List String} {members : List (Option (String × Json))}
    (hnames : names.Nodup) (h : List.Forall₂ Named names members) :
    ((members.filterMap id).map (·.1)).Nodup := by
  induction h with
  | nil => simp
  | @cons name member names members hnamed hrest ih =>
    obtain ⟨hnot, hnames⟩ := List.nodup_cons.mp hnames
    cases member with
    | none => exact ih hnames
    | some first =>
      refine List.nodup_cons.mpr ⟨fun hmem => ?_, ih hnames⟩
      obtain ⟨m, hm, heq⟩ := List.mem_map.mp hmem
      have hfirst : m.1 = name := heq.trans (hnamed _ rfl)
      exact hnot (hfirst ▸ mem_names_of_named hrest hm)

/-- Looking up the names of a record one after another gives its members. -/
theorem map_get?_of_named {names : List String} {members : List (Option (String × Json))}
    (hnames : names.Nodup) (h : List.Forall₂ Named names members) :
    names.map (fun name => Entries.get? name (members.filterMap id)) =
      members.map fun m => m.map (·.2) := by
  induction h with
  | nil => rfl
  | @cons name member names members hnamed hrest ih =>
    obtain ⟨hnot, hnames⟩ := List.nodup_cons.mp hnames
    have habsent : Entries.get? name (members.filterMap id) = none := by
      refine Entries.get?_eq_none_iff.mpr fun hmem => ?_
      obtain ⟨m, hm, rfl⟩ := List.mem_map.mp hmem
      exact hnot (mem_names_of_named hrest hm)
    cases member with
    | none =>
      rw [List.map_cons, List.map_cons, ← ih hnames]
      exact congrArg (· :: _) habsent
    | some first =>
      have hfirst : first.1 = name := hnamed _ rfl
      -- the other names do not see the first member
      have hothers : ∀ other ∈ names, Entries.get? other (first :: members.filterMap id) =
          Entries.get? other (members.filterMap id) := by
        intro other hother
        rw [Entries.get?, if_neg]
        rintro heq
        exact hnot (hfirst ▸ heq ▸ hother)
      rw [List.map_cons, List.map_cons, ← ih hnames, ← List.map_congr_left hothers]
      refine congrArg (· :: _) ?_
      exact if_pos hfirst

/-- **The fields of a record's canonical document** are the canonical documents of its members. -/
theorem fields?_record {names : List String} {members : List (Option (String × Json))}
    (hnames : names.Nodup) (h : List.Forall₂ Named names members) :
    (record members).canonical.fields? names = some (members.map fieldOf) := by
  have hkeys : ((Entries.mapValues canonical (members.filterMap id)).map (·.1)).Nodup := by
    unfold Entries.mapValues
    rw [List.map_map]
    exact keys_nodup_of_named hnames h
  rw [record, canonical_obj, fields?]
  simp only [Entries.get?_ofList hkeys, Entries.get?_mapValues]
  have hmap := congrArg (List.map (Option.map canonical)) (map_get?_of_named hnames h)
  rw [List.map_map, List.map_map] at hmap
  refine congrArg some (hmap.trans (List.map_congr_left fun m _ => ?_))
  exact Option.map_map _ _ _

/-! ### Fields that are read back -/

section Fields

variable {α : Type} {name : String} {j : Json} {read : Json → Option α} {f : α → Json}

@[simp] theorem str?_canonical (s : String) : (canonical (.str s)).str? = some s := rfl

@[simp] theorem nat?_canonical (n : Nat) : (canonical (.int n)).nat? = some n := by
  have hcanonical : canonical (.int n) = .int n := rfl
  rw [hcanonical, nat?, if_pos (Int.natCast_nonneg n), Int.toNat_natCast]

@[simp] theorem requiredField_always :
    requiredField read (fieldOf (always name j)) = read j.canonical :=
  rfl

/-- A member that is left out for its default value is read as the default. -/
theorem fieldOr_memberUnless {default a : α} {silent : Bool}
    (hsilent : silent = true → a = default) (hread : silent = false → read j.canonical = some a) :
    fieldOr default read (fieldOf (memberUnless silent name j)) = some a := by
  cases silent with
  | true => exact congrArg some (hsilent rfl).symm
  | false => exact hread rfl

/-- A field that is present is read unless it is `null`. -/
theorem optionalField_some {a : α} (hnull : j ≠ .null) (hread : read j = some a) :
    optionalField read (some j) = some (some a) := by
  cases j with
  | null => exact absurd rfl hnull
  | _ => exact congrArg (Option.map some) hread

/-- An optional member is read back if its document is not `null`. -/
theorem optionalField_whenSome {o : Option α}
    (h : ∀ a ∈ o, (f a).canonical ≠ .null ∧ read (f a).canonical = some a) :
    optionalField read (fieldOf (whenSome name f o)) = some o := by
  cases o with
  | none => rfl
  | some a => exact optionalField_some (h a rfl).1 (h a rfl).2

/-- The same of an optional value that is written as `null` when it is absent. -/
theorem optionalField_ofOption {o : Option α}
    (h : ∀ a ∈ o, (f a).canonical ≠ .null ∧ read (f a).canonical = some a) :
    optionalField read (fieldOf (always name (ofOption f o))) = some o := by
  cases o with
  | none => rfl
  | some a => exact optionalField_some (h a rfl).1 (h a rfl).2

theorem optionalField_whenSome_str {o : Option String} :
    optionalField str? (fieldOf (whenSome name str o)) = some o :=
  optionalField_whenSome fun _ _ => ⟨nofun, rfl⟩

theorem optionalField_whenSome_nat {o : Option Nat} :
    optionalField nat? (fieldOf (whenSome name (fun n => .int (n : Nat)) o)) = some o :=
  optionalField_whenSome fun n _ => ⟨nofun, nat?_canonical n⟩

theorem optionalField_ofOption_str {o : Option String} :
    optionalField str? (fieldOf (always name (ofOption str o))) = some o :=
  optionalField_ofOption fun _ _ => ⟨nofun, rfl⟩

/-- A list is read back if its items are. -/
theorem list?_arr {l : List α} (h : ∀ a ∈ l, read (f a).canonical = some a) :
    list? read (canonical (.arr (l.map f))) = some l := by
  rw [canonical_arr, list?, List.map_map]
  induction l with
  | nil => rfl
  | cons a l ih =>
    rw [List.map_cons, List.mapM_cons, ih fun a' ha' => h a' (List.mem_cons_of_mem _ ha')]
    simp [h a List.mem_cons_self]

/-- A list that is left out when it is empty. -/
theorem fieldOr_list {l : List α} (h : ∀ a ∈ l, read (f a).canonical = some a) :
    fieldOr [] (list? read) (fieldOf (memberUnless l.isEmpty name (.arr (l.map f)))) = some l :=
  fieldOr_memberUnless List.isEmpty_iff.mp fun _ => list?_arr h

/-- A truth value that is left out when it is false. -/
theorem fieldOr_bool {b : Bool} :
    fieldOr false bool? (fieldOf (memberUnless (!b) name (.bool b))) = some b := by
  cases b with
  | true => rfl
  | false => rfl

/-- A text that is left out when it is empty. -/
theorem fieldOr_str {s : String} :
    fieldOr "" str? (fieldOf (memberUnless s.isEmpty name (.str s))) = some s :=
  fieldOr_memberUnless String.isEmpty_iff.mp fun _ => rfl

theorem canonical_obj_ne_null (members : List (String × Json)) :
    canonical (.obj members) ≠ .null := by
  rw [canonical_obj]
  nofun

theorem canonical_ofDict (f : α → Json) (d : Dict α) :
    (ofDict f d).canonical = .obj (Entries.mapValues (fun a => (f a).canonical) d.entries) := by
  have hmap : Entries.mapValues canonical (d.entries.map fun e => (e.1, f e.2)) =
      Entries.mapValues (fun a => (f a).canonical) d.entries := by
    unfold Entries.mapValues
    rw [List.map_map]
    rfl
  have hordered : Entries.Ascending (Entries.mapValues (fun a => (f a).canonical) d.entries) :=
    List.pairwise_map.mpr d.ascending
  refine (canonical_obj _).trans ?_
  rw [hmap, Entries.ofList_of_ascending hordered]

theorem mapM_mapValues {es : List (String × α)} (h : ∀ e ∈ es, read (f e.2) = some e.2) :
    (Entries.mapValues f es).mapM (fun m => (read m.2).map fun a => (m.1, a)) = some es := by
  induction es with
  | nil => rfl
  | cons e es ih =>
    have hrest := ih fun e' he' => h e' (List.mem_cons_of_mem _ he')
    unfold Entries.mapValues at hrest ⊢
    rw [List.map_cons, List.mapM_cons, hrest, h e List.mem_cons_self]
    rfl

/-- A dictionary is read back if its values are. -/
theorem dict?_ofDict {d : Dict α} (h : ∀ a ∈ d.values, read (f a).canonical = some a) :
    dict? read (ofDict f d).canonical = some d := by
  have hread : ∀ e ∈ d.entries, read (f e.2).canonical = some e.2 := fun e he =>
    h e.2 (List.mem_map_of_mem he)
  rw [canonical_ofDict, dict?, @mapM_mapValues α read (fun a => (f a).canonical) _ hread]
  exact congrArg some (Dict.ext_entries (Entries.ofList_of_ascending d.ascending))

end Fields

end SymbolicVM.Json

import SymbolicVM.Proofs.Machine.Document

/-!
# What is read is regular

The maps in a value that is read from a canonical document list their entries by increasing key, and
none of them carries the marker of unknowns: an object with the marker is read as an unknown
(`Value.regular_ofJson`). So all values of a delta that is read from a canonical document are
regular (`Delta.reads`). The document has to be canonical, since of several members with one key the
first is looked up and the last ends up in the map.
-/

namespace SymbolicVM

namespace Json

/-! ### Canonical documents and their parts -/

/-- The document lists the members of every object by increasing key, each key once. -/
def IsCanonical (j : Json) : Prop :=
  ∃ j', j = canonical j'

section Canonical

variable {j : Json} {items : List Json} {ms : List (String × Json)}

theorem isCanonical_canonical (j : Json) : IsCanonical j.canonical :=
  ⟨j, rfl⟩

theorem IsCanonical.item (h : IsCanonical (.arr items)) (hj : j ∈ items) : IsCanonical j := by
  obtain ⟨j', h⟩ := h
  cases j' with
  | arr items' =>
    rw [canonical_arr] at h
    obtain rfl := Json.arr.inj h
    obtain ⟨item, -, rfl⟩ := List.mem_map.mp hj
    exact isCanonical_canonical item
  | obj members' =>
    rw [canonical_obj] at h
    contradiction
  | _ => contradiction

theorem IsCanonical.members (h : IsCanonical (.obj ms)) :
    Entries.Ascending ms ∧ ∀ m ∈ ms, IsCanonical m.2 := by
  obtain ⟨j', h⟩ := h
  cases j' with
  | obj members' =>
    rw [canonical_obj] at h
    obtain rfl := Json.obj.inj h
    refine ⟨Entries.ascending_ofList _, fun m hm => ?_⟩
    obtain ⟨m', -, rfl⟩ := List.mem_map.mp (Entries.mem_of_mem_ofList hm)
    exact isCanonical_canonical m'.2
  | arr items' =>
    rw [canonical_arr] at h
    contradiction
  | _ => contradiction

/-- The fields of a canonical record are canonical, be it an object or an array. -/
theorem IsCanonical.fields {names : List String} {fields : List (Option Json)}
    (h : IsCanonical j) (hfields : j.fields? names = some fields) :
    ∀ field ∈ fields, ∀ j' ∈ field, IsCanonical j' := by
  intro field hfield j' hj'
  cases j with
  | obj members =>
    obtain rfl := Option.some.inj hfields
    obtain ⟨name, -, rfl⟩ := List.mem_map.mp hfield
    exact h.members.2 _ (Entries.mem_of_get? hj')
  | arr items =>
    unfold fields? at hfields
    dsimp only at hfields
    split_ifs at hfields
    obtain rfl := Option.some.inj hfields
    rcases List.mem_append.mp hfield with hfield | hfield
    · obtain ⟨item, hitem, rfl⟩ := List.mem_map.mp hfield
      obtain rfl := Option.some.inj hj'
      exact h.item hitem
    · obtain rfl := List.eq_of_mem_replicate hfield
      contradiction
  | _ => contradiction

end Canonical

/-! ### Readers -/

/-- Whatever the reader gives for a canonical document has the property. -/
def Reads {α : Type} (P : α → Prop) (read : Json → Option α) : Prop :=
  ∀ j a, IsCanonical j → read j = some a → P a

theorem exists_of_mem_mapM {α β : Type} {f : α → Option β} {l : List α} {l' : List β} {b : β}
    (h : l.mapM f = some l') (hb : b ∈ l') : ∃ a ∈ l, f a = some b := by
  induction l generalizing l' with
  | nil =>
    obtain rfl := Option.some.inj h
    exact absurd hb List.not_mem_nil
  | cons a l ih =>
    rw [List.mapM_cons] at h
    obtain ⟨first, hfirst, h⟩ := Option.bind_eq_some_iff.mp h
    obtain ⟨rest, hrest, h⟩ := Option.bind_eq_some_iff.mp h
    obtain rfl := Option.some.inj h
    rcases List.mem_cons.mp hb with rfl | hb
    · exact ⟨a, List.mem_cons_self, hfirst⟩
    · obtain ⟨a', ha', heq⟩ := ih hrest hb
      exact ⟨a', List.mem_cons_of_mem a ha', heq⟩

section Readers

variable {α : Type} {P : α → Prop} {read : Json → Option α} {field : Option Json} {a : α}

theorem Reads.list (h : Reads P read) : Reads (fun l => ∀ a ∈ l, P a) (list? read) := by
  intro j l hj hl
  cases j with
  | arr items =>
    intro a ha
    obtain ⟨item, hitem, hread⟩ := exists_of_mem_mapM hl ha
    exact h item a (hj.item hitem) hread
  | _ => contradiction

theorem Reads.dict (h : Reads P read) : Reads (fun d => ∀ a ∈ d.values, P a) (dict? read) := by
  intro j d hj hd
  cases j with
  | obj members =>
    obtain ⟨entries, hentries, rfl⟩ := Option.map_eq_some_iff.mp hd
    intro a ha
    obtain ⟨e, he, rfl⟩ := List.mem_map.mp ha
    obtain ⟨m, hm, hread⟩ := exists_of_mem_mapM hentries (Entries.mem_of_mem_ofList he)
    obtain ⟨b, hb, rfl⟩ := Option.map_eq_some_iff.mp hread
    exact h m.2 b (hj.members.2 m hm) hb
  | _ => contradiction

theorem Reads.fieldOr (h : Reads P read) {default : α} (hdefault : P default)
    (hfield : ∀ j ∈ field, IsCanonical j) (hread : Json.fieldOr default read field = some a) :
    P a := by
  cases field with
  | none =>
    obtain rfl := Option.some.inj hread
    exact hdefault
  | some j => exact h j a (hfield j rfl) hread

theorem Reads.optional (h : Reads P read) {o : Option α} (hfield : ∀ j ∈ field, IsCanonical j)
    (hread : optionalField read field = some o) : ∀ a ∈ o, P a := by
  intro a ha
  obtain rfl := ha
  cases field with
  | none => cases Option.some.inj hread
  | some j =>
    have hj := hfield j rfl
    cases j with
    | null => cases Option.some.inj hread
    | _ =>
      obtain ⟨b, hb, heq⟩ := Option.map_eq_some_iff.mp hread
      obtain rfl := Option.some.inj heq
      exact h _ b hj hb

end Readers

end Json

/-! ### Values -/

namespace Value

theorem regularMap_of_ne_map {v : Value} (h : ∀ entries, v ≠ .map entries) : v.RegularMap :=
  fun entries heq => absurd heq (h entries)

theorem everywhere_regular_of_isScalar {v : Value} (h : v.isScalar = true) :
    v.Everywhere RegularMap := by
  refine (everywhere_of_isScalar h).mpr (regularMap_of_ne_map fun entries heq => ?_)
  rw [heq] at h
  contradiction

theorem regularMap_list (items : List Value) : (Value.list items).RegularMap := by
  refine regularMap_of_ne_map fun entries heq => ?_
  contradiction

theorem everywhere_regular_symbolic (x : Symbolic) : (Value.symbolic x).Everywhere RegularMap := by
  refine everywhere_symbolic.mpr (regularMap_of_ne_map fun entries heq => ?_)
  contradiction

/-- Only `true` is read as `true`. -/
theorem eq_true_of_ofJson {j : Json} (h : ofJson j = .bool true) : j = .bool true := by
  cases j with
  | bool b =>
    obtain rfl := Value.bool.inj h
    rfl
  | int i =>
    unfold ofJson at h
    split at h
    · contradiction
    · contradiction
  | obj members =>
    unfold ofJson at h
    split at h
    · contradiction
    · contradiction
  | _ => contradiction

theorem itemsOfJson_eq (items : List Json) : itemsOfJson items = items.map ofJson := by
  induction items with
  | nil => rw [itemsOfJson]; rfl
  | cons j js ih => rw [itemsOfJson, ih, List.map_cons]

/-- An object whose members are in order, and read as regular values, is read as one. -/
theorem regular_ofJson_obj {ms : List (String × Json)} (hasc : Entries.Ascending ms)
    (h : ∀ m ∈ ms, (ofJson m.2).Everywhere RegularMap) :
    (ofJson (.obj ms)).Everywhere RegularMap := by
  have hasc' : Entries.Ascending (Entries.mapValues ofJson ms) := List.pairwise_map.mpr hasc
  unfold ofJson
  split
  · exact everywhere_regular_symbolic _
  · rename_i hunmarked
    rw [entriesOfJson_eq, Entries.ofList_of_ascending hasc']
    refine everywhere_map.mpr ⟨fun entries heq => ?_, fun e he => ?_⟩
    · obtain rfl := Value.map.inj heq
      refine ⟨hasc', fun hmarked => ?_⟩
      -- the marker is looked up in the document as in the map
      rw [Entries.get?_mapValues] at hmarked
      obtain ⟨j, hj, htrue⟩ := Option.map_eq_some_iff.mp hmarked
      obtain rfl := eq_true_of_ofJson htrue
      exact hunmarked hj
    · obtain ⟨m, hm, rfl⟩ := List.mem_map.mp he
      exact h m hm

mutual

/-- **A value that is read from a canonical document is regular.** -/
theorem regular_ofJson : ∀ j : Json, (ofJson j.canonical).Everywhere RegularMap
  | .null | .bool _ | .float _ | .str _ => everywhere_regular_of_isScalar rfl
  | .int i => by
    have hcanonical : Json.canonical (.int i) = .int i := rfl
    rw [hcanonical, ofJson]
    split
    · exact everywhere_regular_of_isScalar rfl
    · exact everywhere_regular_of_isScalar rfl
  | .arr items => by
    rw [Json.canonical_arr, ofJson, itemsOfJson_eq]
    refine everywhere_list.mpr ⟨regularMap_list _, fun v hv => ?_⟩
    obtain ⟨j, hj, rfl⟩ := List.mem_map.mp hv
    obtain ⟨item, hitem, rfl⟩ := List.mem_map.mp hj
    exact regular_items items item hitem
  | .obj members => by
    rw [Json.canonical_obj]
    refine regular_ofJson_obj (Entries.ascending_ofList _) fun m hm => ?_
    obtain ⟨m', hm', rfl⟩ := List.mem_map.mp (Entries.mem_of_mem_ofList hm)
    exact regular_members members m' hm'

theorem regular_items : ∀ items : List Json, ∀ j ∈ items, (ofJson j.canonical).Everywhere RegularMap
  | [] => fun _ hj => absurd hj List.not_mem_nil
  | item :: items => List.forall_mem_cons.mpr ⟨regular_ofJson item, regular_items items⟩

theorem regular_members : ∀ members : List (String × Json), ∀ m ∈ members,
    (ofJson m.2.canonical).Everywhere RegularMap
  | [] => fun _ hm => absurd hm List.not_mem_nil
  | (_, j) :: members => List.forall_mem_cons.mpr ⟨regular_ofJson j, regular_members members⟩

end

theorem reads_ofJson : Json.Reads (Everywhere RegularMap) (fun j => some (ofJson j)) := by
  rintro j v ⟨j', rfl⟩ hv
  obtain rfl := Option.some.inj hv
  exact regular_ofJson j'

end Value

/-! ### Deltas -/

theorem reads_values :
    Json.Reads (fun d : Dict Value => ∀ v ∈ d.values, v.Everywhere Value.RegularMap)
      valuesOfJson? :=
  Value.reads_ofJson.dict

theorem HeapWrite.reads :
    Json.Reads (fun w => w.value.Everywhere Value.RegularMap) HeapWrite.ofJson? := by
  intro j w hj hw
  obtain ⟨fields, hfields, hw⟩ := Option.bind_eq_some_iff.mp hw
  have hcanonical := hj.fields hfields
  split at hw
  · rename_i address field value
    obtain ⟨_, -, hw⟩ := Option.bind_eq_some_iff.mp hw
    obtain ⟨_, -, hw⟩ := Option.bind_eq_some_iff.mp hw
    obtain ⟨document, hdocument, hw⟩ := Option.bind_eq_some_iff.mp hw
    obtain rfl := Option.some.inj hw
    obtain ⟨j', rfl⟩ := hcanonical value (by simp) document hdocument
    exact Value.regular_ofJson j'
  · contradiction

theorem NewClosure.reads :
    Json.Reads (fun c => ∀ v ∈ c.bindings.values, v.Everywhere Value.RegularMap)
      NewClosure.ofJson? := by
  intro j c hj hc
  obtain ⟨fields, hfields, hc⟩ := Option.bind_eq_some_iff.mp hc
  have hcanonical := hj.fields hfields
  split at hc
  · rename_i id bindings parent
    obtain ⟨_, -, hc⟩ := Option.bind_eq_some_iff.mp hc
    obtain ⟨values, hvalues, hc⟩ := Option.bind_eq_some_iff.mp hc
    obtain ⟨_, -, hc⟩ := Option.bind_eq_some_iff.mp hc
    obtain rfl := Option.some.inj hc
    exact reads_values.fieldOr (by simp) (hcanonical bindings (by simp)) hvalues
  · contradiction

/-- **A delta that is read from a canonical document writes regular values.** -/
theorem Delta.reads :
    Json.Reads (fun d => ∀ v ∈ d.writtenValues, v.Everywhere Value.RegularMap) Delta.ofJson? := by
  intro j d hj hd
  obtain ⟨fields, hfields, hd⟩ := Option.bind_eq_some_iff.mp hd
  have hcanonical := hj.fields hfields
  split at hd
  · rename_i registerWrites varWrites heapWrites newObjects newClosure nextLabel callPush callPop
      returnValue pathCondition reasoning
    obtain ⟨registers, hregisters, hd⟩ := Option.bind_eq_some_iff.mp hd
    obtain ⟨vars, hvars, hd⟩ := Option.bind_eq_some_iff.mp hd
    obtain ⟨writes, hwrites, hd⟩ := Option.bind_eq_some_iff.mp hd
    obtain ⟨_, -, hd⟩ := Option.bind_eq_some_iff.mp hd
    obtain ⟨closure, hclosure, hd⟩ := Option.bind_eq_some_iff.mp hd
    obtain ⟨_, -, hd⟩ := Option.bind_eq_some_iff.mp hd
    obtain ⟨_, -, hd⟩ := Option.bind_eq_some_iff.mp hd
    obtain ⟨_, -, hd⟩ := Option.bind_eq_some_iff.mp hd
    obtain ⟨value, hvalue, hd⟩ := Option.bind_eq_some_iff.mp hd
    obtain ⟨_, -, hd⟩ := Option.bind_eq_some_iff.mp hd
    obtain ⟨_, -, hd⟩ := Option.bind_eq_some_iff.mp hd
    obtain rfl := Option.some.inj hd
    intro v hv
    rcases Delta.mem_writtenValues.mp hv with hv | hv | hv | hv | ⟨c, hc, hv⟩
    · exact reads_values.fieldOr (by simp) (hcanonical registerWrites (by simp)) hregisters v hv
    · exact reads_values.fieldOr (by simp) (hcanonical varWrites (by simp)) hvars v hv
    · obtain ⟨w, hw, rfl⟩ := List.mem_map.mp hv
      exact HeapWrite.reads.list.fieldOr (by simp) (hcanonical heapWrites (by simp)) hwrites w hw
    · exact Value.reads_ofJson.optional (hcanonical returnValue (by simp)) hvalue v hv
    · exact NewClosure.reads.optional (hcanonical newClosure (by simp)) hclosure c hc v hv
  · contradiction

end SymbolicVM

import SymbolicVM.Proofs.Machine.Footprint

/-!
# Numbered identifiers stay below the counter

A state is well numbered when every identifier that occurs in it has a number below the counter:
then a fresh identifier is new. `State.WellNumbered` asks this of the identifiers that a state
happens to have; `State.Numbered` says moreover that all addresses, environments and unknowns are
such identifiers.

Applying a delta brings in what the delta writes and moves the counter past the names that it
reserves (`State.Absorbs`). A delta within its footprint keeps a state numbered
(`State.Numbered.absorb`). For any delta whatever, a well numbered state stays so exactly if the
objects that its heap writes bring into being are covered by the names that it reserves, since a
heap write reserves nothing itself (`State.WellNumbered.absorb_iff`).
-/

namespace SymbolicVM

namespace State

/-- Every numbered identifier of the state has a number below the counter. -/
structure WellNumbered (s : State) : Prop where
  heap : ∀ key ∈ s.heap.keys, ∀ kind ∈ [IdKind.object, .array], ∀ n ∈ kind.number? key,
    n < s.counter
  closures : ∀ id ∈ s.closures.keys, ∀ n ∈ IdKind.environment.number? id, n < s.counter
  symbols : ∀ v ∈ s.values, ∀ x ∈ v.unknowns, ∀ n ∈ IdKind.symbol.number? x.name, n < s.counter

instance (s : State) : Decidable s.WellNumbered :=
  decidable_of_iff
    ((∀ key ∈ s.heap.keys, ∀ kind ∈ [IdKind.object, .array], ∀ n ∈ kind.number? key,
      n < s.counter) ∧
    (∀ id ∈ s.closures.keys, ∀ n ∈ IdKind.environment.number? id, n < s.counter) ∧
    ∀ v ∈ s.values, ∀ x ∈ v.unknowns, ∀ n ∈ IdKind.symbol.number? x.name, n < s.counter)
    ⟨fun ⟨hheap, hclosures, hsymbols⟩ => ⟨hheap, hclosures, hsymbols⟩,
      fun h => ⟨h.heap, h.closures, h.symbols⟩⟩

/-- All addresses, environments and unknowns of the state are identifiers with a number below the
counter. -/
structure Numbered (s : State) : Prop where
  heap : ∀ key ∈ s.heap.keys, ∃ n < s.counter,
    key = IdKind.object.name n ∨ key = IdKind.array.name n
  closures : ∀ id ∈ s.closures.keys, ∃ n < s.counter, id = IdKind.environment.name n
  symbols : ∀ v ∈ s.values, ∀ x ∈ v.unknowns, ∃ n < s.counter, x.name = IdKind.symbol.name n

theorem values_start : ({} : State).values = [] := rfl

theorem numbered_start : ({} : State).Numbered where
  heap := by simp
  closures := by simp
  symbols := by simp [values_start]

theorem wellNumbered_start : ({} : State).WellNumbered where
  heap := by simp
  closures := by simp
  symbols := by simp [values_start]

/-! ### What a delta brings into a state -/

/-- The state `t` has what `s` has and what the delta brings: its values, objects and environment.
Its counter is past the names that the delta reserves. -/
structure Absorbs (s : State) (d : Delta) (t : State) : Prop where
  grows : Grows s t d.writtenValues
    (d.newObjects.map (·.address) ++ d.heapWrites.map (·.address))
    (d.newClosure.toList.map (·.id))
  heap : t.heap = (s.effect d).1.heap
  counter : d.reservations.foldlM reserveNumber s.counter = .ok t.counter

variable {s t : State} {d : Delta}

theorem absorbs_of_apply {applied : Applied} (h : s.apply d = .ok applied) :
    s.Absorbs d applied.state := by
  rw [apply_eq] at h
  obtain ⟨c, hc, rfl⟩ := map_eq_ok.mp h
  have hgrows := grows_effect s d
  exact ⟨⟨hgrows.values, hgrows.heap, hgrows.closures⟩, rfl, hc⟩

/-- Applying a delta succeeds if the numbers of the names that it reserves have a successor. -/
theorem exists_apply (s : State) {d : Delta}
    (h : ∀ name ∈ d.reservations, ∀ n ∈ IdKind.anyNumber? name, n < UInt64.size - 1) :
    ∃ applied, s.apply d = .ok applied := by
  have hroom : ∀ name ∈ d.reservations, ∀ n, IdKind.anyNumber? name = some n →
      n + 1 < counterBound := by
    intro name hname n hn
    have hlt := h name hname n hn
    unfold counterBound
    omega
  obtain ⟨c, hc⟩ := exists_foldlM_reserveNumber s.counter hroom
  rw [apply_eq, hc]
  exact ⟨_, rfl⟩

namespace Absorbs

theorem counter_le (h : s.Absorbs d t) : s.counter ≤ t.counter :=
  (foldlM_reserveNumber h.counter).1

/-- A name that the delta reserves has a number below the new counter. -/
theorem lt_of_reserved (h : s.Absorbs d t) {kind : IdKind} {name : String} {n : Nat}
    (hname : name ∈ d.reservations) (hn : kind.number? name = some n) : n < t.counter :=
  (foldlM_reserveNumber h.counter).2.1 name hname n (IdKind.anyNumber?_eq_some hn)

theorem address_mem_reservations {obj : NewObject} (h : obj ∈ d.newObjects) :
    obj.address ∈ d.reservations := by
  unfold Delta.reservations Delta.allocations
  exact List.mem_append_left _ (List.mem_append_left _ (List.mem_map_of_mem h))

theorem id_mem_reservations {c : NewClosure} (h : d.newClosure = some c) :
    c.id ∈ d.reservations := by
  unfold Delta.reservations Delta.allocations
  rw [h]
  exact List.mem_append_left _ (List.mem_append_right _ (by simp))

theorem name_mem_reservations {v : Value} {x : Symbolic} (hv : v ∈ d.writtenValues)
    (hx : x ∈ v.unknowns) : x.name ∈ d.reservations := by
  unfold Delta.reservations Delta.symbolNames
  exact List.mem_append_right _ (List.mem_flatMap.mpr ⟨v, hv, List.mem_map_of_mem hx⟩)

end Absorbs

/-- A fresh name that the delta reserves is numbered from the old counter on and below the new. -/
theorem Absorbs.exists_number (h : s.Absorbs d t) {kind : IdKind} {name : String}
    (hname : name ∈ d.reservations) (hfresh : s.Fresh kind name) :
    ∃ n, s.counter ≤ n ∧ n < t.counter ∧ name = kind.name n := by
  obtain ⟨n, hle, hroom, rfl⟩ := hfresh
  refine ⟨n, hle, h.lt_of_reserved hname (IdKind.number?_name kind ?_), rfl⟩
  omega

/-- **A delta within its footprint keeps a state numbered.** -/
theorem Numbered.absorb (hs : s.Numbered) (hd : d.Footprint s) (h : s.Absorbs d t) :
    t.Numbered := by
  have hle := h.counter_le
  -- addresses of new objects, which heap writes may go to as well
  have hnew : ∀ address ∈ d.newObjects.map (·.address), ∃ n < t.counter,
      address = IdKind.object.name n ∨ address = IdKind.array.name n := by
    intro address haddress
    obtain ⟨obj, hobj, rfl⟩ := List.mem_map.mp haddress
    have hreserved := Absorbs.address_mem_reservations hobj
    rcases hd.objects obj hobj with hfresh | hfresh
    · obtain ⟨n, -, hlt, hname⟩ := h.exists_number hreserved hfresh
      exact ⟨n, hlt, .inl hname⟩
    · obtain ⟨n, -, hlt, hname⟩ := h.exists_number hreserved hfresh
      exact ⟨n, hlt, .inr hname⟩
  have hold : ∀ key ∈ s.heap.keys, ∃ n < t.counter,
      key = IdKind.object.name n ∨ key = IdKind.array.name n := by
    intro key hkey
    obtain ⟨n, hlt, hname⟩ := hs.heap key hkey
    exact ⟨n, by omega, hname⟩
  refine ⟨fun key hkey => ?_, fun id hid => ?_, fun v hv x hx => ?_⟩
  · rcases (h.grows.heap key).mp hkey with hkey | hkey
    · exact hold key hkey
    · rcases List.mem_append.mp hkey with hkey | hkey
      · exact hnew key hkey
      · obtain ⟨w, hw, rfl⟩ := List.mem_map.mp hkey
        rcases hd.writes w hw with hmem | hmem
        · exact hold w.address hmem
        · exact hnew w.address hmem
  · rcases (h.grows.closures id).mp hid with hid | hid
    · obtain ⟨n, hlt, hname⟩ := hs.closures id hid
      exact ⟨n, by omega, hname⟩
    · obtain ⟨c, hc, rfl⟩ := List.mem_map.mp hid
      have hc := Option.mem_toList.mp hc
      obtain ⟨n, -, hlt, hname⟩ :=
        h.exists_number (Absorbs.id_mem_reservations hc) (hd.closure c hc)
      exact ⟨n, hlt, hname⟩
  · have hknown : ∀ u ∈ s.values, x ∈ u.unknowns →
        ∃ n < t.counter, x.name = IdKind.symbol.name n := by
      intro u hu hxu
      obtain ⟨n, hlt, hname⟩ := hs.symbols u hu x hxu
      exact ⟨n, by omega, hname⟩
    rcases h.grows.values v hv with hv | hv
    · exact hknown v hv hx
    · rcases (hd.values v hv).of_mem_unknowns x hx with ⟨u, hu, hxu⟩ | hfresh
      · exact hknown u hu hxu
      · obtain ⟨n, -, hlt, hname⟩ :=
          h.exists_number (Absorbs.name_mem_reservations hv hx) hfresh
        exact ⟨n, hlt, hname⟩

/-- A fresh address is not on the heap of a numbered state. -/
theorem Numbered.address_notMem (hs : s.Numbered) {kind : IdKind} {address : String}
    (hfresh : s.Fresh kind address) : address ∉ s.heap.keys := by
  rintro hmem
  obtain ⟨n, hle, -, rfl⟩ := hfresh
  obtain ⟨m, hlt, hname | hname⟩ := hs.heap _ hmem
  · obtain ⟨-, rfl⟩ := IdKind.eq_of_name_eq hname
    omega
  · obtain ⟨-, rfl⟩ := IdKind.eq_of_name_eq hname
    omega

theorem Numbered.id_notMem (hs : s.Numbered) {kind : IdKind} {id : String}
    (hfresh : s.Fresh kind id) : id ∉ s.closures.keys := by
  rintro hmem
  obtain ⟨n, hle, -, rfl⟩ := hfresh
  obtain ⟨m, hlt, hname⟩ := hs.closures _ hmem
  obtain ⟨-, rfl⟩ := IdKind.eq_of_name_eq hname
  omega

/-! ### Deltas of any kind -/

end State

/-- Where a heap write of the delta goes to a numbered address, the number is below the counter or
at most that of a name that the delta reserves. -/
def Delta.WritesCovered (d : Delta) (s : State) : Prop :=
  ∀ w ∈ d.heapWrites, ∀ kind ∈ [IdKind.object, .array], ∀ n ∈ kind.number? w.address,
    n < s.counter ∨ ∃ name ∈ d.reservations, ∃ m ∈ IdKind.anyNumber? name, n ≤ m

instance (d : Delta) (s : State) : Decidable (d.WritesCovered s) :=
  inferInstanceAs (Decidable (∀ w ∈ d.heapWrites, ∀ kind ∈ [IdKind.object, .array],
    ∀ n ∈ kind.number? w.address,
      n < s.counter ∨ ∃ name ∈ d.reservations, ∃ m ∈ IdKind.anyNumber? name, n ≤ m))

namespace State

variable {s t : State} {d : Delta}

/-- The new counter is past a number if the old one is or the delta reserves a name that is at least
as high, and in no other case. -/
theorem Absorbs.lt_counter_iff (h : s.Absorbs d t) {n : Nat} :
    n < t.counter ↔
      n < s.counter ∨ ∃ name ∈ d.reservations, ∃ m ∈ IdKind.anyNumber? name, n ≤ m := by
  obtain ⟨hle, habove, hleast⟩ := foldlM_reserveNumber h.counter
  constructor
  · intro hlt
    rcases hleast with hsame | ⟨name, hname, m, hm, hlast⟩
    · exact .inl (by omega)
    · exact .inr ⟨name, hname, m, hm, by omega⟩
  · rintro (hlt | ⟨name, hname, m, hm, hnm⟩)
    · omega
    · have hreserved := habove name hname m hm
      omega

/-- **A well numbered state stays well numbered exactly if the heap writes are covered.** New
objects, environments and unknowns are reserved whatever the delta is. -/
theorem WellNumbered.absorb_iff (hs : s.WellNumbered) (h : s.Absorbs d t) :
    t.WellNumbered ↔ d.WritesCovered s := by
  have hle := h.counter_le
  constructor
  · -- a heap write puts its address on the new heap, whether it was there before or not
    intro ht w hw kind hkind n hn
    have hmem : w.address ∈ t.heap.keys :=
      (h.grows.heap w.address).mpr (.inr (List.mem_append_right _ (List.mem_map_of_mem hw)))
    exact h.lt_counter_iff.mp (ht.heap w.address hmem kind hkind n hn)
  · intro hcovered
    refine ⟨fun key hkey kind hkind n hn => ?_, fun id hid n hn => ?_, fun v hv x hx n hn => ?_⟩
    · rcases (h.grows.heap key).mp hkey with hkey | hkey
      · have hlt := hs.heap key hkey kind hkind n hn
        omega
      · rcases List.mem_append.mp hkey with hkey | hkey
        · obtain ⟨obj, hobj, rfl⟩ := List.mem_map.mp hkey
          exact h.lt_of_reserved (Absorbs.address_mem_reservations hobj) hn
        · obtain ⟨w, hw, rfl⟩ := List.mem_map.mp hkey
          exact h.lt_counter_iff.mpr (hcovered w hw kind hkind n hn)
    · rcases (h.grows.closures id).mp hid with hid | hid
      · have hlt := hs.closures id hid n hn
        omega
      · obtain ⟨c, hc, rfl⟩ := List.mem_map.mp hid
        exact h.lt_of_reserved (Absorbs.id_mem_reservations (Option.mem_toList.mp hc)) hn
    · rcases h.grows.values v hv with hv | hv
      · have hlt := hs.symbols v hv x hx n hn
        omega
      · exact h.lt_of_reserved (Absorbs.name_mem_reservations hv hx) hn

/-- A delta within its footprint writes only to objects that are there or that it creates. -/
theorem WellNumbered.writesCovered_of_footprint (hs : s.WellNumbered) (hd : d.Footprint s) :
    d.WritesCovered s := by
  intro w hw kind hkind n hn
  rcases hd.writes w hw with hmem | hmem
  · exact .inl (hs.heap w.address hmem kind hkind n hn)
  · obtain ⟨obj, hobj, haddress⟩ := List.mem_map.mp hmem
    have hreserved : w.address ∈ d.reservations :=
      haddress ▸ Absorbs.address_mem_reservations hobj
    exact .inr ⟨w.address, hreserved, n, IdKind.anyNumber?_eq_some hn, Nat.le_refl n⟩

/-- What a delta within its footprint allocates is not on the heap of a well numbered state. -/
theorem WellNumbered.address_notMem (hs : s.WellNumbered) (hd : d.Footprint s) {obj : NewObject}
    (hobj : obj ∈ d.newObjects) : obj.address ∉ s.heap.keys := by
  intro hmem
  have hold : ∀ kind ∈ [IdKind.object, .array], ¬ s.Fresh kind obj.address := by
    rintro kind hkind ⟨n, hle, hroom, hname⟩
    have hnumber : kind.number? obj.address = some n :=
      hname ▸ IdKind.number?_name kind (by omega)
    have hlt := hs.heap obj.address hmem kind hkind n hnumber
    omega
  rcases hd.objects obj hobj with hfresh | hfresh
  · exact hold .object (by simp) hfresh
  · exact hold .array (by simp) hfresh

/-! ### Deltas that can be applied -/

/-- The counter fits its word and is past the numbers of all unknowns of the state, whatever their
kind. -/
structure Reserved (s : State) : Prop where
  counter : s.counter < counterBound
  unknowns : ∀ v ∈ s.values, ∀ x ∈ v.unknowns, ∀ n ∈ IdKind.anyNumber? x.name, n < s.counter

theorem reserved_start : ({} : State).Reserved where
  counter := by decide
  unknowns := by simp [values_start]

/-- Any delta keeps this, since all values that a delta writes are reserved. -/
theorem Reserved.absorb (hs : s.Reserved) (h : s.Absorbs d t) : t.Reserved where
  counter := foldlM_reserveNumber_lt hs.counter h.counter
  unknowns v hv x hx n hn := by
    rcases h.grows.values v hv with hv | hv
    · exact Nat.lt_of_lt_of_le (hs.unknowns v hv x hx n hn) h.counter_le
    · have hname := Absorbs.name_mem_reservations hv hx
      exact (foldlM_reserveNumber h.counter).2.1 x.name hname n hn

/-- A delta within its footprint can be applied: the names that it reserves are reserved already, or
are fresh and have a successor. -/
theorem Reserved.exists_apply (hs : s.Reserved) (hd : d.Footprint s) :
    ∃ applied, s.apply d = .ok applied := by
  apply State.exists_apply
  intro name hname n hn
  have hfresh : (∃ kind, s.Fresh kind name) → n < UInt64.size - 1 := by
    rintro ⟨kind, m, -, hroom, rfl⟩
    rw [IdKind.anyNumber?_eq_some (IdKind.number?_name kind (by omega))] at hn
    obtain rfl := Option.some.inj hn
    unfold counterBound at hroom
    omega
  rcases List.mem_append.mp hname with hname | hname
  · exact hfresh (hd.fresh_of_mem_allocations hname)
  · rcases hd.of_mem_symbolNames hname with ⟨u, hu, x, hx, rfl⟩ | h
    · have hlt := hs.unknowns u hu x hx n hn
      have hcounter := hs.counter
      unfold counterBound at hcounter
      omega
    · exact hfresh h

/-! ### The fields of a new object -/

/-- Every field of the object at the address, if there is one, is among the writes. -/
def FieldsFrom (address : String) (writes : List HeapWrite) (heap : Dict HeapObject) : Prop :=
  ∀ obj, heap.get? address = some obj → ∀ field v, obj.fields.get? field = some v →
    ⟨address, field, v⟩ ∈ writes

theorem FieldsFrom.installObject {address : String} {writes : List HeapWrite} {u : State}
    (h : FieldsFrom address writes u.heap) (obj : NewObject) :
    FieldsFrom address writes (u.installObject obj).heap := by
  intro o ho field v hv
  unfold State.installObject at ho
  dsimp only at ho
  rw [Dict.get?_insert] at ho
  split_ifs at ho with haddress
  · obtain rfl := Option.some.inj ho
    cases hold : u.heap.get? obj.address with
    | none => simp [hold] at hv
    | some old =>
      rw [hold] at hv
      exact h old (haddress ▸ hold) field v hv
  · exact h o ho field v hv

theorem FieldsFrom.writeField {address : String} {writes : List HeapWrite} {u : State}
    (h : FieldsFrom address writes u.heap) {w : HeapWrite} (hw : w ∈ writes) :
    FieldsFrom address writes (u.writeField w).heap := by
  intro o ho field v hv
  unfold State.writeField at ho
  dsimp only at ho
  rw [Dict.get?_insert] at ho
  split_ifs at ho with haddress
  · obtain rfl := Option.some.inj ho
    rw [Dict.get?_insert] at hv
    split_ifs at hv with hfield
    · obtain rfl := Option.some.inj hv
      rw [← haddress, ← hfield]
      exact hw
    · cases hold : u.heap.get? w.address with
      | none => simp [hold] at hv
      | some old =>
        rw [hold] at hv
        exact h old (haddress ▸ hold) field v hv
  · exact h o ho field v hv

theorem FieldsFrom.foldl {α : Type} {address : String} {writes : List HeapWrite}
    {step : State → α → State} {l : List α}
    (hstep : ∀ u : State, ∀ a ∈ l, FieldsFrom address writes u.heap →
      FieldsFrom address writes (step u a).heap) {u : State}
    (h : FieldsFrom address writes u.heap) : FieldsFrom address writes (l.foldl step u).heap := by
  induction l generalizing u with
  | nil => exact h
  | cons a l ih =>
    rw [List.foldl_cons]
    refine ih (fun u b hb => hstep u b (List.mem_cons_of_mem _ hb)) ?_
    exact hstep u a List.mem_cons_self h

theorem heap_modifyCurrent (u : State) (change : Frame → Frame) :
    (u.modifyCurrent change).heap = u.heap := by
  unfold modifyCurrent
  split
  · rfl
  · rfl

theorem heap_install (s : State) (d : Delta) :
    (s.install d).heap = (d.newObjects.foldl State.installObject s).heap := by
  unfold install
  cases d.newClosure with
  | none => rfl
  | some c => exact heap_modifyCurrent _ _

theorem heap_record (s : State) (d : Delta) :
    (s.record d).heap = (d.heapWrites.foldl State.writeField
      (d.registerWrites.entries.foldl (fun s e => s.writeRegister e.1 e.2) s)).heap := by
  unfold record
  cases d.pathCondition with
  | none => rfl
  | some cond => rfl

theorem heap_store (s : State) (name : String) (v : Value) : (s.store name v).heap = s.heap := by
  unfold store
  split
  · rfl
  · dsimp only
    split
    · rfl
    · rw [heap_modifyCurrent]
      split
      · split
        · rfl
        · rfl
      · rfl

theorem heap_moveStack (s : State) (d : Delta) : (s.moveStack d).1.heap = s.heap := by
  have hpush : (d.callPush.elim s s.pushFrame).heap = s.heap := by
    cases d.callPush with
    | none => rfl
    | some p => rfl
  have hvars : ((d.callPush.elim s s.pushFrame).writeVars d.callPush.isSome d.varWrites).heap =
      s.heap := by
    refine Eq.trans ?_ hpush
    refine foldl_untouched heap (fun u e => ?_) _ _
    dsimp only
    split_ifs
    · exact heap_modifyCurrent u _
    · exact heap_store u e.1 e.2
  unfold moveStack popFrame
  dsimp only
  split_ifs
  · split
    · exact hvars
    · exact hvars
  · exact hvars

/-- An object that was not there before has only the fields that the delta writes. -/
theorem fieldsFrom_effect {address : String} (h : address ∉ s.heap.keys) :
    FieldsFrom address d.heapWrites (s.effect d).1.heap := by
  have hstart : FieldsFrom address d.heapWrites s.heap := by
    intro obj hobj
    rw [Dict.get?_eq_none_iff.mpr h] at hobj
    contradiction
  have hinstall : FieldsFrom address d.heapWrites (s.install d).heap := by
    rw [heap_install]
    exact FieldsFrom.foldl (fun _ obj _ hu => hu.installObject obj) hstart
  have hregisters : (d.registerWrites.entries.foldl (fun s e => s.writeRegister e.1 e.2)
      (s.install d)).heap = (s.install d).heap :=
    foldl_untouched heap (fun u _ => heap_modifyCurrent u _) _ _
  unfold effect
  rw [heap_moveStack, heap_record]
  refine FieldsFrom.foldl (fun _ w hw hu => hu.writeField hw) ?_
  rwa [hregisters]

end State

end SymbolicVM

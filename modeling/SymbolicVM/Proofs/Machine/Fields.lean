import SymbolicVM.Proofs.Machine.Numbering

/-!
# The fields of an object

An object that is on the heap stays there, and a delta changes its fields by the heap writes to its
address and by nothing else: announcing the object again keeps its fields, and registers, variables,
environments and frames are elsewhere (`State.FieldsAt.apply`). So a sequence of deltas that do not
write to the address leaves the fields as they are (`State.FieldsAt.applyAll`).
-/

namespace SymbolicVM

/-- The fields of the object at an address after heap writes. -/
def fieldsAfter (address : String) (fields : Dict Value) (writes : List HeapWrite) : Dict Value :=
  writes.foldl
    (fun fields w => if w.address = address then fields.insert w.field w.value else fields) fields

theorem fieldsAfter_of_ne {address : String} {fields : Dict Value} {writes : List HeapWrite}
    (h : ∀ w ∈ writes, w.address ≠ address) : fieldsAfter address fields writes = fields := by
  induction writes with
  | nil => rfl
  | cons w ws ih =>
    obtain ⟨hw, hws⟩ := List.forall_mem_cons.mp h
    unfold fieldsAfter at ih ⊢
    rw [List.foldl_cons, if_neg hw]
    exact ih hws

namespace State

/-- The state after a sequence of deltas. -/
def applyAll (s : State) (ds : List Delta) : Except Overflow State :=
  ds.foldlM (fun s d => (s.apply d).map Applied.state) s

theorem applyAll_cons_eq_ok {s t : State} {d : Delta} {ds : List Delta}
    (h : s.applyAll (d :: ds) = .ok t) :
    ∃ applied, s.apply d = .ok applied ∧ applied.state.applyAll ds = .ok t := by
  unfold applyAll at h
  rw [List.foldlM_cons] at h
  obtain ⟨next, hfirst, hrest⟩ := bind_eq_ok.mp h
  obtain ⟨applied, happlied, rfl⟩ := map_eq_ok.mp hfirst
  exact ⟨applied, happlied, hrest⟩

/-- There is an object with these fields at the address. -/
def FieldsAt (address : String) (fields : Dict Value) (heap : Dict HeapObject) : Prop :=
  ∃ obj, heap.get? address = some obj ∧ obj.fields = fields

variable {s t : State} {d : Delta} {address : String} {fields : Dict Value}

namespace FieldsAt

/-- An object that is announced again keeps its fields. -/
theorem installObject (h : FieldsAt address fields s.heap) (new : NewObject) :
    FieldsAt address fields (s.installObject new).heap := by
  obtain ⟨obj, hobj, hfields⟩ := h
  unfold State.installObject FieldsAt
  dsimp only
  rw [Dict.get?_insert]
  split_ifs with haddress
  · refine ⟨_, rfl, ?_⟩
    rw [haddress, hobj]
    exact hfields
  · exact ⟨obj, hobj, hfields⟩

theorem writeField (h : FieldsAt address fields s.heap) (w : HeapWrite) :
    FieldsAt address (if w.address = address then fields.insert w.field w.value else fields)
      (s.writeField w).heap := by
  obtain ⟨obj, hobj, hfields⟩ := h
  unfold State.writeField FieldsAt
  dsimp only
  rw [Dict.get?_insert]
  split_ifs with haddress
  · refine ⟨_, rfl, ?_⟩
    rw [haddress, hobj, ← hfields]
    rfl
  · exact ⟨obj, hobj, hfields⟩

theorem foldl_installObject (h : FieldsAt address fields s.heap) (news : List NewObject) :
    FieldsAt address fields (news.foldl State.installObject s).heap := by
  induction news generalizing s with
  | nil => exact h
  | cons new news ih => exact ih (h.installObject new)

theorem foldl_writeField (h : FieldsAt address fields s.heap) (writes : List HeapWrite) :
    FieldsAt address (fieldsAfter address fields writes)
      (writes.foldl State.writeField s).heap := by
  induction writes generalizing s fields with
  | nil => exact h
  | cons w ws ih => exact ih (h.writeField w)

/-- Behind its new objects, a delta changes the fields of an object by its heap writes to the
address. -/
theorem of_install {applied : Applied} (h : FieldsAt address fields (s.install d).heap)
    (happly : s.apply d = .ok applied) :
    FieldsAt address (fieldsAfter address fields d.heapWrites) applied.state.heap := by
  rw [apply_eq] at happly
  obtain ⟨c, -, rfl⟩ := map_eq_ok.mp happly
  have hregisters : (d.registerWrites.entries.foldl (fun s e => s.writeRegister e.1 e.2)
      (s.install d)).heap = (s.install d).heap :=
    foldl_untouched heap (fun u _ => heap_modifyCurrent u _) _ _
  rw [heap_withCounter, effect, heap_moveStack, heap_record]
  rw [← hregisters] at h
  exact h.foldl_writeField d.heapWrites

/-- **A delta changes the fields of an object by its heap writes to the address.** -/
theorem apply {applied : Applied} (h : FieldsAt address fields s.heap)
    (happly : s.apply d = .ok applied) :
    FieldsAt address (fieldsAfter address fields d.heapWrites) applied.state.heap := by
  refine of_install ?_ happly
  rw [heap_install]
  exact h.foldl_installObject d.newObjects

/-- The only new object of a delta, at an address that is free, has the fields that the delta
writes. -/
theorem apply_new {applied : Applied} {hint : Option String}
    (hnew : d.newObjects = [⟨address, hint⟩]) (hfree : s.heap.get? address = none)
    (happly : s.apply d = .ok applied) :
    FieldsAt address (fieldsAfter address .empty d.heapWrites) applied.state.heap := by
  refine of_install ?_ happly
  rw [heap_install, hnew]
  refine ⟨_, Dict.get?_insert_self _ _ _, ?_⟩
  rw [hfree]
  rfl

/-- Deltas that do not write to the address leave the fields of the object alone. -/
theorem applyAll {ds : List Delta} (h : FieldsAt address fields s.heap)
    (hds : ∀ d ∈ ds, ∀ w ∈ d.heapWrites, w.address ≠ address) (happly : s.applyAll ds = .ok t) :
    FieldsAt address fields t.heap := by
  induction ds generalizing s with
  | nil =>
    obtain rfl := Except.ok.inj happly
    exact h
  | cons d ds ih =>
    obtain ⟨hd, hrest⟩ := List.forall_mem_cons.mp hds
    obtain ⟨applied, hfirst, happly⟩ := applyAll_cons_eq_ok happly
    have hstep := h.apply hfirst
    rw [fieldsAfter_of_ne hd] at hstep
    exact ih hstep hrest happly

end FieldsAt

end State

end SymbolicVM

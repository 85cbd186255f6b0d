import SymbolicVM.Oracle.Response
import SymbolicVM.Proofs.Except
import SymbolicVM.Proofs.Machine.Substitution

/-!
# Naming changes nothing but names

The shape of a value is what is left of it when the names of its unknowns are erased. Naming the
unknowns of a value keeps its shape (`Response.shape_of_nameValue`), and so does naming all unknowns
of a delta (`Response.shape_of_nameDelta`): the keys, the known values, the hints and constraints of
the unknowns stay as they are, and so does all that a delta has besides values.
-/

namespace SymbolicVM

/-- The unknown without its name. -/
def Symbolic.unnamed (x : Symbolic) : Value :=
  .symbolic { x with name := "" }

/-- The value without the names of its unknowns. -/
def Value.shape (v : Value) : Value :=
  v.subst Symbolic.unnamed

/-- The delta without the names of the unknowns in its values. -/
def Delta.shape (d : Delta) : Delta :=
  d.subst Symbolic.unnamed

namespace Value

theorem shape_list (items : List Value) : (Value.list items).shape = .list (items.map shape) :=
  subst_list items

theorem shape_map (entries : List (String × Value)) :
    (Value.map entries).shape = .map (Entries.mapValues shape entries) :=
  subst_map entries

end Value

theorem Delta.writtenValues_shape (d : Delta) :
    d.shape.writtenValues = d.writtenValues.map Value.shape := by
  have hdict : ∀ b : Dict Value,
      (b.mapValues (Value.subst Symbolic.unnamed)).values = b.values.map Value.shape := by
    intro b
    simp [Dict.values, Entries.mapValues, Value.shape]
  have hwrites : (d.heapWrites.map (HeapWrite.subst Symbolic.unnamed)).map (·.value) =
      (d.heapWrites.map (·.value)).map Value.shape := by
    rw [List.map_map, List.map_map]
    rfl
  have hreturn : (d.returnValue.map (Value.subst Symbolic.unnamed)).toList =
      d.returnValue.toList.map Value.shape := Option.toList_map ..
  unfold Delta.shape Delta.subst writtenValues
  simp only [hdict, hwrites, hreturn, List.map_append]
  cases d.newClosure with
  | none => rfl
  | some c => exact congrArg _ (hdict c.bindings)

namespace Response

mutual

/-- **Naming the unknowns of a value keeps its shape.** -/
theorem shape_of_nameValue : ∀ {v v' : Value} {next next' : Nat},
    nameValue next v = .ok (v', next') → v'.shape = v.shape
  | .null, _, _, _, h | .bool _, _, _, _, h | .int _, _, _, _, h | .float _, _, _, _, h
  | .str _, _, _, _, h => by
    obtain ⟨rfl, -⟩ := Prod.mk.inj (Except.ok.inj h)
    rfl
  | .symbolic x, v', next, next', h => by
    rw [nameValue] at h
    split_ifs at h
    · obtain ⟨n, -, heq⟩ := map_eq_ok.mp h
      obtain ⟨rfl, -⟩ := Prod.mk.inj heq
      unfold Value.shape
      rw [Value.subst_symbolic, Value.subst_symbolic]
      rfl
    · obtain ⟨rfl, -⟩ := Prod.mk.inj (Except.ok.inj h)
      rfl
  | .list items, v', next, next', h => by
    rw [nameValue] at h
    obtain ⟨⟨items', n⟩, hnamed, heq⟩ := map_eq_ok.mp h
    obtain ⟨rfl, -⟩ := Prod.mk.inj heq
    rw [Value.shape_list, Value.shape_list, shape_of_nameItems hnamed]
  | .map entries, v', next, next', h => by
    rw [nameValue] at h
    obtain ⟨⟨es', n⟩, hnamed, heq⟩ := map_eq_ok.mp h
    obtain ⟨rfl, -⟩ := Prod.mk.inj heq
    rw [Value.shape_map, Value.shape_map, shape_of_nameEntries hnamed]

theorem shape_of_nameItems : ∀ {items items' : List Value} {next next' : Nat},
    nameItems next items = .ok (items', next') → items'.map Value.shape = items.map Value.shape
  | [], _, _, _, h => by
    rw [nameItems] at h
    obtain ⟨rfl, -⟩ := Prod.mk.inj (Except.ok.inj h)
    rfl
  | v :: vs, _, _, _, h => by
    rw [nameItems] at h
    obtain ⟨⟨first, n⟩, hfirst, h⟩ := bind_eq_ok.mp h
    obtain ⟨⟨rest, m⟩, hrest, h⟩ := bind_eq_ok.mp h
    obtain ⟨rfl, -⟩ := Prod.mk.inj (Except.ok.inj h)
    rw [List.map_cons, List.map_cons, shape_of_nameValue hfirst, shape_of_nameItems hrest]

theorem shape_of_nameEntries : ∀ {es es' : List (String × Value)} {next next' : Nat},
    nameEntries next es = .ok (es', next') →
      Entries.mapValues Value.shape es' = Entries.mapValues Value.shape es
  | [], _, _, _, h => by
    rw [nameEntries] at h
    obtain ⟨rfl, -⟩ := Prod.mk.inj (Except.ok.inj h)
    rfl
  | (k, v) :: es, _, _, _, h => by
    rw [nameEntries] at h
    obtain ⟨⟨v', n⟩, hv, h⟩ := bind_eq_ok.mp h
    obtain ⟨⟨rest, m⟩, hrest, h⟩ := bind_eq_ok.mp h
    obtain ⟨rfl, -⟩ := Prod.mk.inj (Except.ok.inj h)
    have hentries := shape_of_nameEntries hrest
    unfold Entries.mapValues at hentries ⊢
    rw [List.map_cons, List.map_cons, shape_of_nameValue hv, hentries]

end

/-! ### The parts of a delta -/

variable {next next' : Nat}

/-- Named entries have the same keys, so a dictionary is made of them as they are. -/
theorem entries_ofList_of_nameEntries {d : Dict Value} {es : List (String × Value)}
    (h : nameEntries next d.entries = .ok (es, next')) : (Dict.ofList es).entries = es := by
  have hascending : Entries.Ascending (Entries.mapValues Value.shape es) := by
    rw [shape_of_nameEntries h]
    exact Entries.ascending_mapValues.mpr d.ascending
  exact Entries.ofList_of_ascending (Entries.ascending_mapValues.mp hascending)

theorem shape_of_nameDict {d d' : Dict Value} (h : nameDict next d = .ok (d', next')) :
    d'.mapValues Value.shape = d.mapValues Value.shape := by
  obtain ⟨⟨es, n⟩, hnamed, heq⟩ := map_eq_ok.mp h
  obtain ⟨rfl, -⟩ := Prod.mk.inj heq
  apply Dict.ext_entries
  rw [Dict.entries_mapValues, Dict.entries_mapValues, entries_ofList_of_nameEntries hnamed]
  exact shape_of_nameEntries hnamed

theorem shape_of_nameHeapWrites {ws ws' : List HeapWrite}
    (h : nameHeapWrites next ws = .ok (ws', next')) :
    ws'.map (HeapWrite.subst Symbolic.unnamed) = ws.map (HeapWrite.subst Symbolic.unnamed) := by
  induction ws generalizing ws' next next' with
  | nil =>
    obtain ⟨rfl, -⟩ := Prod.mk.inj (Except.ok.inj h)
    rfl
  | cons w ws ih =>
    obtain ⟨⟨v', n⟩, hv', h⟩ := bind_eq_ok.mp h
    obtain ⟨⟨rest, m⟩, hnamed, h⟩ := bind_eq_ok.mp h
    obtain ⟨rfl, -⟩ := Prod.mk.inj (Except.ok.inj h)
    have hwrite : HeapWrite.subst Symbolic.unnamed { w with value := v' } =
        HeapWrite.subst Symbolic.unnamed w :=
      congrArg (fun v => { w with value := v }) (shape_of_nameValue hv')
    rw [List.map_cons, List.map_cons, hwrite, ih hnamed]

theorem shape_of_nameOption {o o' : Option Value} (h : nameOption next o = .ok (o', next')) :
    o'.map Value.shape = o.map Value.shape := by
  cases o with
  | none =>
    obtain ⟨rfl, -⟩ := Prod.mk.inj (Except.ok.inj h)
    rfl
  | some v =>
    obtain ⟨⟨v', n⟩, hv', heq⟩ := map_eq_ok.mp h
    obtain ⟨rfl, -⟩ := Prod.mk.inj heq
    exact congrArg some (shape_of_nameValue hv')

theorem shape_of_nameClosure {o o' : Option NewClosure} (h : nameClosure next o = .ok o') :
    o'.map (NewClosure.subst Symbolic.unnamed) = o.map (NewClosure.subst Symbolic.unnamed) := by
  cases o with
  | none =>
    obtain rfl := Except.ok.inj h
    rfl
  | some c =>
    obtain ⟨⟨bindings, n⟩, hnamed, rfl⟩ := map_eq_ok.mp h
    exact congrArg (fun bindings => some { c with bindings }) (shape_of_nameDict hnamed)

/-- **Naming the unknowns of a delta keeps its shape.** -/
theorem shape_of_nameDelta {counter : Nat} {d d' : Delta} (h : nameDelta counter d = .ok d') :
    d'.shape = d.shape := by
  obtain ⟨first, -, h⟩ := bind_eq_ok.mp h
  obtain ⟨⟨registers, n₁⟩, hregisters, h⟩ := bind_eq_ok.mp h
  obtain ⟨⟨vars, n₂⟩, hvars, h⟩ := bind_eq_ok.mp h
  obtain ⟨⟨writes, n₃⟩, hwrites, h⟩ := bind_eq_ok.mp h
  obtain ⟨⟨value, n₄⟩, hvalue, h⟩ := bind_eq_ok.mp h
  obtain ⟨closure, hclosure, h⟩ := bind_eq_ok.mp h
  obtain rfl := Except.ok.inj h
  have hregisters' : registers.mapValues (Value.subst Symbolic.unnamed) =
      d.registerWrites.mapValues (Value.subst Symbolic.unnamed) := shape_of_nameDict hregisters
  have hvars' : vars.mapValues (Value.subst Symbolic.unnamed) =
      d.varWrites.mapValues (Value.subst Symbolic.unnamed) := shape_of_nameDict hvars
  have hvalue' : value.map (Value.subst Symbolic.unnamed) =
      d.returnValue.map (Value.subst Symbolic.unnamed) := shape_of_nameOption hvalue
  unfold Delta.shape Delta.subst
  dsimp only
  rw [hregisters', hvars', shape_of_nameHeapWrites hwrites, hvalue', shape_of_nameClosure hclosure]

end Response

end SymbolicVM

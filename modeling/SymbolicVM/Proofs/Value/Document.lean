import SymbolicVM.Value.Document
import SymbolicVM.Proofs.Json.Record
import SymbolicVM.Proofs.Value.Parts

/-!
# Values are read back from their documents

A value is read back from its canonical document if the document tells all that there is to it:
floating-point numbers are finite, and maps list their entries by increasing key and do not carry
the marker of unknowns (`Value.ofJson_toJson`). Nothing is asked of unknowns, texts and integers.
-/

namespace SymbolicVM

/-! ### Unknowns -/

namespace Symbolic

/-- What is found in the canonical document of an unknown. -/
theorem exists_members (x : Symbolic) :
    ∃ members, x.toJson.canonical = .obj members ∧
      Entries.get? symbolicMarker members = some (.bool true) ∧
      Entries.get? "name" members = some (.str x.name) ∧
      Entries.get? "type_hint" members = Json.fieldOf (Json.whenSome "type_hint" Json.str x.hint) ∧
      Entries.get? "constraints" members = Json.fieldOf (Json.memberUnless x.constraints.isEmpty
        "constraints" (.arr (x.constraints.map Json.str))) := by
  have hfields := Json.fields?_record
    (show [symbolicMarker, "name", "type_hint", "constraints"].Nodup by decide)
    (.cons Json.named_always (.cons Json.named_always (.cons Json.named_whenSome
      (.cons Json.named_memberUnless .nil))) :
      List.Forall₂ Json.Named _ [Json.always symbolicMarker (.bool true),
        Json.always "name" (.str x.name), Json.whenSome "type_hint" Json.str x.hint,
        Json.memberUnless x.constraints.isEmpty "constraints"
          (.arr (x.constraints.map Json.str))])
  rw [Json.record, Json.canonical_obj, Json.fields?, Option.some.injEq] at hfields
  simp only [List.map_cons, List.cons.injEq] at hfields
  obtain ⟨hmarker, hname, hhint, hconstraints, -⟩ := hfields
  exact ⟨_, Json.canonical_obj _, hmarker, hname, hhint, hconstraints⟩

/-- Every unknown is read back. -/
theorem ofJson_toJson (x : Symbolic) : Value.ofJson x.toJson.canonical = .symbolic x := by
  obtain ⟨members, hobj, hmarker, hname, hhint, hconstraints⟩ := x.exists_members
  have hread : ofMembers members = x := by
    obtain ⟨name, hint, constraints⟩ := x
    unfold ofMembers
    rw [hname, hhint, hconstraints]
    refine (Symbolic.mk.injEq ..).mpr ⟨rfl, ?_, ?_⟩
    · cases hint with
      | none => rfl
      | some h => rfl
    · cases constraints with
      | nil => rfl
      | cons c cs =>
        have htexts : (((c :: cs).map Json.str).map Json.canonical).map textOf = c :: cs := by
          rw [List.map_map, List.map_map]
          exact List.map_id _
        have hfield : Json.fieldOf (Json.memberUnless false "constraints"
            (.arr ((c :: cs).map Json.str))) =
            some (.arr (((c :: cs).map Json.str).map Json.canonical)) :=
          congrArg some (Json.canonical_arr _)
        rw [List.isEmpty_cons, hfield]
        exact htexts
  rw [hobj, Value.ofJson, hmarker, hread]

end Symbolic

namespace Value

/-! ### All values -/

/-- A floating-point number has a document of its own if it is finite. -/
def FiniteFloat (v : Value) : Prop :=
  ∀ x, v = .float x → x.isFinite = true

instance : DecidablePred FiniteFloat
  | .float x => decidable_of_iff (x.isFinite = true) (by simp [FiniteFloat])
  | .null | .bool _ | .int _ | .str _ | .list _ | .map _ | .symbolic _ => isTrue nofun

/-- A map lists its entries by increasing key and does not look like an unknown. -/
def RegularMap (v : Value) : Prop :=
  ∀ entries, v = .map entries →
    Entries.Ascending entries ∧ Entries.get? symbolicMarker entries ≠ some (.bool true)

instance (o : Option Value) : Decidable (o = some (.bool true)) :=
  match o with
  | some (.bool true) => isTrue rfl
  | none | some .null | some (.bool false) | some (.int _) | some (.float _) | some (.str _)
  | some (.list _) | some (.map _) | some (.symbolic _) => isFalse nofun

instance : DecidablePred RegularMap
  | .map entries => decidable_of_iff (Entries.Ascending entries ∧
      Entries.get? symbolicMarker entries ≠ some (.bool true)) (by simp [RegularMap])
  | .null | .bool _ | .int _ | .float _ | .str _ | .list _ | .symbolic _ =>
    isTrue fun _ heq => by contradiction

theorem itemsToJson_eq (items : List Value) : itemsToJson items = items.map toJson := by
  induction items with
  | nil => rw [itemsToJson]; rfl
  | cons v vs ih => rw [itemsToJson, ih, List.map_cons]

theorem entriesToJson_eq (entries : List (String × Value)) :
    entriesToJson entries = Entries.mapValues toJson entries := by
  induction entries with
  | nil => rw [entriesToJson]; rfl
  | cons e es ih =>
    rw [entriesToJson, ih]
    rfl

theorem entriesOfJson_eq (members : List (String × Json)) :
    entriesOfJson members = Entries.mapValues ofJson members := by
  induction members with
  | nil => rw [entriesOfJson]; rfl
  | cons m ms ih =>
    rw [entriesOfJson, ih]
    rfl

mutual

/-- **A value is read back from its canonical document**, if its floating-point numbers are finite
and its maps regular. -/
theorem ofJson_toJson : ∀ {v : Value}, v.Everywhere FiniteFloat → v.Everywhere RegularMap →
    ofJson v.toJson.canonical = v
  | .null, _, _ => rfl
  | .bool _, _, _ => rfl
  | .str _, _, _ => rfl
  | .symbolic x, _, _ => by rw [toJson, x.ofJson_toJson]
  | .int i, _, _ => by
    have hread : ofJson (.int i.toInt) = .int i := by
      rw [ofJson, Text.word?_toInt]
    exact hread
  | .float x, hfinite, _ => by
    have hx : x.isFinite = true := (everywhere_of_isScalar rfl).mp hfinite x rfl
    rw [toJson, Json.ofFloat, if_pos hx]
    rfl
  | .list items, hfinite, hregular => by
    have hitems := itemsOfJson_toJson (everywhere_list.mp hfinite).2 (everywhere_list.mp hregular).2
    rw [toJson, itemsToJson_eq, Json.canonical_arr, ofJson, hitems]
  | .map entries, hfinite, hregular => by
    obtain ⟨hmap, hregular⟩ := everywhere_map.mp hregular
    obtain ⟨hasc, hunmarked⟩ := hmap entries rfl
    have hentries := entriesOfJson_toJson (everywhere_map.mp hfinite).2 hregular
    have hcanonical : (toJson (.map entries)).canonical =
        .obj (Entries.mapValues (fun v => v.toJson.canonical) entries) := by
      rw [toJson, entriesToJson_eq]
      exact Json.canonical_ofDict toJson ⟨entries, hasc⟩
    rw [hcanonical, ofJson]
    split
    · -- what is read from the marker is what the map has there
      rename_i hmarked
      refine absurd ?_ hunmarked
      rw [← hentries, entriesOfJson_eq, Entries.get?_mapValues, hmarked]
      rfl
    · rw [hentries, Entries.ofList_of_ascending hasc]

theorem itemsOfJson_toJson : ∀ {items : List Value}, (∀ v ∈ items, v.Everywhere FiniteFloat) →
    (∀ v ∈ items, v.Everywhere RegularMap) →
    itemsOfJson ((items.map toJson).map Json.canonical) = items
  | [], _, _ => rfl
  | v :: vs, hfinite, hregular => by
    obtain ⟨hv, hvs⟩ := List.forall_mem_cons.mp hfinite
    obtain ⟨hv', hvs'⟩ := List.forall_mem_cons.mp hregular
    rw [List.map_cons, List.map_cons, itemsOfJson, ofJson_toJson hv hv',
      itemsOfJson_toJson hvs hvs']

theorem entriesOfJson_toJson : ∀ {entries : List (String × Value)},
    (∀ e ∈ entries, e.2.Everywhere FiniteFloat) → (∀ e ∈ entries, e.2.Everywhere RegularMap) →
    entriesOfJson (Entries.mapValues (fun v => v.toJson.canonical) entries) = entries
  | [], _, _ => rfl
  | (k, v) :: es, hfinite, hregular => by
    obtain ⟨hv, hes⟩ := List.forall_mem_cons.mp hfinite
    obtain ⟨hv', hes'⟩ := List.forall_mem_cons.mp hregular
    have hrest := entriesOfJson_toJson hes hes'
    unfold Entries.mapValues at hrest ⊢
    rw [List.map_cons, entriesOfJson, ofJson_toJson hv hv', hrest]

end

/-- The document of the value tells all that there is to it. -/
structure Faithful (v : Value) : Prop where
  finite : v.Everywhere FiniteFloat
  regular : v.Everywhere RegularMap

theorem Faithful.ofJson_toJson {v : Value} (h : v.Faithful) : ofJson v.toJson.canonical = v :=
  Value.ofJson_toJson h.finite h.regular

/-- Only `null` has the document `null`. -/
theorem Faithful.toJson_ne_null {v : Value} (h : v.Faithful) (hv : v ≠ .null) :
    v.toJson.canonical ≠ .null := by
  intro hnull
  have hread := h.ofJson_toJson
  rw [hnull] at hread
  exact hv hread.symm

end Value

end SymbolicVM

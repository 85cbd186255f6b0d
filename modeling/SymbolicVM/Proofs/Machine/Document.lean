import SymbolicVM.Machine.Document
import SymbolicVM.Proofs.Value.Document
import SymbolicVM.Proofs.Machine.Footprint

/-!
# Deltas and states are read back from their documents

A delta whose values are faithful to their documents is read back from its canonical document, but
for a returned `null`: the member for the returned value is then `null`, which is read as if there
was no such member (`Delta.ofJson?_toJson`). A delta without a returned `null` is read back as it is
(`Delta.reread_eq_self_iff`).

A state whose values are faithful is read back as it is (`State.ofJson?_toJson`).
-/

namespace SymbolicVM

/-! ### The parts of a delta -/

/-- A dictionary of faithful values is read back. -/
theorem valuesOfJson?_valuesToJson {d : Dict Value} (h : ∀ v ∈ d.values, v.Faithful) :
    valuesOfJson? (valuesToJson d).canonical = some d :=
  Json.dict?_ofDict fun v hv => congrArg some (h v hv).ofJson_toJson

/-- The same where the dictionary is left out when it is empty. -/
theorem fieldOr_values {d : Dict Value} {name : String} (h : ∀ v ∈ d.values, v.Faithful) :
    Json.fieldOr .empty valuesOfJson?
      (Json.fieldOf (Json.memberUnless d.isEmpty name (valuesToJson d))) = some d := by
  refine Json.fieldOr_memberUnless (fun hempty => ?_) fun _ => valuesOfJson?_valuesToJson h
  exact Dict.ext_entries (List.isEmpty_iff.mp hempty)

theorem HeapWrite.ofJson?_toJson {w : HeapWrite} (h : w.value.Faithful) :
    ofJson? w.toJson.canonical = some w := by
  have hfields : w.toJson.canonical.fields? ["obj_addr", "field", "value"] = some _ :=
    Json.fields?_record (by decide)
      (.cons Json.named_always (.cons Json.named_always (.cons Json.named_always .nil)))
  rw [ofJson?, hfields]
  simp only [List.map_cons, List.map_nil, Option.bind_eq_bind, Option.bind_some,
    Json.requiredField_always, Json.str?_canonical]
  exact congrArg (fun v => some { w with value := v }) h.ofJson_toJson

theorem NewObject.ofJson?_toJson (o : NewObject) : ofJson? o.toJson.canonical = some o := by
  have hfields : o.toJson.canonical.fields? ["addr", "type_hint"] = some _ :=
    Json.fields?_record (by decide) (.cons Json.named_always (.cons Json.named_always .nil))
  rw [ofJson?, hfields]
  simp only [List.map_cons, List.map_nil, Option.bind_eq_bind, Option.bind_some,
    Json.requiredField_always, Json.str?_canonical, Json.optionalField_ofOption_str]
  rfl

theorem CallPush.ofJson?_toJson (p : CallPush) : ofJson? p.toJson.canonical = some p := by
  have hfields : p.toJson.canonical.fields?
      ["function_name", "return_label", "closure_env", "constructor"] = some _ :=
    Json.fields?_record (by decide) (.cons Json.named_always (.cons Json.named_always
      (.cons Json.named_whenSome (.cons Json.named_memberUnless .nil))))
  rw [ofJson?, hfields]
  simp only [List.map_cons, List.map_nil, Option.bind_eq_bind, Option.bind_some,
    Json.requiredField_always, Json.str?_canonical, Json.optionalField_ofOption_str,
    Json.optionalField_whenSome_str, Json.fieldOr_bool]
  rfl

theorem NewClosure.ofJson?_toJson {c : NewClosure} (h : ∀ v ∈ c.bindings.values, v.Faithful) :
    ofJson? c.toJson.canonical = some c := by
  have hfields : c.toJson.canonical.fields? ["id", "bindings", "parent"] = some _ :=
    Json.fields?_record (by decide)
      (.cons Json.named_always (.cons Json.named_always (.cons Json.named_always .nil)))
  have hbindings : Json.fieldOr .empty valuesOfJson?
      (Json.fieldOf (Json.always "bindings" (valuesToJson c.bindings))) = some c.bindings :=
    valuesOfJson?_valuesToJson h
  rw [ofJson?, hfields]
  simp only [List.map_cons, List.map_nil, Option.bind_eq_bind, Option.bind_some,
    Json.requiredField_always, Json.str?_canonical, Json.optionalField_ofOption_str, hbindings]
  rfl

/-! ### Deltas -/

/-- The value unless it is `null`. -/
def Value.nonNull? : Value → Option Value
  | .null => none
  | v => some v

theorem Value.nonNull?_eq_some {v : Value} (h : v ≠ .null) : v.nonNull? = some v := by
  cases v with
  | null => exact absurd rfl h
  | _ => rfl

theorem Value.isNone_nonNull? {v : Value} : v.nonNull?.isNone = true ↔ v = .null := by
  cases v <;> simp [nonNull?]

instance (v : Value) : Decidable (v = .null) :=
  decidable_of_iff _ Value.isNone_nonNull?

/-- A returned value is read back unless it is `null`. -/
theorem optionalField_returnValue {o : Option Value} (h : ∀ v ∈ o, v.Faithful) :
    Json.optionalField (fun j => some (Value.ofJson j))
      (Json.fieldOf (Json.whenSome "return_value" Value.toJson o)) =
        some (o.bind Value.nonNull?) := by
  cases o with
  | none => rfl
  | some v =>
    by_cases hnull : v = .null
    · rw [hnull]
      rfl
    · have hfaithful := h v rfl
      rw [Option.bind_some, Value.nonNull?_eq_some hnull]
      exact Json.optionalField_some (hfaithful.toJson_ne_null hnull)
        (congrArg some hfaithful.ofJson_toJson)

namespace Delta

/-- The delta as it is read back from its document: without a returned `null`. -/
def reread (d : Delta) : Delta :=
  { d with returnValue := d.returnValue.bind Value.nonNull? }

theorem reread_eq_self_iff {d : Delta} : d.reread = d ↔ d.returnValue ≠ some .null := by
  constructor
  · intro h hnull
    have hvalue := congrArg Delta.returnValue h
    unfold reread at hvalue
    rw [hnull] at hvalue
    cases hvalue
  · intro h
    have hvalue : d.returnValue.bind Value.nonNull? = d.returnValue := by
      cases hreturn : d.returnValue with
      | none => rfl
      | some v => exact Value.nonNull?_eq_some fun heq => h (heq ▸ hreturn)
    unfold reread
    rw [hvalue]

/-- **A delta is read back from its canonical document**, but for a returned `null`. -/
theorem ofJson?_toJson {d : Delta} (h : ∀ v ∈ d.writtenValues, v.Faithful) :
    ofJson? d.toJson.canonical = some d.reread := by
  have hfields : d.toJson.canonical.fields? ["register_writes", "var_writes", "heap_writes",
      "new_objects", "new_closure", "next_label", "call_push", "call_pop", "return_value",
      "path_condition", "reasoning"] = some _ :=
    Json.fields?_record (by decide) (.cons Json.named_memberUnless (.cons Json.named_memberUnless
      (.cons Json.named_memberUnless (.cons Json.named_memberUnless (.cons Json.named_whenSome
      (.cons Json.named_whenSome (.cons Json.named_whenSome (.cons Json.named_memberUnless
      (.cons Json.named_whenSome (.cons Json.named_whenSome
      (.cons Json.named_memberUnless .nil)))))))))))
  have hregisters := @fieldOr_values d.registerWrites "register_writes" fun v hv =>
    h v (mem_writtenValues.mpr (.inl hv))
  have hvars := @fieldOr_values d.varWrites "var_writes" fun v hv =>
    h v (mem_writtenValues.mpr (.inr (.inl hv)))
  have hheap := @Json.fieldOr_list _ "heap_writes" HeapWrite.ofJson? HeapWrite.toJson d.heapWrites
    fun w hw => HeapWrite.ofJson?_toJson
      (h _ (mem_writtenValues.mpr (.inr (.inr (.inl (List.mem_map_of_mem hw))))))
  have hobjects := @Json.fieldOr_list _ "new_objects" NewObject.ofJson? NewObject.toJson
    d.newObjects fun o _ => o.ofJson?_toJson
  have hclosure := @Json.optionalField_whenSome _ "new_closure" NewClosure.ofJson?
    NewClosure.toJson d.newClosure fun c hc => ⟨Json.canonical_obj_ne_null _,
      NewClosure.ofJson?_toJson fun v hv =>
        h v (mem_writtenValues.mpr (.inr (.inr (.inr (.inr ⟨c, hc, hv⟩)))))⟩
  have hpush := @Json.optionalField_whenSome _ "call_push" CallPush.ofJson? CallPush.toJson
    d.callPush fun p _ => ⟨Json.canonical_obj_ne_null _, p.ofJson?_toJson⟩
  have hreturn := @optionalField_returnValue d.returnValue fun v hv =>
    h v (mem_writtenValues.mpr (.inr (.inr (.inr (.inl hv)))))
  rw [ofJson?, hfields]
  simp only [List.map_cons, List.map_nil, Option.bind_eq_bind, Option.bind_some, hregisters, hvars,
    hheap, hobjects, hclosure, hpush, hreturn, Json.optionalField_whenSome_str, Json.fieldOr_bool,
    Json.fieldOr_str]
  rfl

end Delta

/-! ### States -/

theorem fieldOr_always_values {d : Dict Value} {name : String} (h : ∀ v ∈ d.values, v.Faithful) :
    Json.fieldOr .empty valuesOfJson? (Json.fieldOf (Json.always name (valuesToJson d))) = some d :=
  valuesOfJson?_valuesToJson h

theorem HeapObject.ofJson?_toJson {o : HeapObject} (h : ∀ v ∈ o.fields.values, v.Faithful) :
    ofJson? o.toJson.canonical = some o := by
  have hfields : o.toJson.canonical.fields? ["type_hint", "fields"] = some _ :=
    Json.fields?_record (by decide) (.cons Json.named_always (.cons Json.named_always .nil))
  have hvalues := @fieldOr_always_values o.fields "fields" h
  rw [ofJson?, hfields]
  simp only [List.map_cons, List.map_nil, Option.bind_eq_bind, Option.bind_some,
    Json.optionalField_ofOption_str, hvalues]
  rfl

theorem Frame.ofJson?_toJson {f : Frame} (h : ∀ v ∈ f.values, v.Faithful) :
    ofJson? f.toJson.canonical = some f := by
  have hfields : f.toJson.canonical.fields? ["function_name", "registers", "local_vars",
      "return_label", "return_offset", "result_reg", "closure_env", "owned_env"] = some _ :=
    Json.fields?_record (by decide) (.cons Json.named_always (.cons Json.named_always
      (.cons Json.named_always (.cons Json.named_whenSome (.cons Json.named_whenSome
      (.cons Json.named_whenSome (.cons Json.named_whenSome
      (.cons Json.named_whenSome .nil))))))))
  have hregisters := @fieldOr_always_values f.registers "registers" fun v hv =>
    h v (List.mem_append_left _ hv)
  have hlocals := @fieldOr_always_values f.locals "local_vars" fun v hv =>
    h v (List.mem_append_right _ hv)
  rw [ofJson?, hfields]
  simp only [List.map_cons, List.map_nil, Option.bind_eq_bind, Option.bind_some,
    Json.requiredField_always, Json.str?_canonical, hregisters, hlocals,
    Json.optionalField_whenSome_str, Json.optionalField_whenSome_nat]
  rfl

theorem Environment.ofJson?_toJson {e : Environment} (h : ∀ v ∈ e.bindings.values, v.Faithful) :
    ofJson? e.toJson.canonical = some e := by
  have hfields : e.toJson.canonical.fields? ["bindings", "parent"] = some _ :=
    Json.fields?_record (by decide) (.cons Json.named_always (.cons Json.named_whenSome .nil))
  have hbindings := @fieldOr_always_values e.bindings "bindings" h
  rw [ofJson?, hfields]
  simp only [List.map_cons, List.map_nil, Option.bind_eq_bind, Option.bind_some, hbindings,
    Json.optionalField_whenSome_str]
  rfl

/-- **A state is read back from its canonical document**, if its values are faithful to theirs. -/
theorem State.ofJson?_toJson {s : State} (h : ∀ v ∈ s.values, v.Faithful) :
    ofJson? s.toJson.canonical = some s := by
  have hfields : s.toJson.canonical.fields? ["heap", "call_stack", "path_conditions", "counter",
      "closures"] = some _ :=
    Json.fields?_record (by decide) (.cons Json.named_always (.cons Json.named_always
      (.cons Json.named_always (.cons Json.named_always (.cons Json.named_memberUnless .nil)))))
  have hheap : Json.dict? HeapObject.ofJson? (Json.ofDict HeapObject.toJson s.heap).canonical =
      some s.heap := by
    refine Json.dict?_ofDict fun o ho => HeapObject.ofJson?_toJson fun v hv => ?_
    exact h v (mem_values.mpr (.inr (.inl ⟨o, ho, hv⟩)))
  have hframes : Json.list? Frame.ofJson?
      (Json.canonical (.arr (s.frames.reverse.map Frame.toJson))) = some s.frames.reverse := by
    refine Json.list?_arr fun f hf => Frame.ofJson?_toJson fun v hv => ?_
    exact h v (mem_values.mpr (.inl ⟨f, List.mem_reverse.mp hf, hv⟩))
  have hconditions : Json.list? Json.str?
      (Json.canonical (.arr (s.pathConditions.map Json.str))) = some s.pathConditions :=
    Json.list?_arr fun text _ => Json.str?_canonical text
  have hclosures : Json.fieldOr .empty (Json.dict? Environment.ofJson?)
      (Json.fieldOf (Json.memberUnless s.closures.isEmpty "closures"
        (Json.ofDict Environment.toJson s.closures))) = some s.closures := by
    refine Json.fieldOr_memberUnless (fun hempty => ?_) fun _ => Json.dict?_ofDict fun e he => ?_
    · exact Dict.ext_entries (List.isEmpty_iff.mp hempty)
    · exact Environment.ofJson?_toJson fun v hv => h v (mem_values.mpr (.inr (.inr ⟨e, he, hv⟩)))
  rw [ofJson?, hfields]
  simp only [List.map_cons, List.map_nil, Option.bind_eq_bind, Option.bind_some,
    Json.requiredField_always, hheap, hframes, hconditions, hclosures, Json.nat?_canonical,
    List.reverse_reverse]
  rfl

end SymbolicVM

import SymbolicVM.Oracle.Response
import SymbolicVM.Proofs.Machine.Document
import SymbolicVM.Proofs.Machine.Apply
import SymbolicVM.Proofs.Text.Split

/-!
# Answers in a delta's own words

What comes of the compact document of a delta when it is read as an answer. There are no fences to
strip (`Response.stripFences_compact`), and a delta whose unknowns all have names is not renamed
(`Response.nameDelta_eq`). So an acceptable delta whose document is read back as it was printed
comes back, but for a returned `null` (`Response.parse_compact`), and so it does from every text
that is the document once fences are stripped (`Response.parse_of_stripFences`).
-/

namespace SymbolicVM

/-! ### The text of an object -/

namespace Json

theorem prefix_append (out text : String) : out.toList <+: (out ++ text).toList := by
  rw [String.toList_append]
  exact List.prefix_append _ _

/-- A comma between items or members is appended, too. -/
theorem prefix_comma (out : String) (first : Bool) :
    out.toList <+: (if first then out else out ++ ",").toList := by
  cases first with
  | true => exact List.prefix_rfl
  | false => exact prefix_append out ","

mutual

/-- Writing a document appends to the text that is there. -/
theorem prefix_write : ∀ (j : Json) (out : String), out.toList <+: (write out j).toList
  | .null, _ | .bool _, _ | .int _, _ | .float _, _ | .str _, _ => by
    rw [write]
    exact prefix_append _ _
  | .arr items, out => by
    rw [write]
    exact (prefix_append out "[").trans
      ((prefix_writeItems items (out ++ "[") true).trans (prefix_append _ _))
  | .obj members, out => by
    rw [write]
    exact (prefix_append out r"{").trans
      ((prefix_writeMembers members (out ++ r"{") true).trans (prefix_append _ _))

theorem prefix_writeItems : ∀ (items : List Json) (out : String) (first : Bool),
    out.toList <+: (writeItems out first items).toList
  | [], _, _ => by
    unfold writeItems
    exact List.prefix_rfl
  | j :: js, out, first => by
    rw [writeItems]
    exact (prefix_comma out first).trans ((prefix_write j _).trans (prefix_writeItems js _ false))

theorem prefix_writeMembers : ∀ (members : List (String × Json)) (out : String) (first : Bool),
    out.toList <+: (writeMembers out first members).toList
  | [], _, _ => by
    unfold writeMembers
    exact List.prefix_rfl
  | (k, j) :: ms, out, first => by
    rw [writeMembers]
    refine (prefix_comma out first).trans ?_
    refine ((prefix_append _ (quote k)).trans (prefix_append _ ":")).trans ?_
    exact (prefix_write j _).trans (prefix_writeMembers ms _ false)

end

/-- The compact form of an object stands between braces. -/
theorem compact_obj (members : List (String × Json)) :
    ∃ inner, (compact (.obj members)).toList = '{' :: inner ++ ['}'] := by
  obtain ⟨inner, hinner⟩ := prefix_writeMembers members ("" ++ r"{") true
  refine ⟨inner, ?_⟩
  rw [compact, write, String.toList_append, ← hinner]
  rfl

end Json

namespace Response

/-! ### No fences -/

theorem trimmed_compact (members : List (String × Json)) :
    Text.Trimmed (Json.compact (.obj members)).toList := by
  obtain ⟨inner, htext⟩ := Json.compact_obj members
  rw [htext]
  refine ⟨fun c hc => ?_, fun c hc => ?_⟩
  · obtain rfl := Option.some.inj hc
    decide
  · rw [List.getLast?_concat] at hc
    obtain rfl := Option.some.inj hc
    decide

theorem compact_ne_nil (members : List (String × Json)) :
    (Json.compact (.obj members)).toList ≠ [] := by
  obtain ⟨inner, htext⟩ := Json.compact_obj members
  rw [htext]
  exact List.cons_ne_nil _ _

/-- The compact form of an object does not begin with a fence. -/
theorem dropOpening_compact (members : List (String × Json)) :
    dropOpening (Json.compact (.obj members)).toList = (Json.compact (.obj members)).toList := by
  obtain ⟨inner, htext⟩ := Json.compact_obj members
  rw [htext]
  rfl

/-- Nor does it end in one. -/
theorem dropClosing_compact (members : List (String × Json)) :
    dropClosing (Json.compact (.obj members)).toList = (Json.compact (.obj members)).toList := by
  obtain ⟨inner, htext⟩ := Json.compact_obj members
  rw [htext]
  unfold dropClosing Text.endsWith
  rw [List.reverse_append]
  rfl

/-- The compact form of an object is no fence, nor does it stand between fences. Blanks around it
are dropped. -/
theorem stripFences_compact {before after : List Char} (members : List (String × Json))
    (hbefore : Text.Blank before) (hafter : Text.Blank after) :
    stripFences (before ++ ((Json.compact (.obj members)).toList ++ after)) =
      (Json.compact (.obj members)).toList := by
  rw [stripFences, Text.trimChars_of_blank hbefore hafter (trimmed_compact members)
    (compact_ne_nil members), dropOpening_compact, dropClosing_compact,
    Text.trimChars_eq_self (trimmed_compact members)]

/-! ### No new names -/

/-- All unknowns in the value have names. -/
def AllNamed (v : Value) : Prop :=
  ∀ x ∈ v.unknowns, x.name ≠ ""

variable {next : Nat}

mutual

/-- Values whose unknowns have names are kept. -/
theorem nameValue_eq : ∀ {v : Value}, AllNamed v → nameValue next v = .ok (v, next)
  | .null, _ | .bool _, _ | .int _, _ | .float _, _ | .str _, _ => rfl
  | .symbolic x, h => by
    have hname : x.name.isEmpty = false := by
      have := h x (by simp)
      simpa [String.isEmpty_iff] using this
    rw [nameValue, hname]
    rfl
  | .list items, h => by
    have hitems := nameItems_eq fun v hv x hx => h x (by simpa using ⟨v, hv, hx⟩)
    rw [nameValue, hitems]
    rfl
  | .map entries, h => by
    have hentries := nameEntries_eq fun e he x hx => h x (by simpa using ⟨_, _, he, hx⟩)
    rw [nameValue, hentries]
    rfl

theorem nameItems_eq : ∀ {items : List Value}, (∀ v ∈ items, AllNamed v) →
    nameItems next items = .ok (items, next)
  | [], _ => rfl
  | v :: vs, h => by
    obtain ⟨hv, hvs⟩ := List.forall_mem_cons.mp h
    rw [nameItems, nameValue_eq hv, ok_bind]
    dsimp only
    rw [nameItems_eq hvs]
    rfl

theorem nameEntries_eq : ∀ {entries : List (String × Value)}, (∀ e ∈ entries, AllNamed e.2) →
    nameEntries next entries = .ok (entries, next)
  | [], _ => rfl
  | (k, v) :: es, h => by
    obtain ⟨hv, hes⟩ := List.forall_mem_cons.mp h
    rw [nameEntries, nameValue_eq hv, ok_bind]
    dsimp only
    rw [nameEntries_eq hes]
    rfl

end

theorem nameDict_eq {d : Dict Value} (h : ∀ v ∈ d.values, AllNamed v) :
    nameDict next d = .ok (d, next) := by
  have hentries : nameEntries next d.entries = .ok (d.entries, next) :=
    nameEntries_eq fun e he => h e.2 (List.mem_map_of_mem he)
  have hsame : Dict.ofList d.entries = d :=
    Dict.ext_entries (Entries.ofList_of_ascending d.ascending)
  rw [nameDict, hentries]
  exact congrArg (fun d => Except.ok (d, next)) hsame

theorem nameHeapWrites_eq {writes : List HeapWrite} (h : ∀ w ∈ writes, AllNamed w.value) :
    nameHeapWrites next writes = .ok (writes, next) := by
  induction writes with
  | nil => rfl
  | cons w ws ih =>
    obtain ⟨hw, hws⟩ := List.forall_mem_cons.mp h
    rw [nameHeapWrites, nameValue_eq hw, ok_bind]
    dsimp only
    rw [ih hws]
    rfl

theorem nameOption_eq {o : Option Value} (h : ∀ v ∈ o, AllNamed v) :
    nameOption next o = .ok (o, next) := by
  cases o with
  | none => rfl
  | some v =>
    rw [nameOption, nameValue_eq (h v rfl)]
    rfl

theorem nameClosure_eq {o : Option NewClosure}
    (h : ∀ c ∈ o, ∀ v ∈ c.bindings.values, AllNamed v) : nameClosure next o = .ok o := by
  cases o with
  | none => rfl
  | some c =>
    rw [nameClosure, nameDict_eq (h c rfl)]
    rfl

/-- The first number for a new name exists if the numbers of all names have a successor. -/
theorem exists_firstNumber {values : List Value} (counter : Nat)
    (h : ∀ v ∈ values, ∀ x ∈ v.unknowns, ∀ n ∈ IdKind.symbol.number? x.name,
      n + 1 < counterBound) :
    ∃ first, firstNumber counter values = .ok first := by
  refine exists_foldlM_eq_ok (fun v hv n => ?_) counter
  rw [Value.symbolicNames_eq, List.foldlM_map]
  refine exists_foldlM_eq_ok (fun x hx n => ?_) n
  unfold above nextNumber
  cases hnumber : IdKind.symbol.number? x.name with
  | none => exact ⟨n, rfl⟩
  | some m =>
    dsimp only
    rw [if_pos (h v hv x hx m hnumber)]
    exact ⟨_, rfl⟩

/-- A delta whose unknowns all have names, with numbers that have a successor, is kept. -/
theorem nameDelta_eq {d : Delta} (counter : Nat) (hnamed : ∀ v ∈ d.writtenValues, AllNamed v)
    (hnumbers : ∀ v ∈ d.writtenValues, ∀ x ∈ v.unknowns, ∀ n ∈ IdKind.symbol.number? x.name,
      n + 1 < counterBound) :
    nameDelta counter d = .ok d := by
  obtain ⟨first, hfirst⟩ := exists_firstNumber counter hnumbers
  have hregisters := @nameDict_eq first d.registerWrites fun v hv =>
    hnamed v (Delta.mem_writtenValues.mpr (.inl hv))
  have hvars := @nameDict_eq first d.varWrites fun v hv =>
    hnamed v (Delta.mem_writtenValues.mpr (.inr (.inl hv)))
  have hheap := @nameHeapWrites_eq first d.heapWrites fun w hw =>
    hnamed _ (Delta.mem_writtenValues.mpr (.inr (.inr (.inl (List.mem_map_of_mem hw)))))
  have hreturn := @nameOption_eq first d.returnValue fun v hv =>
    hnamed v (Delta.mem_writtenValues.mpr (.inr (.inr (.inr (.inl hv)))))
  have hclosure := @nameClosure_eq first d.newClosure fun c hc v hv =>
    hnamed v (Delta.mem_writtenValues.mpr (.inr (.inr (.inr (.inr ⟨c, hc, hv⟩)))))
  rw [nameDelta, hfirst, ok_bind, hregisters, ok_bind]
  dsimp only
  rw [hvars, ok_bind]
  dsimp only
  rw [hheap, ok_bind]
  dsimp only
  rw [hreturn, ok_bind]
  dsimp only
  rw [hclosure]
  rfl

/-! ### Whole answers -/

/-- What a delta must observe to be accepted as an answer for an instruction, and to be kept as it
is: it writes the result register, its objects have addresses, and its unknowns have names whose
numbers have a successor. -/
structure Acceptable (inst : Instruction) (d : Delta) : Prop where
  result : ∀ reg, inst.result = some reg → d.registerWrites.contains reg = true
  addresses : ∀ obj ∈ d.newObjects, obj.address ≠ ""
  named : ∀ v ∈ d.writtenValues, AllNamed v
  numbers : ∀ v ∈ d.writtenValues, ∀ x ∈ v.unknowns, ∀ n ∈ IdKind.symbol.number? x.name,
    n + 1 < counterBound

variable {inst : Instruction} {d : Delta}

theorem check_eq_ok (h : Acceptable inst d) : check inst d = .ok () := by
  have haddresses : d.newObjects.find? (fun obj => obj.address.isEmpty) = none := by
    refine List.find?_eq_none.mpr fun obj hobj => ?_
    simpa [String.isEmpty_iff] using h.addresses obj hobj
  unfold check
  rw [haddresses]
  cases hreg : inst.result with
  | none => rfl
  | some reg =>
    dsimp only
    rw [if_pos (h.result reg hreg)]
    rfl

/-- A delta that is read back without a returned `null` writes nothing else. -/
theorem writtenValues_reread : d.reread.writtenValues ⊆ d.writtenValues := by
  intro v hv
  rw [Delta.mem_writtenValues] at hv ⊢
  rcases hv with hv | hv | hv | hv | hv
  · exact .inl hv
  · exact .inr (.inl hv)
  · exact .inr (.inr (.inl hv))
  · obtain ⟨u, hu, hnonNull⟩ := Option.bind_eq_some_iff.mp hv
    have hsame : u = v := by
      cases u with
      | null => contradiction
      | _ => exact Option.some.inj hnonNull
    exact .inr (.inr (.inr (.inl (hsame ▸ hu))))
  · exact .inr (.inr (.inr (.inr hv)))

theorem Acceptable.reread (h : Acceptable inst d) : Acceptable inst d.reread where
  result := h.result
  addresses := h.addresses
  named v hv := h.named v (writtenValues_reread hv)
  numbers v hv := h.numbers v (writtenValues_reread hv)

/-- **An acceptable delta comes back from its own document**, but for a returned `null`, if the
document is what is left of the text without its fences. The values of the delta must be faithful to
their documents, and the document is to be read as it was printed. -/
theorem parse_of_stripFences {text : String} (s : State) (haccept : Acceptable inst d)
    (hfaithful : ∀ v ∈ d.writtenValues, v.Faithful)
    (hstrip : stripFences text.toList = d.toJson.compact.toList)
    (hread : Json.read? d.toJson.compact = some d.toJson.canonical) :
    parse text inst s = .ok d.reread := by
  obtain ⟨members, hmembers⟩ : ∃ members, d.toJson = .obj members := ⟨_, rfl⟩
  have hdecode : decode d.toJson.canonical = .ok d.reread := by
    have hobj : d.toJson.canonical.isObj = true := by
      rw [hmembers, Json.canonical_obj]
      rfl
    rw [decode, if_pos hobj, Delta.ofJson?_toJson hfaithful]
  have hcheck : check inst d.reread = .ok () := check_eq_ok haccept.reread
  have hname : nameDelta s.counter d.reread = .ok d.reread :=
    nameDelta_eq s.counter haccept.reread.named haccept.reread.numbers
  unfold parse
  rw [hstrip, String.ofList_toList, hread]
  refine bind_eq_ok.mpr ⟨d.reread, hdecode, bind_eq_ok.mpr ⟨(), hcheck, ?_⟩⟩
  rw [hname]

theorem parse_compact (s : State) (haccept : Acceptable inst d)
    (hfaithful : ∀ v ∈ d.writtenValues, v.Faithful)
    (hread : Json.parse? d.toJson.compact = some d.toJson) :
    parse d.toJson.compact inst s = .ok d.reread := by
  have hblank : Text.Blank [] := fun _ hc => absurd hc List.not_mem_nil
  have hstrip : stripFences ([] ++ (d.toJson.compact.toList ++ [])) = d.toJson.compact.toList :=
    stripFences_compact _ hblank hblank
  rw [List.nil_append, List.append_nil] at hstrip
  refine parse_of_stripFences s haccept hfaithful hstrip ?_
  rw [Json.read?, hread, Option.map_some]

end Response

end SymbolicVM

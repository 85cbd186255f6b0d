import SymbolicVM.Proofs.Oracle.Response

/-!
# Documents between fences

An oracle may put its answer between two fences, each on a line of its own, and may write blanks
around it. None of that reaches the reader: if a text neither begins nor ends in a blank, it is what
is left without the fences (`Response.stripFences_fenced`). So an answer is read back from the
document of its delta, whether it is fenced or not (`Response.parse_enclosed`).
-/

namespace SymbolicVM.Response

/-- Blanks with a line feed among them. -/
structure LineBreak (cs : List Char) : Prop where
  blank : Text.Blank cs
  newline : '\n' ∈ cs

/-- A document between two fences. The opening fence may have a label. -/
def fenced (label opening document closing : String) : String :=
  "```" ++ label ++ opening ++ document ++ closing ++ "```"

theorem toList_fenced (label opening document closing : String) :
    (fenced label opening document closing).toList =
      fence ++ (label.toList ++ opening.toList ++ document.toList ++ closing.toList ++ fence) := by
  simp [fenced, fence]

variable {label rest opening document closing before after : List Char}

theorem LineBreak.exists_first (h : LineBreak opening) :
    ∃ line rest, opening = line ++ '\n' :: rest ∧ '\n' ∉ line ∧ Text.Blank rest := by
  obtain ⟨line, rest, rfl, hline⟩ := List.eq_append_cons_of_mem h.newline
  have hrest : Text.Blank rest := fun c hc =>
    h.blank c (List.mem_append_right _ (List.mem_cons_of_mem _ hc))
  exact ⟨line, rest, rfl, hline, hrest⟩

theorem LineBreak.exists_last (h : LineBreak closing) :
    ∃ rest line, closing = rest ++ '\n' :: line ∧ '\n' ∉ line ∧ Text.Blank rest := by
  have hreverse : LineBreak closing.reverse :=
    ⟨fun c hc => h.blank c (List.mem_reverse.mp hc), List.mem_reverse.mpr h.newline⟩
  obtain ⟨line, rest, heq, hline, hrest⟩ := hreverse.exists_first
  refine ⟨rest.reverse, line.reverse, ?_, fun hc => hline (List.mem_reverse.mp hc),
    fun c hc => hrest c (List.mem_reverse.mp hc)⟩
  rw [← List.reverse_reverse closing, heq]
  simp

theorem trimmed_fence : Text.Trimmed fence where
  first c hc := by
    obtain rfl := Option.some.inj hc
    decide
  last c hc := by
    obtain rfl := Option.some.inj hc
    decide

/-- The line of the opening fence is dropped. -/
theorem dropOpening_fence (h : '\n' ∉ label) :
    dropOpening (fence ++ (label ++ '\n' :: rest)) = rest := by
  have hline : ∀ c ∈ fence ++ label, c ≠ '\n' := by
    intro c hc heq
    rcases List.mem_append.mp (heq ▸ hc) with hfence | hlabel
    · exact absurd hfence (by decide)
    · exact h hlabel
  have hopens : fence.isPrefixOf (fence ++ (label ++ '\n' :: rest)) = true :=
    List.isPrefixOf_iff_prefix.mpr (List.prefix_append _ _)
  rw [dropOpening, if_pos hopens, ← List.append_assoc, Text.splitOnce_append_cons hline]
  rfl

/-- The line of the closing fence is dropped. -/
theorem dropClosing_fence (h : '\n' ∉ label) :
    dropClosing (rest ++ '\n' :: (label ++ fence)) = rest := by
  have hline : ∀ c ∈ label ++ fence, c ≠ '\n' := by
    intro c hc heq
    rcases List.mem_append.mp (heq ▸ hc) with hlabel | hfence
    · exact h hlabel
    · exact absurd hfence (by decide)
  have hcloses : Text.endsWith fence (rest ++ '\n' :: (label ++ fence)) = true := by
    unfold Text.endsWith
    rw [List.isPrefixOf_iff_prefix, List.reverse_prefix]
    exact ⟨rest ++ '\n' :: label, by simp⟩
  rw [dropClosing, if_pos hcloses, Text.splitLast_append_cons hline]
  rfl

/-- **A document between fences is what is left without them**, if blanks with a line feed part it
from each fence. -/
theorem stripFences_fenced (hdocument : Text.Trimmed document) (hne : document ≠ [])
    (hlabel : '\n' ∉ label) (hopening : LineBreak opening) (hclosing : LineBreak closing)
    (hbefore : Text.Blank before) (hafter : Text.Blank after) :
    stripFences (before ++ ((fence ++ (label ++ opening ++ document ++ closing ++ fence)) ++
      after)) = document := by
  obtain ⟨line, start, rfl, hline, hstart⟩ := hopening.exists_first
  obtain ⟨stop, line', rfl, hline', hstop⟩ := hclosing.exists_last
  have houter : Text.Trimmed
      (fence ++ ((label ++ (line ++ '\n' :: start) ++ document ++ (stop ++ '\n' :: line')) ++
        fence)) :=
    trimmed_fence.append trimmed_fence (by decide) (by decide)
  have hfirst : '\n' ∉ label ++ line := by
    simpa using ⟨hlabel, hline⟩
  rw [stripFences, Text.trimChars_of_blank hbefore hafter houter (by simp [fence])]
  -- the text is cut at the first line feed after the label and at the last one before the end
  have hlines : fence ++ ((label ++ (line ++ '\n' :: start) ++ document ++
      (stop ++ '\n' :: line')) ++ fence) =
      fence ++ ((label ++ line) ++ '\n' :: (start ++ (document ++ stop) ++
        '\n' :: (line' ++ fence))) := by
    simp
  rw [hlines, dropOpening_fence hfirst, dropClosing_fence hline',
    Text.trimChars_of_blank hstart hstop hdocument hne]

/-- **Answers are read back from their documents, fenced or not.** An acceptable delta that does not
return `null`, and whose values are faithful to their documents, comes back from its document with
blanks around it, and from a document between fences on lines of their own, whatever label the
opening fence has. The document itself is to be read as it was printed. -/
theorem parse_enclosed {inst : Instruction} {d : Delta} (s : State) {before after : String}
    (haccept : Acceptable inst d) (hfaithful : ∀ v ∈ d.writtenValues, v.Faithful)
    (hreturn : d.returnValue ≠ some .null)
    (hread : Json.read? d.toJson.compact = some d.toJson.canonical)
    (hbefore : Text.Blank before.toList) (hafter : Text.Blank after.toList) :
    parse (before ++ d.toJson.compact ++ after) inst s = .ok d ∧
    ∀ label opening closing : String, '\n' ∉ label.toList → LineBreak opening.toList →
      LineBreak closing.toList →
      parse (before ++ fenced label opening d.toJson.compact closing ++ after) inst s = .ok d := by
  have hparse : ∀ text, stripFences text.toList = d.toJson.compact.toList →
      parse text inst s = .ok d := by
    intro text hstrip
    rw [parse_of_stripFences s haccept hfaithful hstrip hread,
      Delta.reread_eq_self_iff.mpr hreturn]
  refine ⟨hparse _ ?_, fun label opening closing hlabel hopening hclosing => hparse _ ?_⟩
  · rw [String.toList_append, String.toList_append, List.append_assoc]
    exact stripFences_compact _ hbefore hafter
  · rw [String.toList_append, String.toList_append, toList_fenced, List.append_assoc]
    exact stripFences_fenced (trimmed_compact _) (compact_ne_nil _) hlabel hopening hclosing
      hbefore hafter

/-- A delta that writes a map with an unknown and returns a text with a fence on its own line. -/
def sampleDelta : Delta where
  registerWrites := .ofList
    [("%0", .map [("x", .float (-0.5)), ("y", .symbolic { name := "sym_4" })])]
  newObjects := [{ address := "obj_7" }]
  returnValue := some (.list [.null, .str "\n```\n"])

/-- The delta is read back plain, between bare fences, and after a label and an empty line. -/
theorem parse_sampleDelta :
    let inst : Instruction := { opcode := .callUnknown, result := some "%0" }
    let document := sampleDelta.toJson.compact
    Acceptable inst sampleDelta ∧
      parse (" \t" ++ document ++ "\n") inst {} = .ok sampleDelta ∧
      parse (" \t" ++ fenced "" "\n" document "\n" ++ "\n") inst {} = .ok sampleDelta ∧
      parse (" \t" ++ fenced "json" "\r\n\n  " document "\n" ++ "\n") inst {} =
        .ok sampleDelta := by
  intro inst document
  have hnamed : ∀ v ∈ sampleDelta.writtenValues, ∀ x ∈ v.unknowns, x.name ≠ "" := by
    decide +kernel
  have haccept : Acceptable inst sampleDelta :=
    ⟨by decide, by decide, hnamed, by decide +kernel⟩
  have hvalues : ∀ v ∈ sampleDelta.writtenValues,
      v.Everywhere Value.FiniteFloat ∧ v.Everywhere Value.RegularMap := by
    decide +kernel
  have hread : Json.read? sampleDelta.toJson.compact = some sampleDelta.toJson.canonical := by
    decide +kernel
  have hbefore : Text.Blank " \t".toList := by decide
  have hafter : Text.Blank "\n".toList := by decide
  have hreturn : sampleDelta.returnValue ≠ some .null := by
    intro h
    cases Option.some.inj h
  obtain ⟨hplain, hfenced⟩ := parse_enclosed {} haccept
    (fun v hv => ⟨(hvalues v hv).1, (hvalues v hv).2⟩) hreturn hread hbefore hafter
  have hbreak : LineBreak "\n".toList := ⟨by decide, by decide⟩
  exact ⟨haccept, hplain, hfenced "" "\n" "\n" (by decide) hbreak hbreak,
    hfenced "json" "\r\n\n  " "\n" (by decide) ⟨by decide, by decide⟩ hbreak⟩

end SymbolicVM.Response

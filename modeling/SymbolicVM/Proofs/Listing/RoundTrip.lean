import SymbolicVM.Proofs.Listing.Lines
import SymbolicVM.Proofs.Text.Numeral

/-!
# Listings are read back

A program that is read from a listing is written so that reading gives it back
(`Listing.parse_render_of_parse`). The words that an instruction is written with are those it was
read from, but for the case of the opcode (`Listing.ofWords_spelling`), and a known place in the
source text is read back from the comment that it is written as (`Listing.location?_render`). Every
program of such instructions survives (`Listing.parse_render`).
-/

namespace SymbolicVM

/-- The words of the line that an instruction is written as. -/
def Instruction.spelling (inst : Instruction) : List (List Char) :=
  match inst.opcode, inst.label with
  | .label, some label => [label.toList ++ [':']]
  | _, _ =>
    (inst.result.toList.flatMap fun reg => [reg.toList, ['=']]) ++
      (Text.lower inst.opcode.name).toList ::
        (inst.operands.map (·.render.toList) ++ inst.label.toList.map String.toList)

/-- The instruction without a place in the source text that says nothing. -/
def Instruction.dropUnknown (inst : Instruction) : Instruction :=
  { inst with location := inst.location.filter fun loc => !loc.isUnknown }

namespace Listing

/-- The word of a line that names the opcode. The definition of a label has none. -/
def opcodeWord? : List (List Char) → Option (List Char)
  | [] => none
  | [single] => if (labelDefinition? single).isSome then none else some single
  | [_, ['=']] => none
  | _ :: ['='] :: opcodeWord :: _ => some opcodeWord
  | opcodeWord :: _ => some opcodeWord

/-- Whether a line spells out the opcode of labels. -/
def spellsLabel (line : List Char) : Bool :=
  match words (Text.trimChars line) with
  | .ok read =>
    (opcodeWord? read.1).bind (fun w => Opcode.ofString? (String.ofList w)) = some .label
  | .error _ => false

/-! ### Places in the source text -/

theorem ne_of_mem_toDigits {c d : Char} {n : Nat} (h : c ∈ Nat.toDigits 10 n)
    (hd : Text.isDigit d = false) : c ≠ d := by
  rintro rfl
  rw [Text.isDigit_of_mem_toDigits h] at hd
  contradiction

theorem toList_render_range {loc : SourceRange} (h : loc.isUnknown = false) :
    loc.render.toList =
      (Nat.toDigits 10 loc.startLine.toNat ++ ':' :: Nat.toDigits 10 loc.startColumn.toNat) ++
        '-' :: (Nat.toDigits 10 loc.endLine.toNat ++
          ':' :: Nat.toDigits 10 loc.endColumn.toNat) := by
  unfold SourceRange.render
  simp [h]

theorem isBlank_of_mem_render {loc : SourceRange} (h : loc.isUnknown = false) :
    ∀ c ∈ loc.render.toList, Text.isBlank c = false := by
  have hdigits : ∀ n : Nat, ∀ c ∈ Nat.toDigits 10 n, Text.isBlank c = false :=
    fun n c hc => Text.isBlank_of_isDigit (Text.isDigit_of_mem_toDigits hc)
  intro c hc
  rw [toList_render_range h] at hc
  simp only [List.mem_append, List.mem_cons] at hc
  rcases hc with (hc | rfl | hc) | rfl | hc | rfl | hc
  · exact hdigits _ c hc
  · decide
  · exact hdigits _ c hc
  · decide
  · exact hdigits _ c hc
  · decide
  · exact hdigits _ c hc

/-- A known place is read back from the comment that it is written as. -/
theorem location?_render {loc : SourceRange} (h : loc.isUnknown = false) :
    location? (Text.trimChars (' ' :: loc.render.toList)) = some loc := by
  have hvisible := isBlank_of_mem_render h
  have hne : loc.render.toList ≠ [] := by
    rw [toList_render_range h]
    simp
  have hstart : ∀ d ∈ Nat.toDigits 10 loc.startLine.toNat ++
      ':' :: Nat.toDigits 10 loc.startColumn.toNat, d ≠ '-' := by
    intro d hd
    rcases List.mem_append.mp hd with hd | hd
    · exact ne_of_mem_toDigits hd (by decide)
    · rcases List.mem_cons.mp hd with rfl | hd
      · decide
      · exact ne_of_mem_toDigits hd (by decide)
  have hcolon : ∀ n : Nat, ∀ d ∈ Nat.toDigits 10 n, d ≠ ':' :=
    fun n d hd => ne_of_mem_toDigits hd (by decide)
  rw [Text.trimChars_cons_of_blank (by decide),
    Text.trimChars_eq_self (Text.trimmed_of_forall hvisible)]
  unfold location?
  rw [Text.words_of_forall hvisible hne, toList_render_range h]
  simp only [List.head?_cons, Option.bind_eq_bind, Option.bind_some,
    Text.splitOnce_append_cons hstart, Text.splitOnce_append_cons (hcolon _),
    Text.word32?_toDigits, Option.pure_def]

/-! ### Spelling -/

section Spelling

variable {inst : Instruction} {ws operands : List (List Char)} {w : List Char}
  {result : Option String}

theorem spelling_of_label {label : String} (hop : inst.opcode = .label)
    (hlabel : inst.label = some label) : inst.spelling = [label.toList ++ [':']] := by
  unfold Instruction.spelling
  rw [hop, hlabel]

theorem spelling_of_not_label (h : ¬ ∃ label, inst.opcode = .label ∧ inst.label = some label) :
    inst.spelling = (inst.result.toList.flatMap fun reg => [reg.toList, ['=']]) ++
      (Text.lower inst.opcode.name).toList ::
        (inst.operands.map (·.render.toList) ++ inst.label.toList.map String.toList) := by
  unfold Instruction.spelling
  split
  · rename_i label hop hlabel
    exact absurd ⟨label, hop, hlabel⟩ h
  · rfl

theorem spelling_ne_nil (inst : Instruction) : inst.spelling ≠ [] := by
  unfold Instruction.spelling
  split
  · exact List.cons_ne_nil _ _
  · simp

/-- The text of an instruction without its place is its words with blanks between them. -/
theorem toList_renderBare (inst : Instruction) : inst.renderBare.toList = spaced inst.spelling := by
  by_cases hlabel : ∃ label, inst.opcode = .label ∧ inst.label = some label
  · obtain ⟨label, hop, hlabel⟩ := hlabel
    rw [spelling_of_label hop hlabel]
    unfold Instruction.renderBare
    rw [hop, hlabel]
    simp [spaced]
  · rw [spelling_of_not_label hlabel]
    unfold Instruction.renderBare
    split
    · rename_i label hop hsome
      exact absurd ⟨label, hop, hsome⟩ hlabel
    · cases inst.result with
      | none =>
        cases inst.label with
        | none => simp [spaced, List.flatMap_map]
        | some label => simp [spaced, List.flatMap_map]
      | some reg =>
        cases inst.label with
        | none => simp [spaced, List.flatMap_map]
        | some label => simp [spaced, List.flatMap_map]

/-- What the written name of an opcode is like: it is read as the opcode, defines no label, and
begins neither a comment nor a quoted word. -/
theorem written_name (op : Opcode) :
    Opcode.ofString? (Text.lower op.name) = some op ∧
    labelDefinition? (Text.lower op.name).toList = none ∧
    (Text.lower op.name).toList.any Text.isBlank = false ∧
    (Text.lower op.name).toList.head? ∉ [none, some '#', some '"', some '\''] := by
  -- no quantifier over characters stands here: it would be decided by going through all of them
  have hall : ∀ op ∈ Opcode.all, Opcode.ofString? (Text.lower op.name) = some op ∧
      labelDefinition? (Text.lower op.name).toList = none ∧
      (Text.lower op.name).toList.any Text.isBlank = false ∧
      (Text.lower op.name).toList.head? ∉ [none, some '#', some '"', some '\''] := by
    decide +kernel
  exact hall op (Opcode.mem_all op)

theorem isBlank_of_mem_name (op : Opcode) :
    ∀ c ∈ (Text.lower op.name).toList, Text.isBlank c = false := by
  intro c hc
  have hany := (written_name op).2.2.1
  exact Bool.eq_false_iff.mpr (List.any_eq_false.mp hany c hc)

theorem isWord_name (op : Opcode) : IsWord (Text.lower op.name).toList := by
  have hblank := isBlank_of_mem_name op
  obtain ⟨-, -, -, hfirst⟩ := written_name op
  generalize (Text.lower op.name).toList = name at hblank hfirst ⊢
  cases name with
  | nil => exact absurd List.mem_cons_self hfirst
  | cons first rest =>
    simp only [List.head?_cons, List.mem_cons, Option.some.injEq, reduceCtorEq, List.not_mem_nil,
      or_false, false_or, not_or] at hfirst
    exact isWord_of_forall hblank hfirst.1 hfirst.2

/-- An instruction holds the words that it is read from, and it does not depend on the spelling of
the opcode. -/
theorem ofOpcode_eq_ok {inst : Instruction} (h : ofOpcode result w operands = .ok inst) :
    Opcode.ofString? (String.ofList w) = some inst.opcode ∧ inst.result = result ∧
    inst.location = none ∧
    inst.operands.map (·.render.toList) ++ inst.label.toList.map String.toList = operands ∧
    ofOpcode result (Text.lower inst.opcode.name).toList operands = .ok inst := by
  have htexts : ∀ ws : List (List Char),
      (ws.map fun w => Operand.text (String.ofList w)).map (·.render.toList) = ws := by
    intro ws
    simp [Operand.render, Function.comp_def]
  unfold ofOpcode at h ⊢
  dsimp only at h ⊢
  cases hop : Opcode.ofString? (String.ofList w) with
  | none =>
    rw [hop] at h
    contradiction
  | some op =>
    rw [hop] at h
    dsimp only at h
    split_ifs at h with htakes
    · cases hlast : operands.getLast? with
      | none =>
        rw [hlast] at h
        contradiction
      | some label =>
        rw [hlast] at h
        obtain rfl := Except.ok.inj h
        refine ⟨rfl, rfl, rfl, ?_, ?_⟩
        · obtain ⟨before, rfl⟩ := List.getLast?_eq_some_iff.mp hlast
          simp [htexts]
        · rw [String.ofList_toList, (written_name op).1]
          simp [htakes]
    · obtain rfl := Except.ok.inj h
      refine ⟨rfl, rfl, rfl, ?_, ?_⟩
      · simp [htexts]
      · rw [String.ofList_toList, (written_name op).1]
        simp [htakes]

theorem eq_append_of_labelDefinition? {name : List Char} (h : labelDefinition? w = some name) :
    w = name ++ [':'] := by
  unfold labelDefinition? at h
  split_ifs at h with hcolon
  obtain ⟨before, rfl⟩ := List.getLast?_eq_some_iff.mp hcolon.1
  obtain rfl := Option.some.inj h
  rw [List.dropLast_concat]

theorem ofWords_single (h : labelDefinition? w = none) : ofWords [w] = ofOpcode none w [] := by
  unfold ofWords
  dsimp only
  rw [h]

theorem ofWords_cons_cons {first : List Char} (h : first ≠ ['=']) :
    ofWords (w :: first :: operands) = ofOpcode none w (first :: operands) := by
  unfold ofWords
  split <;> simp_all

theorem opcodeWord?_cons_cons {first : List Char} (h : first ≠ ['=']) :
    opcodeWord? (w :: first :: operands) = some w := by
  unfold opcodeWord?
  split <;> simp_all

/-- What the words of a line can be: the definition of a label, or an instruction with or without a
register for its result. -/
theorem ofWords_cases (h : ofWords ws = .ok inst) :
    (∃ name, ws = [name ++ [':']] ∧
      inst = { opcode := .label, label := some (String.ofList name) }) ∨
    (∃ reg w operands, ws = reg :: ['='] :: w :: operands ∧ opcodeWord? ws = some w ∧
      ofOpcode (some (String.ofList reg)) w operands = .ok inst) ∨
    (∃ w operands, ws = w :: operands ∧ opcodeWord? ws = some w ∧
      operands.head? ≠ some ['='] ∧ ofOpcode none w operands = .ok inst) := by
  rcases ws with _ | ⟨w, _ | ⟨first, operands⟩⟩
  · contradiction
  · cases hname : labelDefinition? w with
    | some name =>
      unfold ofWords at h
      dsimp only at h
      rw [hname] at h
      obtain rfl := Except.ok.inj h
      exact .inl ⟨name, congrArg (fun v => [v]) (eq_append_of_labelDefinition? hname), rfl⟩
    | none =>
      rw [ofWords_single hname] at h
      have hword : opcodeWord? [w] = some w := by
        unfold opcodeWord?
        simp [hname]
      exact .inr (.inr ⟨w, [], rfl, hword, by simp, h⟩)
  · by_cases hfirst : first = ['=']
    · subst hfirst
      cases operands with
      | nil => contradiction
      | cons opcodeWord operands => exact .inr (.inl ⟨w, opcodeWord, operands, rfl, rfl, h⟩)
    · rw [ofWords_cons_cons hfirst] at h
      exact .inr (.inr ⟨w, first :: operands, rfl, opcodeWord?_cons_cons hfirst, by simpa, h⟩)

theorem location_of_ofWords (h : ofWords ws = .ok inst) : inst.location = none := by
  rcases ofWords_cases h with ⟨name, -, rfl⟩ | ⟨reg, w, operands, -, -, hof⟩ |
    ⟨w, operands, -, -, -, hof⟩
  · rfl
  · exact (ofOpcode_eq_ok hof).2.2.1
  · exact (ofOpcode_eq_ok hof).2.2.1

/-- **What is written is what was read.** The words of an instruction are those of its line, but for
the case of the opcode, and are read as the same instruction. -/
theorem ofWords_spelling (h : ofWords ws = .ok inst)
    (hlabel : (opcodeWord? ws).bind (fun w => Opcode.ofString? (String.ofList w)) ≠ some .label) :
    (∀ w ∈ inst.spelling, w ∈ ws ∨ w = (Text.lower inst.opcode.name).toList) ∧
      ofWords inst.spelling = .ok inst := by
  have hnot : ∀ w, opcodeWord? ws = some w →
      Opcode.ofString? (String.ofList w) = some inst.opcode →
      ¬ ∃ label, inst.opcode = .label ∧ inst.label = some label := by
    rintro w hw hop ⟨label, hopcode, -⟩
    rw [hw, Option.bind_some, hop, hopcode] at hlabel
    exact hlabel rfl
  rcases ofWords_cases h with ⟨name, rfl, rfl⟩ | ⟨reg, w, operands, rfl, hword, hof⟩ |
    ⟨w, operands, rfl, hword, hhead, hof⟩
  · have hspelling : Instruction.spelling
        { opcode := .label, label := some (String.ofList name) } = [name ++ [':']] := by
      rw [spelling_of_label rfl rfl, String.toList_ofList]
    rw [hspelling]
    exact ⟨fun w hw => .inl hw, h⟩
  · obtain ⟨hop, hresult, -, hoperands, hlower⟩ := ofOpcode_eq_ok hof
    have hspelling : inst.spelling =
        reg :: ['='] :: (Text.lower inst.opcode.name).toList :: operands := by
      rw [spelling_of_not_label (hnot w hword hop), hoperands, hresult]
      simp
    rw [hspelling]
    refine ⟨fun v hv => ?_, hlower⟩
    simp only [List.mem_cons] at hv ⊢
    rcases hv with rfl | rfl | rfl | hv
    · exact .inl (.inl rfl)
    · exact .inl (.inr (.inl rfl))
    · exact .inr rfl
    · exact .inl (.inr (.inr (.inr hv)))
  · obtain ⟨hop, hresult, -, hoperands, hlower⟩ := ofOpcode_eq_ok hof
    have hspelling : inst.spelling = (Text.lower inst.opcode.name).toList :: operands := by
      rw [spelling_of_not_label (hnot w hword hop), hoperands, hresult]
      simp
    rw [hspelling]
    refine ⟨fun v hv => ?_, ?_⟩
    · rcases List.mem_cons.mp hv with rfl | hv
      · exact .inr rfl
      · exact .inl (List.mem_cons_of_mem w hv)
    · -- a name alone on its line must not look like the definition of a label
      cases operands with
      | nil => rw [ofWords_single (written_name inst.opcode).2.1, hlower]
      | cons first operands =>
        rw [ofWords_cons_cons (fun heq => hhead (congrArg some heq)), hlower]

end Spelling

/-! ### Lines -/

/-- An instruction whose words are words of lines and are read as the instruction. -/
structure Spelled (inst : Instruction) : Prop where
  isWord : ∀ w ∈ inst.spelling, IsWord w
  trimmed : ∀ w ∈ inst.spelling, Text.Trimmed w
  newline : ∀ w ∈ inst.spelling, '\n' ∉ w
  reads : ofWords inst.spelling = .ok { inst with location := none }

section Lines

variable {inst : Instruction} {line : List Char} {loc : SourceRange}

/-- An instruction that is read from a line and does not spell out the opcode of labels. -/
theorem spelled_of_ofLine (h : ofLine (Text.trimChars line) = .ok inst)
    (hline : '\n' ∉ line) (hlabel : spellsLabel line = false) : Spelled inst := by
  obtain ⟨⟨ws, comment⟩, hwords, h⟩ := bind_eq_ok.mp h
  obtain ⟨bare, hbare, h⟩ := bind_eq_ok.mp h
  have hopcode : (opcodeWord? ws).bind (fun w => Opcode.ofString? (String.ofList w)) ≠
      some .label := by
    unfold spellsLabel at hlabel
    rw [hwords] at hlabel
    exact of_decide_eq_false hlabel
  -- a place in the source text changes neither the words nor what they are read as
  have hsame : inst.spelling = bare.spelling ∧ { inst with location := none } = bare := by
    have hnone := location_of_ofWords hbare
    split at h
    · obtain rfl := Except.ok.inj h
      refine ⟨rfl, ?_⟩
      rw [← hnone]
    · obtain rfl := Except.ok.inj h
      refine ⟨rfl, ?_⟩
      rw [← hnone]
  obtain ⟨hspelling, hreads⟩ := ofWords_spelling hbare hopcode
  have hchars : ∀ c ∈ Text.trimChars line, c ≠ '\n' := by
    rintro c hc rfl
    exact hline (Text.mem_of_mem_trimChars hc)
  have hread := isWord_of_words hwords hchars
  have htrimmed := trimmed_of_words hwords
  rw [← hsame.1] at hspelling hreads
  refine ⟨fun w hw => ?_, fun w hw => ?_, fun w hw => ?_, ?_⟩
  · rcases hspelling w hw with hw | rfl
    · exact (hread w hw).1
    · exact isWord_name _
  · rcases hspelling w hw with hw | rfl
    · exact htrimmed w hw
    · exact Text.trimmed_of_forall (isBlank_of_mem_name _)
  · rcases hspelling w hw with hw | rfl
    · exact fun hmem => (hread w hw).2 _ hmem rfl
    · intro hmem
      have hblank := isBlank_of_mem_name _ _ hmem
      exact absurd hblank (by decide)
  · rw [hreads, hsame.2]

/-- The line of an instruction, with its place in the source text if that is known. -/
theorem toList_render_cases (inst : Instruction) :
    (inst.dropUnknown.location = none ∧ inst.render.toList = spaced inst.spelling) ∨
    (∃ loc, inst.dropUnknown.location = some loc ∧ loc.isUnknown = false ∧
      inst.render.toList =
        spaced inst.spelling ++ ' ' :: ' ' :: '#' :: ' ' :: loc.render.toList) := by
  unfold Instruction.render Instruction.dropUnknown
  rw [String.toList_append, toList_renderBare]
  cases inst.location with
  | none => exact .inl ⟨rfl, by simp⟩
  | some loc =>
    cases hunknown : loc.isUnknown with
    | true => exact .inl ⟨by simp [hunknown], by simp [hunknown]⟩
    | false => exact .inr ⟨loc, by simp [hunknown], hunknown, by simp [hunknown]⟩

/-- **The line of an instruction is read back.** -/
theorem Spelled.ofLine_render (h : Spelled inst) :
    ofLine inst.render.toList = .ok inst.dropUnknown := by
  have hne := spelling_ne_nil inst
  unfold ofLine
  rcases toList_render_cases inst with ⟨hnone, hline⟩ | ⟨loc, hsome, hknown, hline⟩
  · rw [hline, words_spaced h.isWord hne, ok_bind]
    dsimp only
    rw [h.reads, ok_bind, Option.bind_none]
    dsimp only
    rw [← hnone]
    rfl
  · rw [hline, words_spaced_comment h.isWord hne, ok_bind]
    dsimp only
    rw [h.reads, ok_bind, Option.bind_some, location?_render hknown]
    dsimp only
    rw [← hsome]
    rfl

/-- A line stands for itself in a text: it has no blanks at its ends and no line feed, and is not
skipped. -/
theorem Spelled.line_render (h : Spelled inst) :
    Text.trimChars inst.render.toList = inst.render.toList ∧
    isSkipped inst.render.toList = false ∧ '\n' ∉ inst.render.toList := by
  have hne := spelling_ne_nil inst
  have htrimmed := trimmed_spaced h.isWord h.trimmed
  have hnewline := newline_notMem_spaced h.newline
  rcases toList_render_cases inst with ⟨-, hline⟩ | ⟨loc, -, hknown, hline⟩
  · rw [hline]
    refine ⟨Text.trimChars_eq_self htrimmed, ?_, hnewline⟩
    rw [← List.append_nil (spaced inst.spelling)]
    exact isSkipped_spaced h.isWord hne []
  · have hvisible := isBlank_of_mem_render hknown
    have hspaced : spaced inst.spelling ≠ [] := by
      intro hnil
      have hskipped := isSkipped_spaced h.isWord hne []
      rw [hnil] at hskipped
      contradiction
    have hloc : loc.render.toList ≠ [] := by
      rw [toList_render_range hknown]
      simp
    rw [hline]
    refine ⟨Text.trimChars_eq_self ?_, isSkipped_spaced h.isWord hne _, ?_⟩
    · -- the blanks before the comment lie between two trimmed parts
      show Text.Trimmed (spaced inst.spelling ++ ([' ', ' ', '#', ' '] ++ loc.render.toList))
      exact htrimmed.append (Text.trimmed_of_forall hvisible) hspaced hloc
    · intro hmem
      rcases List.mem_append.mp hmem with hmem | hmem
      · exact hnewline hmem
      · have hmem : '\n' ∈ loc.render.toList := by simpa using hmem
        exact absurd (hvisible '\n' hmem) (by decide)

end Lines

/-! ### Texts -/

section Texts

variable {insts : List Instruction} {number : Nat} {ls : List (List Char)}

/-- Every instruction of a listing comes from one of its lines. -/
theorem exists_line_of_ofLines (h : ofLines number ls = .ok insts) :
    ∀ inst ∈ insts, ∃ line ∈ ls, ofLine (Text.trimChars line) = .ok inst := by
  induction ls generalizing number insts with
  | nil =>
    obtain rfl := Except.ok.inj h
    exact fun inst hinst => absurd hinst List.not_mem_nil
  | cons line rest ih =>
    have hrest : ∀ {number insts}, ofLines number rest = .ok insts → ∀ inst ∈ insts,
        ∃ l ∈ line :: rest, ofLine (Text.trimChars l) = .ok inst := by
      intro number insts hok inst hinst
      obtain ⟨l, hl, hof⟩ := ih hok inst hinst
      exact ⟨l, List.mem_cons_of_mem line hl, hof⟩
    unfold ofLines at h
    dsimp only at h
    split_ifs at h
    · exact hrest h
    · cases hfirst : ofLine (Text.trimChars line) with
      | error fault =>
        rw [hfirst] at h
        contradiction
      | ok first =>
        rw [hfirst] at h
        dsimp only at h
        cases hothers : ofLines (number + 1) rest with
        | error e =>
          rw [hothers] at h
          contradiction
        | ok others =>
          rw [hothers] at h
          obtain rfl := Except.ok.inj h
          intro inst hinst
          rcases List.mem_cons.mp hinst with rfl | hinst
          · exact ⟨line, List.mem_cons_self, hfirst⟩
          · exact hrest hothers inst hinst

/-- The lines of spelled instructions are read back one by one. -/
theorem ofLines_render (h : ∀ inst ∈ insts, Spelled inst) :
    ofLines number (insts.map (·.render.toList)) = .ok (insts.map Instruction.dropUnknown) := by
  induction insts generalizing number with
  | nil => rfl
  | cons inst insts ih =>
    obtain ⟨hinst, hrest⟩ := List.forall_mem_cons.mp h
    obtain ⟨htrim, hskip, -⟩ := hinst.line_render
    rw [List.map_cons, ofLines, htrim, hskip, hinst.ofLine_render, ih hrest]
    rfl

/-- A listing of spelled instructions is read back. -/
theorem parse_render (h : ∀ inst ∈ insts, Spelled inst) :
    parse (render insts) = .ok (insts.map Instruction.dropUnknown) := by
  have htext : (render insts).toList =
      (insts.map (·.render.toList)).flatMap (· ++ ['\n']) := by
    unfold render
    simp [List.flatMap_map]
  have hlines : ∀ line ∈ insts.map (·.render.toList), '\n' ∉ line := by
    intro line hline
    obtain ⟨inst, hinst, rfl⟩ := List.mem_map.mp hline
    exact (h inst hinst).line_render.2.2
  unfold parse
  rw [htext, Text.lines_flatMap hlines]
  exact ofLines_render h

end Texts

/-- **A program that is read from a listing is read back from the listing that it is written as.**
The text may spell opcodes in any case, have blank lines, comments and blanks between words, but
must not spell out the opcode of labels. What is lost is a place in the source text that says
nothing. -/
theorem parse_render_of_parse {text : String} {insts : List Instruction}
    (h : parse text = .ok insts)
    (hlabels : ∀ line ∈ Text.lines text.toList, spellsLabel line = false) :
    parse (render insts) = .ok (insts.map Instruction.dropUnknown) := by
  refine parse_render fun inst hinst => ?_
  obtain ⟨line, hline, hof⟩ := exists_line_of_ofLines h inst hinst
  exact spelled_of_ofLine hof (Text.newline_notMem_of_mem_lines hline) (hlabels line hline)

/-- A listing with comments, blanks, capitals and a quoted operand. -/
def greetingText : String :=
  "# greet\n\nENTRY:   # 0:0-0:0\n  %0 = Const \"say \\\" # \"   # +1:02-1:9 first\n" ++
    "branch_if %0 ENTRY,done\r\n\tdone:\nRETURN\n"

/-- The program of this listing. -/
def greetingProgram : List Instruction :=
  [{ opcode := .label, label := some "ENTRY", location := some ⟨0, 0, 0, 0⟩ },
    { opcode := .const, result := some "%0", operands := [.text "\"say \\\" # \""],
      location := some ⟨1, 2, 1, 9⟩ },
    { opcode := .branchIf, operands := [.text "%0"], label := some "ENTRY,done" },
    { opcode := .label, label := some "done" },
    { opcode := .ret }]

/-- The program is written without the comments, and with one blank between words. -/
theorem greetingProgram_read_back :
    parse greetingText = .ok greetingProgram ∧
    render greetingProgram = "ENTRY:\n%0 = const \"say \\\" # \"  # 1:2-1:9\n" ++
      "branch_if %0 ENTRY,done\ndone:\nreturn\n" ∧
    parse (render greetingProgram) = .ok
      ({ opcode := .label, label := some "ENTRY" } :: greetingProgram.drop 1) := by
  have hparse : parse greetingText = .ok greetingProgram :=
    toOption_eq_some (by decide +kernel)
  have hlabels : ∀ line ∈ Text.lines greetingText.toList, spellsLabel line = false := by
    decide +kernel
  exact ⟨hparse, by decide +kernel, parse_render_of_parse hparse hlabels⟩

end Listing

end SymbolicVM

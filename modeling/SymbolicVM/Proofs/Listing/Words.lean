import SymbolicVM.Listing
import SymbolicVM.Proofs.Except
import SymbolicVM.Proofs.FlowGraph.Targets

/-!
# Words of a listing

The automaton that cuts a line into words keeps what is known of the word that it is reading: a word
without quotes has no blanks, and a quoted one begins with its quote (`Listing.Mode.Sound`). So no
complete word begins or ends in a blank (`Listing.trimmed_of_words`), nor does the label of a jump
in a program that is read from a listing (`Listing.trimmedJumps_of_parse`).
-/

namespace SymbolicVM.Listing

/-- What is known of the word that is being read. -/
inductive Mode.Sound : Mode → Prop where
  | between : Sound .between
  | bare {seen : List Char} (inside : ∀ c ∈ seen, Text.isBlank c = false) : Sound (.bare seen)
  | quoted {quote : Char} {seen : List Char} (visible : Text.isBlank quote = false)
      (first : seen.getLast? = some quote) : Sound (.quoted quote seen)
  | escaped {quote : Char} {seen : List Char} (visible : Text.isBlank quote = false)
      (first : seen.getLast? = some quote) : Sound (.escaped quote seen)
  | comment {seen : List Char} : Sound (.comment seen)

/-- The word that is being read is sound, and no complete one has a blank at its ends. -/
structure Sound (state : Mode × List (List Char)) : Prop where
  mode : state.1.Sound
  words : ∀ w ∈ state.2, Text.Trimmed w

theorem getLast?_cons_of_getLast? {c d : Char} {seen : List Char} (h : seen.getLast? = some d) :
    (c :: seen).getLast? = some d := by
  rw [List.getLast?_cons, h]
  rfl

/-- A word that began with a quote and ends in one. -/
theorem trimmed_quoted {quote : Char} {seen : List Char} (hquote : Text.isBlank quote = false)
    (hfirst : seen.getLast? = some quote) : Text.Trimmed (quote :: seen).reverse := by
  constructor
  · intro c hc
    rw [List.head?_reverse, getLast?_cons_of_getLast? hfirst] at hc
    obtain rfl := Option.some.inj hc
    exact hquote
  · intro c hc
    rw [List.getLast?_reverse] at hc
    obtain rfl := Option.some.inj hc
    exact hquote

/-- Reading one character keeps what is known. -/
theorem sound_step {state : Mode × List (List Char)} (h : Sound state) (c : Char) :
    Sound (step state c) := by
  obtain ⟨mode, words⟩ := state
  obtain ⟨hmode, hwords⟩ := h
  unfold step
  cases hmode with
  | between =>
    dsimp only
    split_ifs with hblank hhash hquote
    · exact ⟨.between, hwords⟩
    · exact ⟨.comment, hwords⟩
    · exact ⟨.quoted (by simpa using hblank) rfl, hwords⟩
    · exact ⟨.bare (by simpa using hblank), hwords⟩
  | bare inside =>
    dsimp only
    split_ifs with hblank
    · refine ⟨.between, List.forall_mem_cons.mpr ⟨Text.trimmed_of_forall ?_, hwords⟩⟩
      simpa using inside
    · exact ⟨.bare (List.forall_mem_cons.mpr ⟨by simpa using hblank, inside⟩), hwords⟩
  | quoted visible first =>
    dsimp only
    split_ifs with hescape hclose
    · exact ⟨.escaped visible (getLast?_cons_of_getLast? first), hwords⟩
    · subst hclose
      exact ⟨.between, List.forall_mem_cons.mpr ⟨trimmed_quoted visible first, hwords⟩⟩
    · exact ⟨.quoted visible (getLast?_cons_of_getLast? first), hwords⟩
  | escaped visible first =>
    exact ⟨.quoted visible (getLast?_cons_of_getLast? first), hwords⟩
  | comment => exact ⟨.comment, hwords⟩

theorem sound_foldl (line : List Char) {state : Mode × List (List Char)} (h : Sound state) :
    Sound (line.foldl step state) := by
  induction line generalizing state with
  | nil => exact h
  | cons c line ih => exact ih (sound_step h c)

/-- No word of a line has a blank at its ends. -/
theorem trimmed_of_words {line : List Char} {ws : List (List Char)} {comment : Option (List Char)}
    (h : words line = .ok (ws, comment)) : ∀ w ∈ ws, Text.Trimmed w := by
  have hsound : Sound (line.foldl step (.between, [])) :=
    sound_foldl line ⟨.between, fun w hw => absurd hw List.not_mem_nil⟩
  unfold words at h
  generalize line.foldl step (.between, []) = state at h hsound
  obtain ⟨mode, complete⟩ := state
  obtain ⟨hmode, hwords⟩ := hsound
  cases hmode with
  | between =>
    obtain ⟨rfl, -⟩ := Prod.mk.inj (Except.ok.inj h)
    simpa using hwords
  | bare inside =>
    obtain ⟨rfl, -⟩ := Prod.mk.inj (Except.ok.inj h)
    intro w hw
    rcases List.mem_cons.mp (List.mem_reverse.mp hw) with rfl | hw
    · exact Text.trimmed_of_forall (by simpa using inside)
    · exact hwords w hw
  | quoted => contradiction
  | escaped => contradiction
  | comment =>
    obtain ⟨rfl, -⟩ := Prod.mk.inj (Except.ok.inj h)
    simpa using hwords

/-! ### Labels -/

/-- The label of an instruction is one of the words after the opcode. -/
theorem mem_of_ofOpcode {result : Option String} {opcodeWord : List Char}
    {operands : List (List Char)} {inst : Instruction} {label : String}
    (h : ofOpcode result opcodeWord operands = .ok inst) (hlabel : inst.label = some label) :
    ∃ w ∈ operands, label = String.ofList w := by
  unfold ofOpcode at h
  dsimp only at h
  split at h
  · contradiction
  · split_ifs at h
    · split at h
      · contradiction
      · rename_i w hw
        obtain rfl := Except.ok.inj h
        exact ⟨w, List.mem_of_getLast? hw, (Option.some.inj hlabel).symm⟩
    · obtain rfl := Except.ok.inj h
      contradiction

/-- The label of an instruction that does not define it is one of the words of the line. -/
theorem mem_of_ofWords {ws : List (List Char)} {inst : Instruction} {label : String}
    (h : ofWords ws = .ok inst) (hop : inst.opcode ≠ .label) (hlabel : inst.label = some label) :
    ∃ w ∈ ws, label = String.ofList w := by
  unfold ofWords at h
  split at h
  · contradiction
  · split at h
    · obtain rfl := Except.ok.inj h
      exact absurd rfl hop
    · obtain ⟨w, hw, -⟩ := mem_of_ofOpcode h hlabel
      exact absurd hw List.not_mem_nil
  · contradiction
  · obtain ⟨w, hw, heq⟩ := mem_of_ofOpcode h hlabel
    exact ⟨w, by simp [hw], heq⟩
  · obtain ⟨w, hw, heq⟩ := mem_of_ofOpcode h hlabel
    exact ⟨w, List.mem_cons_of_mem _ hw, heq⟩

theorem trim_label_of_ofLine {line : List Char} {inst : Instruction} {label : String}
    (h : ofLine line = .ok inst) (hop : inst.opcode = .branch) (hlabel : inst.label = some label) :
    Text.trim label = label := by
  obtain ⟨⟨ws, comment⟩, hwords, h⟩ := bind_eq_ok.mp h
  obtain ⟨bare, hbare, h⟩ := bind_eq_ok.mp h
  -- a place in the source text changes neither opcode nor label
  have hsame : inst.opcode = bare.opcode ∧ inst.label = bare.label := by
    split at h
    · obtain rfl := Except.ok.inj h
      exact ⟨rfl, rfl⟩
    · obtain rfl := Except.ok.inj h
      exact ⟨rfl, rfl⟩
  have hne : bare.opcode ≠ .label := by
    rw [← hsame.1, hop]
    decide
  obtain ⟨w, hw, rfl⟩ := mem_of_ofWords hbare hne (hsame.2.symm.trans hlabel)
  unfold Text.trim
  rw [String.toList_ofList, Text.trimChars_eq_self (trimmed_of_words hwords w hw)]

theorem trimmedJumps_of_ofLines {number : Nat} {lines : List (List Char)}
    {insts : List Instruction} (h : ofLines number lines = .ok insts) : TrimmedJumps insts := by
  induction lines generalizing number insts with
  | nil =>
    obtain rfl := Except.ok.inj h
    exact fun inst hinst => absurd hinst List.not_mem_nil
  | cons line rest ih =>
    unfold ofLines at h
    dsimp only at h
    split_ifs at h
    · exact ih h
    · split at h
      · contradiction
      · rename_i first hfirst
        split at h
        · contradiction
        · rename_i others hothers
          obtain rfl := Except.ok.inj h
          intro inst hinst hop label hlabel
          rcases List.mem_cons.mp hinst with rfl | hinst
          · exact trim_label_of_ofLine hfirst hop hlabel
          · exact ih hothers inst hinst hop label hlabel

/-- **A listing has no jump with blanks around its label.** -/
theorem trimmedJumps_of_parse {text : String} {insts : List Instruction}
    (h : parse text = .ok insts) : TrimmedJumps insts :=
  trimmedJumps_of_ofLines h

end SymbolicVM.Listing

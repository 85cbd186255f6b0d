import SymbolicVM.Proofs.Listing.Words

/-!
# Lines of words

The automaton that cuts a line into words begins afresh with each word. So a word of a line is cut
out again wherever it stands between blanks (`Listing.IsWord`, `Listing.isWord_of_words`), and words
that are written with a blank between any two are read back (`Listing.words_spaced`), also before a
comment (`Listing.words_spaced_comment`).
-/

namespace SymbolicVM.Listing

/-! ### Words -/

/-- A word that the automaton cuts out of a line: a quoted one is complete with its last character,
any other one at the next blank. -/
inductive IsWord (w : List Char) : Prop where
  | bare (reads : ∀ done, w.foldl step (.between, done) = (.bare w.reverse, done))
  | quoted (reads : ∀ done, w.foldl step (.between, done) = (.between, w :: done))

/-- The characters of the word or comment that is being read, the last one first. -/
def Mode.seen : Mode → List Char
  | .between => []
  | .bare seen => seen
  | .quoted _ seen => seen
  | .escaped _ seen => seen
  | .comment seen => seen

/-- The characters seen lead to where the automaton is, unless it is in a comment. All complete
words are words, and all characters satisfy `P`. -/
structure Retraced (P : Char → Prop) (state : Mode × List (List Char)) : Prop where
  mode : (∀ seen, state.1 ≠ .comment seen) →
    ∀ done, state.1.seen.reverse.foldl step (.between, done) = (state.1, done)
  seen : ∀ c ∈ state.1.seen, P c
  words : ∀ w ∈ state.2, IsWord w ∧ ∀ c ∈ w, P c

section Words

variable {P : Char → Prop} {w rest : List Char} {ws done : List (List Char)} {c : Char}
  {mode next : Mode}

theorem foldl_step_comment (cs seen : List Char) (done : List (List Char)) :
    cs.foldl step (.comment seen, done) = (.comment (cs.reverse ++ seen), done) := by
  induction cs generalizing seen with
  | nil => rfl
  | cons c cs ih =>
    show cs.foldl step (.comment (c :: seen), done) = _
    rw [ih, List.reverse_cons, List.append_assoc, List.singleton_append]

/-- One more character of the same word. -/
theorem Retraced.more (h : Retraced P (mode, done)) (hc : P c)
    (hmode : ∀ seen, mode ≠ .comment seen) (hnext : next.seen = c :: mode.seen)
    (hstep : ∀ done, step (mode, done) c = (next, done)) :
    Retraced P (next, done) where
  mode _ complete := by
    show next.seen.reverse.foldl step (.between, complete) = (next, complete)
    rw [hnext, List.reverse_cons, List.foldl_append, h.mode hmode complete]
    exact hstep complete
  seen := by
    show ∀ d ∈ next.seen, P d
    rw [hnext]
    exact List.forall_mem_cons.mpr ⟨hc, h.seen⟩
  words := h.words

/-- A word becomes complete. -/
theorem Retraced.complete (h : Retraced P (mode, done)) (hw : IsWord w) (hchars : ∀ c ∈ w, P c) :
    Retraced P (.between, w :: done) where
  mode _ _ := rfl
  seen _ hc := absurd hc List.not_mem_nil
  words := List.forall_mem_cons.mpr ⟨⟨hw, hchars⟩, h.words⟩

/-- In a comment there are no more words. -/
theorem Retraced.comment {seen : List Char} (h : Retraced P (mode, done))
    (hseen : ∀ c ∈ seen, P c) : Retraced P (.comment seen, done) where
  mode hmode := absurd rfl (hmode seen)
  seen := hseen
  words := h.words

/-- Reading one character keeps the way back. -/
theorem retraced_step {state : Mode × List (List Char)} (h : Retraced P state) (hc : P c) :
    Retraced P (step state c) := by
  obtain ⟨mode, done⟩ := state
  cases mode with
  | between =>
    have hmode : ∀ seen, Mode.between ≠ .comment seen := fun seen => Mode.noConfusion
    unfold step
    dsimp only
    split_ifs with hblank hhash hquote
    · exact h
    · exact h.comment fun d hd => absurd hd List.not_mem_nil
    · exact h.more hc hmode rfl fun done => by simp [step, hblank, hhash, hquote]
    · exact h.more hc hmode rfl fun done => by simp [step, hblank, hhash, hquote]
  | bare seen =>
    have hmode : ∀ seen', Mode.bare seen ≠ .comment seen' := fun seen' => Mode.noConfusion
    unfold step
    dsimp only
    split_ifs with hblank
    · refine h.complete (.bare fun done => ?_) fun d hd => h.seen d (List.mem_reverse.mp hd)
      rw [List.reverse_reverse]
      exact h.mode hmode done
    · exact h.more hc hmode rfl fun done => by simp [step, hblank]
  | quoted quote seen =>
    have hmode : ∀ seen', Mode.quoted quote seen ≠ .comment seen' := fun seen' => Mode.noConfusion
    unfold step
    dsimp only
    split_ifs with hescape hclose
    · exact h.more hc hmode rfl fun done => by simp [step, hescape]
    · have hchars : ∀ d ∈ c :: seen, P d := List.forall_mem_cons.mpr ⟨hc, h.seen⟩
      refine h.complete (.quoted fun done => ?_) fun d hd => hchars d (List.mem_reverse.mp hd)
      have hback : seen.reverse.foldl step (.between, done) = (.quoted quote seen, done) :=
        h.mode hmode done
      rw [List.reverse_cons, List.foldl_append, hback]
      simp [step, hclose, hclose ▸ hescape]
    · exact h.more hc hmode rfl fun done => by simp [step, hescape, hclose]
  | escaped quote seen =>
    have hmode : ∀ seen', Mode.escaped quote seen ≠ .comment seen' := fun seen' => Mode.noConfusion
    exact h.more hc hmode rfl fun done => rfl
  | comment seen => exact h.comment (List.forall_mem_cons.mpr ⟨hc, h.seen⟩)

theorem retraced_foldl {line : List Char} {state : Mode × List (List Char)} (h : Retraced P state)
    (hline : ∀ c ∈ line, P c) : Retraced P (line.foldl step state) := by
  induction line generalizing state with
  | nil => exact h
  | cons c line ih =>
    obtain ⟨hc, hrest⟩ := List.forall_mem_cons.mp hline
    exact ih (retraced_step h hc) hrest

/-- The words of a line are words, with no characters but those of the line. -/
theorem isWord_of_words {line : List Char} {comment : Option (List Char)}
    (h : words line = .ok (ws, comment)) (hline : ∀ c ∈ line, P c) :
    ∀ w ∈ ws, IsWord w ∧ ∀ c ∈ w, P c := by
  have hback : Retraced P (line.foldl step (.between, [])) :=
    retraced_foldl ⟨fun _ _ => rfl, fun c hc => absurd hc List.not_mem_nil,
      fun w hw => absurd hw List.not_mem_nil⟩ hline
  unfold words at h
  generalize line.foldl step (.between, []) = state at h hback
  obtain ⟨mode, complete⟩ := state
  cases mode with
  | between =>
    obtain ⟨rfl, -⟩ := Prod.mk.inj (Except.ok.inj h)
    simpa using hback.words
  | bare seen =>
    obtain ⟨rfl, -⟩ := Prod.mk.inj (Except.ok.inj h)
    intro w hw
    rcases List.mem_cons.mp (List.mem_reverse.mp hw) with rfl | hw
    · refine ⟨.bare fun done => ?_, fun d hd => hback.seen d (List.mem_reverse.mp hd)⟩
      rw [List.reverse_reverse]
      exact hback.mode (fun seen' => Mode.noConfusion) done
    · exact hback.words w hw
  | quoted quote seen => contradiction
  | escaped quote seen => contradiction
  | comment seen =>
    obtain ⟨rfl, -⟩ := Prod.mk.inj (Except.ok.inj h)
    simpa using hback.words

/-- A word that does not begin like a quoted one or a comment and has no blanks. -/
theorem isWord_of_forall {first : Char} (h : ∀ c ∈ first :: w, Text.isBlank c = false)
    (hhash : first ≠ '#') (hquote : first ≠ '"' ∧ first ≠ '\'') : IsWord (first :: w) := by
  obtain ⟨hfirst, hrest⟩ := List.forall_mem_cons.mp h
  have hread : ∀ (cs seen : List Char) (done : List (List Char)),
      (∀ c ∈ cs, Text.isBlank c = false) →
      cs.foldl step (.bare seen, done) = (.bare (cs.reverse ++ seen), done) := by
    intro cs
    induction cs with
    | nil => exact fun seen done _ => rfl
    | cons c cs ih =>
      intro seen done hcs
      obtain ⟨hc, hcs⟩ := List.forall_mem_cons.mp hcs
      have hstep : step (.bare seen, done) c = (.bare (c :: seen), done) := by simp [step, hc]
      rw [List.foldl_cons, hstep, ih (c :: seen) done hcs, List.reverse_cons, List.append_assoc,
        List.singleton_append]
  refine .bare fun done => ?_
  have hstep : step (.between, done) first = (.bare [first], done) := by
    simp [step, hfirst, hhash, hquote.1, hquote.2]
  rw [List.foldl_cons, hstep, hread w [first] done hrest, List.reverse_cons]

theorem IsWord.ne_nil (h : IsWord w) : w ≠ [] := by
  rintro rfl
  cases h with
  | bare reads => cases reads []
  | quoted reads => cases reads []

/-- No word begins a comment. -/
theorem IsWord.head?_ne_hash (h : IsWord w) : w.head? ≠ some '#' := by
  intro hhead
  obtain ⟨tail, rfl⟩ := List.head?_eq_some_iff.mp hhead
  have hcomment : ('#' :: tail).foldl step (.between, []) = (.comment (tail.reverse ++ []), []) :=
    foldl_step_comment tail [] []
  cases h with
  | bare reads => cases hcomment.symm.trans (reads [])
  | quoted reads => cases hcomment.symm.trans (reads [])

/-- A word is complete at a blank that follows it. -/
theorem IsWord.foldl_step (h : IsWord w) (rest : List Char) (done : List (List Char)) :
    (w ++ ' ' :: rest).foldl step (.between, done) = rest.foldl step (.between, w :: done) := by
  rw [List.foldl_append, List.foldl_cons]
  cases h with
  | bare reads =>
    have hstep : step (.bare w.reverse, done) ' ' = (.between, w.reverse.reverse :: done) := rfl
    rw [reads done, hstep, List.reverse_reverse]
  | quoted reads =>
    rw [reads done]
    rfl

/-! ### Lines of words -/

/-- The line of some words, with a blank between any two. -/
def spaced : List (List Char) → List Char
  | [] => []
  | w :: ws => w ++ ws.flatMap (' ' :: ·)

theorem spaced_cons_cons (w v : List Char) (ws : List (List Char)) :
    spaced (w :: v :: ws) = w ++ ' ' :: spaced (v :: ws) := by
  simp [spaced]

/-- A line of words is neither empty nor a comment. -/
theorem isSkipped_spaced (h : ∀ w ∈ ws, IsWord w) (hne : ws ≠ []) (rest : List Char) :
    isSkipped (spaced ws ++ rest) = false := by
  obtain ⟨w, ws, rfl⟩ := List.exists_cons_of_ne_nil hne
  have hw := h w List.mem_cons_self
  obtain ⟨c, tail, rfl⟩ := List.exists_cons_of_ne_nil hw.ne_nil
  have hc : c ≠ '#' := fun heq => hw.head?_ne_hash (congrArg some heq)
  exact beq_eq_false_iff_ne.mpr hc

theorem newline_notMem_spaced (h : ∀ w ∈ ws, '\n' ∉ w) : '\n' ∉ spaced ws := by
  cases ws with
  | nil => exact List.not_mem_nil
  | cons w ws =>
    obtain ⟨hw, hws⟩ := List.forall_mem_cons.mp h
    intro hmem
    rcases List.mem_append.mp hmem with hmem | hmem
    · exact hw hmem
    · obtain ⟨v, hv, hmem⟩ := List.mem_flatMap.mp hmem
      rcases List.mem_cons.mp hmem with heq | hmem
      · contradiction
      · exact hws v hv hmem

/-- Words between blanks are read back, up to the blank behind the last one. -/
theorem foldl_step_spaced (h : ∀ w ∈ ws, IsWord w) (hne : ws ≠ []) (rest : List Char)
    (done : List (List Char)) :
    (spaced ws ++ ' ' :: rest).foldl step (.between, done) =
      rest.foldl step (.between, ws.reverse ++ done) := by
  induction ws generalizing done with
  | nil => exact absurd rfl hne
  | cons w ws ih =>
    obtain ⟨hw, hws⟩ := List.forall_mem_cons.mp h
    cases ws with
    | nil =>
      have hline : spaced [w] = w := List.append_nil w
      rw [hline]
      exact hw.foldl_step rest done
    | cons v ws =>
      rw [spaced_cons_cons, List.append_assoc, List.cons_append, hw.foldl_step,
        ih hws (List.cons_ne_nil v ws)]
      simp

/-- If a blank behind the line leaves no word open, then all words are complete with the line. -/
theorem words_of_foldl_blank {line : List Char}
    (h : (line ++ [' ']).foldl step (.between, []) = (.between, done)) :
    words line = .ok (done.reverse, none) := by
  have hsound : Sound (line.foldl step (.between, [])) :=
    sound_foldl line ⟨.between, fun w hw => absurd hw List.not_mem_nil⟩
  rw [List.foldl_append] at h
  unfold words
  generalize line.foldl step (.between, []) = state at h hsound
  obtain ⟨mode, complete⟩ := state
  obtain ⟨hmode, -⟩ := hsound
  cases hmode with
  | between =>
    obtain ⟨-, rfl⟩ := Prod.mk.inj h
    rfl
  | bare inside =>
    obtain ⟨-, rfl⟩ := Prod.mk.inj h
    rfl
  | @quoted quote seen visible first =>
    -- the blank does not close the word, since its quote is none
    have hne : ' ' ≠ quote := by
      rintro rfl
      contradiction
    simp [step, hne] at h
  | escaped visible first => cases (Prod.mk.inj h).1
  | comment => cases (Prod.mk.inj h).1

/-- The words of a line without a comment. -/
theorem words_spaced (h : ∀ w ∈ ws, IsWord w) (hne : ws ≠ []) :
    words (spaced ws) = .ok (ws, none) := by
  have hread := foldl_step_spaced h hne [] []
  rw [List.append_nil] at hread
  rw [words_of_foldl_blank hread, List.reverse_reverse]

/-- The words of a line with a comment. -/
theorem words_spaced_comment (h : ∀ w ∈ ws, IsWord w) (hne : ws ≠ []) (comment : List Char) :
    words (spaced ws ++ ' ' :: ' ' :: '#' :: comment) =
      .ok (ws, some (Text.trimChars comment)) := by
  have hread : (spaced ws ++ ' ' :: ' ' :: '#' :: comment).foldl step (.between, []) =
      (.comment comment.reverse, ws.reverse) := by
    rw [foldl_step_spaced h hne, List.append_nil]
    show comment.foldl step (.comment [], ws.reverse) = _
    rw [foldl_step_comment, List.append_nil]
  unfold words
  rw [hread]
  simp

/-- A line of words begins with the first word and ends with the last one. -/
theorem trimmed_spaced (hwords : ∀ w ∈ ws, IsWord w)
    (h : ∀ w ∈ ws, Text.Trimmed w) : Text.Trimmed (spaced ws) := by
  induction ws with
  | nil => exact Text.trimmed_of_forall fun c hc => absurd hc List.not_mem_nil
  | cons w ws ih =>
    obtain ⟨hw, hws⟩ := List.forall_mem_cons.mp hwords
    obtain ⟨htrim, htrims⟩ := List.forall_mem_cons.mp h
    cases ws with
    | nil =>
      have hline : spaced [w] = w := List.append_nil w
      rw [hline]
      exact htrim
    | cons v ws =>
      have hne : spaced (v :: ws) ≠ [] := by
        have hv := (hws v List.mem_cons_self).ne_nil
        simp [spaced, hv]
      rw [spaced_cons_cons, ← List.singleton_append]
      exact htrim.append (ih hws htrims) hw.ne_nil hne

end Words

end SymbolicVM.Listing

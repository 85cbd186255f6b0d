import SymbolicVM.Reference
import SymbolicVM.Proofs.Text.Split

/-!
# Reading references

Where a reference begins, the reader of its kind reads exactly the text of a reference made of
words (`Reference.Exact`). This rests on what follows a word in a reference being no word character,
so that a word is read up to its end and no further.

From this follows, for both kinds at once, that a reference which is found in a text stands there as
it is written, that no other one of its kind begins further left
(`Reference.Exact.search?_eq_some_iff`), and that none is missed
(`Reference.Exact.search?_eq_none_iff`). A reference made of words is read back from its text, and
no reference of the other kind is found there (`Reference.references_read_back`).
-/

namespace SymbolicVM

namespace Reference

/-! ### Words -/

/-- A text that can stand as a name, a label or an environment in a reference. -/
structure IsWord (s : String) : Prop where
  nonempty : s.toList ≠ []
  chars : ∀ c ∈ s.toList, Text.isWordChar c = true

variable {cs rest : List Char} {name label : String}

/-- What is read as a word is a word. -/
theorem word?_eq_some (h : word? cs = some (name, rest)) :
    IsWord name ∧ cs = name.toList ++ rest := by
  unfold word? at h
  dsimp only at h
  split_ifs at h with hempty
  obtain ⟨rfl, rfl⟩ := Prod.mk.inj (Option.some.inj h)
  refine ⟨⟨?_, fun c hc => ?_⟩, ?_⟩
  · simpa using hempty
  · rw [String.toList_ofList] at hc
    exact List.mem_takeWhile_imp hc
  · rw [String.toList_ofList, List.takeWhile_append_dropWhile]

/-- A word is read as far as word characters go. -/
theorem word?_append {c : Char} (hname : IsWord name) (hc : Text.isWordChar c = false) :
    word? (name.toList ++ c :: rest) = some (name, c :: rest) := by
  unfold word?
  rw [List.takeWhile_append_of_pos hname.chars, List.dropWhile_append_of_pos hname.chars,
    List.takeWhile_cons_of_neg (by simp [hc]), List.dropWhile_cons_of_neg (by simp [hc])]
  simp [hname.nonempty]

theorem isWordChar_at : Text.isWordChar '@' = false := by decide +kernel

theorem isWordChar_close : Text.isWordChar '>' = false := by decide +kernel

theorem isWordChar_hash : Text.isWordChar '#' = false := by decide +kernel

theorem isWordChar_open : Text.isWordChar '<' = false := by decide +kernel

/-! ### Names and labels -/

/-- What is read after a head are two words. -/
theorem nameAndLabel?_eq_some {head : String}
    (h : nameAndLabel? head cs = some (name, label, rest)) :
    IsWord name ∧ IsWord label ∧
      cs = head.toList ++ (name.toList ++ '@' :: (label.toList ++ rest)) := by
  obtain ⟨afterHead, hhead, h⟩ := Option.bind_eq_some_iff.mp h
  obtain ⟨⟨n, afterName⟩, hname, h⟩ := Option.bind_eq_some_iff.mp h
  obtain ⟨afterAt, hat, h⟩ := Option.bind_eq_some_iff.mp h
  obtain ⟨⟨l, afterLabel⟩, hlabel, h⟩ := Option.bind_eq_some_iff.mp h
  obtain ⟨rfl, rfl, rfl⟩ : n = name ∧ l = label ∧ afterLabel = rest := by simpa using h
  obtain ⟨hn, rfl⟩ := word?_eq_some hname
  obtain ⟨hl, rfl⟩ := word?_eq_some hlabel
  rw [Text.eq_append_of_dropHead? hat] at hhead
  exact ⟨hn, hl, Text.eq_append_of_dropHead? hhead⟩

theorem nameAndLabel?_append {head : String} {c : Char} (hname : IsWord name)
    (hlabel : IsWord label) (hc : Text.isWordChar c = false) :
    nameAndLabel? head (head.toList ++ (name.toList ++ '@' :: (label.toList ++ c :: rest))) =
      some (name, label, c :: rest) := by
  have hat := Text.dropHead?_append ['@'] (label.toList ++ c :: rest)
  rw [List.singleton_append] at hat
  simp only [nameAndLabel?, Option.bind_eq_bind, Option.bind_some, Text.dropHead?_append,
    word?_append hname isWordChar_at, hat, word?_append hlabel hc]
  rfl

/-! ### Searching -/

variable {α : Type} {readAt : List Char → Option α}

theorem search?_of_readAt {a : α} (h : readAt cs = some a) (hne : cs ≠ []) :
    search? readAt cs = some a := by
  obtain ⟨c, cs, rfl⟩ := List.exists_cons_of_ne_nil hne
  unfold search?
  rw [h]

theorem search?_cons_of_none {c : Char} (h : readAt (c :: cs) = none) :
    search? readAt (c :: cs) = search? readAt cs := by
  rw [search?, h]

/-- What is found is read somewhere in the text. -/
theorem exists_of_search? {a : α} (h : search? readAt cs = some a) :
    ∃ before after, cs = before ++ after ∧ readAt after = some a := by
  induction cs with
  | nil => contradiction
  | cons c cs ih =>
    unfold search? at h
    split at h
    · rename_i b hread
      exact ⟨[], c :: cs, rfl, Option.some.inj h ▸ hread⟩
    · obtain ⟨before, after, rfl, hread⟩ := ih h
      exact ⟨c :: before, after, rfl, hread⟩

/-- **A search finds what is read furthest to the left.** -/
theorem search?_eq_some_iff (hnil : readAt [] = none) {a : α} :
    search? readAt cs = some a ↔
      ∃ before after, cs = before ++ after ∧ readAt after = some a ∧
        ∀ earlier rest, cs = earlier ++ rest → earlier.length < before.length →
          readAt rest = none := by
  induction cs with
  | nil =>
    constructor
    · intro h
      cases h
    · rintro ⟨before, after, hcs, hread, -⟩
      rw [(List.append_eq_nil_iff.mp hcs.symm).2, hnil] at hread
      cases hread
  | cons c cs ih =>
    cases hread : readAt (c :: cs) with
    | some b =>
      have hsearch : search? readAt (c :: cs) = some b := search?_of_readAt hread (by simp)
      rw [hsearch]
      constructor
      · intro h
        exact ⟨[], c :: cs, rfl, hread.trans h, fun _ _ _ hlt => absurd hlt (Nat.not_lt_zero _)⟩
      · rintro ⟨before, after, hcs, hafter, hfirst⟩
        -- nothing is read before the position that is found, so it is the first one
        cases before with
        | nil =>
          rw [← hcs.trans (List.nil_append after)] at hafter
          exact hread.symm.trans hafter
        | cons d before =>
          have hnone := hfirst [] (c :: cs) rfl (Nat.zero_lt_succ _)
          rw [hread] at hnone
          cases hnone
    | none =>
      rw [search?_cons_of_none hread, ih]
      constructor
      · rintro ⟨before, after, rfl, hafter, hfirst⟩
        refine ⟨c :: before, after, rfl, hafter, fun earlier rest hcs hlt => ?_⟩
        cases earlier with
        | nil =>
          rw [List.nil_append] at hcs
          rw [← hcs]
          exact hread
        | cons d earlier =>
          exact hfirst earlier rest (List.cons.inj hcs).2 (Nat.lt_of_succ_lt_succ hlt)
      · rintro ⟨before, after, hcs, hafter, hfirst⟩
        cases before with
        | nil =>
          rw [← hcs.trans (List.nil_append after), hread] at hafter
          cases hafter
        | cons d before =>
          refine ⟨before, after, (List.cons.inj hcs).2, hafter, fun earlier rest hrest hlt => ?_⟩
          exact hfirst (c :: earlier) rest (congrArg (c :: ·) hrest) (Nat.succ_lt_succ hlt)

/-- What is read somewhere in a text does not escape a search. -/
theorem search?_append_ne_none {before after : List Char} {a : α} (h : readAt after = some a)
    (hne : after ≠ []) : search? readAt (before ++ after) ≠ none := by
  induction before with
  | nil =>
    rw [List.nil_append, search?_of_readAt h hne]
    exact Option.some_ne_none a
  | cons c before ih =>
    rw [List.cons_append]
    cases hread : readAt (c :: (before ++ after)) with
    | none => rwa [search?_cons_of_none hread]
    | some b =>
      rw [search?_of_readAt hread (List.cons_ne_nil _ _)]
      exact Option.some_ne_none b

/-- References begin with a bracket, so in a text with a single one, at its start, there is no
reference that does not begin there. -/
theorem search?_eq_none_of_open
    (hread : ∀ {cs a}, readAt cs = some a → ∃ rest, cs = '<' :: rest)
    (hstart : readAt ('<' :: cs) = none) (h : '<' ∉ cs) : search? readAt ('<' :: cs) = none := by
  rw [search?_cons_of_none hstart]
  cases hfound : search? readAt cs with
  | none => rfl
  | some a =>
    obtain ⟨before, after, rfl, hafter⟩ := exists_of_search? hfound
    obtain ⟨rest, rfl⟩ := hread hafter
    exact absurd (List.mem_append_right before List.mem_cons_self) h

theorem open_notMem_of_isWord {s : String} (h : IsWord s) : '<' ∉ s.toList := fun hmem =>
  Bool.noConfusion (isWordChar_open.symm.trans (h.chars _ hmem))

/-! ### Exact readers -/

/-- A reader reads the texts of well-formed references, whatever follows, and nothing else. -/
structure Exact (readAt : List Char → Option α) (WellFormed : α → Prop) (text : α → List Char) :
    Prop where
  nil : readAt [] = none
  reads : ∀ {a}, WellFormed a → ∀ rest, readAt (text a ++ rest) = some a
  written : ∀ {cs a}, readAt cs = some a → WellFormed a ∧ ∃ rest, cs = text a ++ rest

namespace Exact

variable {WellFormed : α → Prop} {text : α → List Char} {a : α}

theorem text_append_ne_nil (h : Exact readAt WellFormed text) (ha : WellFormed a)
    (rest : List Char) : text a ++ rest ≠ [] := by
  intro hnil
  have hread := h.reads ha rest
  rw [hnil, h.nil] at hread
  cases hread

/-- Nothing is read exactly where no reference begins. -/
theorem readAt_eq_none_iff (h : Exact readAt WellFormed text) :
    readAt rest = none ↔ ∀ b, WellFormed b → ¬ text b <+: rest := by
  constructor
  · rintro hread b hb ⟨after, rfl⟩
    rw [h.reads hb] at hread
    cases hread
  · intro hnot
    cases hread : readAt rest with
    | none => rfl
    | some b =>
      obtain ⟨hb, after, rfl⟩ := h.written hread
      exact absurd (List.prefix_append _ _) (hnot b hb)

/-- **The reference that is found in a text is the first one there.** -/
theorem search?_eq_some_iff (h : Exact readAt WellFormed text) :
    search? readAt cs = some a ↔
      WellFormed a ∧ ∃ before after, cs = before ++ (text a ++ after) ∧
        ∀ earlier rest, cs = earlier ++ rest → earlier.length < before.length →
          ∀ b, WellFormed b → ¬ text b <+: rest := by
  rw [Reference.search?_eq_some_iff h.nil]
  simp only [h.readAt_eq_none_iff]
  constructor
  · rintro ⟨before, after, hcs, hread, hfirst⟩
    obtain ⟨ha, rest, rfl⟩ := h.written hread
    exact ⟨ha, before, rest, hcs, hfirst⟩
  · rintro ⟨ha, before, after, hcs, hfirst⟩
    exact ⟨before, _, hcs, h.reads ha after, hfirst⟩

/-- **None is missed**: nothing is found only in a text in which no reference occurs. -/
theorem search?_eq_none_iff (h : Exact readAt WellFormed text) :
    search? readAt cs = none ↔ ∀ b, WellFormed b → ¬ text b <:+: cs := by
  constructor
  · rintro hnone b hb ⟨before, after, rfl⟩
    rw [List.append_assoc] at hnone
    exact search?_append_ne_none (h.reads hb after) (h.text_append_ne_nil hb after) hnone
  · intro hnot
    cases hfound : search? readAt cs with
    | none => rfl
    | some b =>
      obtain ⟨hb, before, after, hcs, -⟩ := h.search?_eq_some_iff.mp hfound
      exact absurd ⟨before, after, by rw [hcs, List.append_assoc]⟩ (hnot b hb)

/-- A reference is found in its own text. -/
theorem search?_text (h : Exact readAt WellFormed text) (ha : WellFormed a) :
    search? readAt (text a) = some a := by
  have hread := h.reads ha []
  have hne := h.text_append_ne_nil ha []
  rw [List.append_nil] at hread hne
  exact search?_of_readAt hread hne

end Exact

end Reference

/-! ### Class references -/

namespace ClassRef

/-- The parts of a reference are words. -/
structure IsWords (c : ClassRef) : Prop where
  name : Reference.IsWord c.name
  label : Reference.IsWord c.label

theorem toList_render (c : ClassRef) :
    c.render.toList =
      "<class:".toList ++ (c.name.toList ++ '@' :: (c.label.toList ++ ['>'])) := by
  simp [render]

/-- A reference made of words is read where its text stands. -/
theorem readAt_render_append {c : ClassRef} (h : c.IsWords) (rest : List Char) :
    readAt (c.render.toList ++ rest) = some c := by
  have hnames : Reference.nameAndLabel? "<class:"
      ("<class:".toList ++ (c.name.toList ++ '@' :: (c.label.toList ++ '>' :: rest))) =
        some (c.name, c.label, '>' :: rest) :=
    Reference.nameAndLabel?_append h.name h.label Reference.isWordChar_close
  rw [toList_render]
  simp only [List.append_assoc, List.cons_append, List.nil_append]
  unfold readAt
  rw [hnames]
  rfl

/-- What is read is the text of a reference made of words. -/
theorem eq_render_append_of_readAt {cs : List Char} {c : ClassRef} (h : readAt cs = some c) :
    c.IsWords ∧ ∃ rest, cs = c.render.toList ++ rest := by
  obtain ⟨⟨name, label, rest⟩, hnames, hread⟩ := Option.bind_eq_some_iff.mp h
  obtain ⟨hname, hlabel, rfl⟩ := Reference.nameAndLabel?_eq_some hnames
  dsimp only at hread
  split at hread
  · rename_i rest'
    obtain rfl := Option.some.inj hread
    exact ⟨⟨hname, hlabel⟩, rest', by simp [toList_render]⟩
  · cases hread

theorem exact_readAt : Reference.Exact readAt IsWords fun c => c.render.toList where
  nil := rfl
  reads := readAt_render_append
  written := eq_render_append_of_readAt

/-- The first class reference in a text: it stands there, and no other one begins further left. -/
structure FirstIn (c : ClassRef) (text : String) : Prop where
  words : c.IsWords
  leftmost : ∃ before after, text.toList = before ++ (c.render.toList ++ after) ∧
    ∀ earlier rest, text.toList = earlier ++ rest → earlier.length < before.length →
      ∀ d : ClassRef, d.IsWords → ¬ d.render.toList <+: rest

/-- **The class reference that is found in a text is the first one there.** -/
theorem parse?_eq_some_iff {text : String} {c : ClassRef} :
    parse? text = some c ↔ c.FirstIn text :=
  exact_readAt.search?_eq_some_iff.trans
    ⟨fun h => ⟨h.1, h.2⟩, fun h => ⟨h.words, h.leftmost⟩⟩

/-- A class reference made of words is read back from its text. -/
theorem parse?_render {c : ClassRef} (h : c.IsWords) : parse? c.render = some c :=
  exact_readAt.search?_text h

theorem eq_append_of_readAt {cs : List Char} {c : ClassRef} (h : readAt cs = some c) :
    ∃ rest, cs = '<' :: 'c' :: rest := by
  obtain ⟨-, rest, rfl⟩ := eq_render_append_of_readAt h
  exact ⟨_, congrArg (· ++ rest) c.toList_render⟩

end ClassRef

/-! ### Function references -/

namespace FunctionRef

/-- The parts of a reference are words. -/
structure IsWords (f : FunctionRef) : Prop where
  name : Reference.IsWord f.name
  label : Reference.IsWord f.label
  env : ∀ e, f.env = some e → Reference.IsWord e

/-- What stands behind the label of a reference. -/
def ending (f : FunctionRef) : List Char :=
  f.env.elim ['>'] fun e => '#' :: (e.toList ++ ['>'])

theorem toList_render (f : FunctionRef) :
    f.render.toList =
      "<function:".toList ++ (f.name.toList ++ '@' :: (f.label.toList ++ f.ending)) := by
  unfold render ending
  cases f.env with
  | none => simp
  | some e => simp

/-- A reference made of words is read where its text stands. -/
theorem readAt_render_append {f : FunctionRef} (h : f.IsWords) (rest : List Char) :
    readAt (f.render.toList ++ rest) = some f := by
  obtain ⟨name, label, env⟩ := f
  rw [toList_render]
  simp only [List.append_assoc, List.cons_append]
  unfold readAt
  cases env with
  | none =>
    have hnames : Reference.nameAndLabel? "<function:"
        ("<function:".toList ++ (name.toList ++ '@' :: (label.toList ++ '>' :: rest))) =
          some (name, label, '>' :: rest) :=
      Reference.nameAndLabel?_append h.name h.label Reference.isWordChar_close
    simp only [ending, Option.elim_none, List.singleton_append]
    rw [hnames]
    rfl
  | some e =>
    have hnames : Reference.nameAndLabel? "<function:"
        ("<function:".toList ++
          (name.toList ++ '@' :: (label.toList ++ '#' :: (e.toList ++ '>' :: rest)))) =
          some (name, label, '#' :: (e.toList ++ '>' :: rest)) :=
      Reference.nameAndLabel?_append h.name h.label Reference.isWordChar_hash
    have henv : Reference.word? (e.toList ++ '>' :: rest) = some (e, '>' :: rest) :=
      Reference.word?_append (h.env e rfl) Reference.isWordChar_close
    simp only [ending, Option.elim_some, List.cons_append, List.append_assoc, List.nil_append]
    simp only [hnames, henv, Option.bind_eq_bind, Option.bind_some]

/-- What is read is the text of a reference made of words. -/
theorem eq_render_append_of_readAt {cs : List Char} {f : FunctionRef} (h : readAt cs = some f) :
    f.IsWords ∧ ∃ rest, cs = f.render.toList ++ rest := by
  obtain ⟨⟨name, label, rest⟩, hnames, hread⟩ := Option.bind_eq_some_iff.mp h
  obtain ⟨hname, hlabel, rfl⟩ := Reference.nameAndLabel?_eq_some hnames
  dsimp only at hread
  split at hread
  · rename_i rest'
    obtain rfl := Option.some.inj hread
    exact ⟨⟨hname, hlabel, fun e he => by cases he⟩, rest', by simp [toList_render, ending]⟩
  · rename_i afterHash
    obtain ⟨⟨e, afterEnv⟩, henv, hend⟩ := Option.bind_eq_some_iff.mp hread
    obtain ⟨hword, rfl⟩ := Reference.word?_eq_some henv
    dsimp only at hend
    split at hend
    · rename_i rest'
      obtain rfl := Option.some.inj hend
      refine ⟨⟨hname, hlabel, fun e' he' => ?_⟩, rest', by simp [toList_render, ending]⟩
      obtain rfl := Option.some.inj he'
      exact hword
    · cases hend
  · cases hread

/-- The first reference in a text: it stands there, and no other one begins further left. -/
structure FirstIn (f : FunctionRef) (text : String) : Prop where
  words : f.IsWords
  leftmost : ∃ before after, text.toList = before ++ (f.render.toList ++ after) ∧
    ∀ earlier rest, text.toList = earlier ++ rest → earlier.length < before.length →
      ∀ g : FunctionRef, g.IsWords → ¬ g.render.toList <+: rest

theorem exact_readAt : Reference.Exact readAt IsWords fun f => f.render.toList where
  nil := rfl
  reads := readAt_render_append
  written := eq_render_append_of_readAt

/-- **The reference that is found in a text is the first one there.** -/
theorem parse?_eq_some_iff {text : String} {f : FunctionRef} :
    parse? text = some f ↔ f.FirstIn text :=
  exact_readAt.search?_eq_some_iff.trans
    ⟨fun h => ⟨h.1, h.2⟩, fun h => ⟨h.words, h.leftmost⟩⟩

/-- A function reference made of words is read back from its text. -/
theorem parse?_render {f : FunctionRef} (h : f.IsWords) : parse? f.render = some f :=
  exact_readAt.search?_text h

theorem IsWords.withEnv {f : FunctionRef} (h : f.IsWords) {env : String}
    (henv : Reference.IsWord env) : (f.withEnv env).IsWords where
  name := h.name
  label := h.label
  env e he := by
    obtain rfl := Option.some.inj he
    exact henv

theorem eq_append_of_readAt {cs : List Char} {f : FunctionRef} (h : readAt cs = some f) :
    ∃ rest, cs = '<' :: 'f' :: rest := by
  obtain ⟨-, rest, rfl⟩ := eq_render_append_of_readAt h
  exact ⟨_, congrArg (· ++ rest) f.toList_render⟩

end FunctionRef

/-! ### The other kind -/

/-- No function reference is found in the text of a class reference. -/
theorem FunctionRef.parse?_render_class {c : ClassRef} (h : c.IsWords) :
    FunctionRef.parse? c.render = none := by
  have hclass : c.render.toList =
      '<' :: ("class:".toList ++ (c.name.toList ++ '@' :: (c.label.toList ++ ['>']))) :=
    c.toList_render
  unfold parse?
  rw [hclass]
  refine Reference.search?_eq_none_of_open (fun hread => ?_) ?_ ?_
  · obtain ⟨rest, rfl⟩ := FunctionRef.eq_append_of_readAt hread
    exact ⟨_, rfl⟩
  · -- the bracket at the start opens a class reference
    refine Option.eq_none_iff_forall_ne_some.mpr fun f hread => ?_
    obtain ⟨rest, heq⟩ := FunctionRef.eq_append_of_readAt hread
    simp at heq
  · simp [Reference.open_notMem_of_isWord h.name, Reference.open_notMem_of_isWord h.label]

/-- No class reference is found in the text of a function reference. -/
theorem ClassRef.parse?_render_function {f : FunctionRef} (h : f.IsWords) :
    ClassRef.parse? f.render = none := by
  have hfunction : f.render.toList =
      '<' :: ("function:".toList ++ (f.name.toList ++ '@' :: (f.label.toList ++ f.ending))) :=
    f.toList_render
  have hending : '<' ∉ f.ending := by
    unfold FunctionRef.ending
    cases henv : f.env with
    | none => simp
    | some e => simp [Reference.open_notMem_of_isWord (h.env e henv)]
  unfold parse?
  rw [hfunction]
  refine Reference.search?_eq_none_of_open (fun hread => ?_) ?_ ?_
  · obtain ⟨rest, rfl⟩ := ClassRef.eq_append_of_readAt hread
    exact ⟨_, rfl⟩
  · refine Option.eq_none_iff_forall_ne_some.mpr fun c hread => ?_
    obtain ⟨rest, heq⟩ := ClassRef.eq_append_of_readAt hread
    simp at heq
  · simp [Reference.open_notMem_of_isWord h.name, Reference.open_notMem_of_isWord h.label, hending]

/-! ### Both kinds -/

namespace Reference

/-- **References are read back.** A function reference made of words is read back from its text, and
so it is with another environment, which is all that changes; no class reference is found there. The
same holds of class references. In any text, the reference that is found stands there, no other one
of its kind begins further left, and none is found only if none occurs. -/
theorem references_read_back :
    (∀ f : FunctionRef, f.IsWords →
      FunctionRef.parse? f.render = some f ∧
        (∀ env, IsWord env →
          FunctionRef.parse? (f.withEnv env).render = some { f with env := some env }) ∧
        ClassRef.parse? f.render = none) ∧
    (∀ c : ClassRef, c.IsWords →
      ClassRef.parse? c.render = some c ∧ FunctionRef.parse? c.render = none) ∧
    (∀ text f, FunctionRef.parse? text = some f ↔ f.FirstIn text) ∧
    (∀ text c, ClassRef.parse? text = some c ↔ c.FirstIn text) ∧
    (∀ text, FunctionRef.parse? text = none ↔
      ∀ f : FunctionRef, f.IsWords → ¬ f.render.toList <:+: text.toList) ∧
    ∀ text, ClassRef.parse? text = none ↔
      ∀ c : ClassRef, c.IsWords → ¬ c.render.toList <:+: text.toList := by
  refine ⟨fun f hf => ⟨FunctionRef.parse?_render hf, fun env henv => ?_,
      ClassRef.parse?_render_function hf⟩,
    fun c hc => ⟨ClassRef.parse?_render hc, FunctionRef.parse?_render_class hc⟩,
    fun _ _ => FunctionRef.parse?_eq_some_iff, fun _ _ => ClassRef.parse?_eq_some_iff,
    fun _ => FunctionRef.exact_readAt.search?_eq_none_iff,
    fun _ => ClassRef.exact_readAt.search?_eq_none_iff⟩
  exact FunctionRef.parse?_render (hf.withEnv henv)

/-- A reference with letters beyond ASCII, closed over an environment. -/
def taggedReference : FunctionRef :=
  { name := "größe", label := "func_größe_0", env := some "env_3" }

/-- A reference that is broken off by another one, with a class reference behind. -/
def brokenOff : String :=
  "<function:a@b#<function:größe@func_größe_0#env_3><class:A@class_A_1>"

theorem isWord_of_all {s : String}
    (h : (!s.toList.isEmpty && s.toList.all Text.isWordChar) = true) :
    IsWord s := by
  obtain ⟨hne, hall⟩ := (Bool.and_eq_true _ _).mp h
  exact ⟨by simpa using hne, List.all_eq_true.mp hall⟩

/-- It is read back, also with another environment, and it is the first one where a reference begins
before it that does not end. -/
theorem taggedReference_read_back :
    FunctionRef.parse? "<function:größe@func_größe_0#env_3>" = some taggedReference ∧
      FunctionRef.parse? "<function:größe@func_größe_0#env_9>" =
        some { taggedReference with env := some "env_9" } ∧
      ClassRef.parse? "<function:größe@func_größe_0#env_3>" = none ∧
      FunctionRef.parse? "<class:A@class_A_1>" = none ∧
      taggedReference.FirstIn brokenOff := by
  obtain ⟨hfunctions, hclasses, hfirst, -⟩ := references_read_back
  have hwords : taggedReference.IsWords :=
    { name := isWord_of_all (by decide +kernel)
      label := isWord_of_all (by decide +kernel)
      env := fun e he => by
        obtain rfl := Option.some.inj he
        exact isWord_of_all (by decide +kernel) }
  have hclass : ClassRef.IsWords ⟨"A", "class_A_1"⟩ :=
    ⟨isWord_of_all (by decide +kernel), isWord_of_all (by decide +kernel)⟩
  obtain ⟨hself, hother, hnone⟩ := hfunctions taggedReference hwords
  refine ⟨hself, hother "env_9" (isWord_of_all (by decide +kernel)), hnone,
    (hclasses ⟨"A", "class_A_1"⟩ hclass).2, (hfirst brokenOff taggedReference).mp ?_⟩
  decide +kernel

end Reference

end SymbolicVM

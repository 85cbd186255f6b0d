import SymbolicVM.Text.Split
import Mathlib.Data.List.TakeWhile
import Mathlib.Tactic.SplitIfs

/-!
# Trimming and cutting texts

A text is not trimmed if neither end is blank (`Text.trimChars_eq_self`), blanks around it are
dropped (`Text.trimChars_of_blank`), and trimming drops nothing but blanks (`Text.mem_trimChars`).
Cutting a text at its first separator and cutting it at every separator agree on the first piece
(`Text.splitWhere_append_cons`). Lines that are written one after another, each closed by a line
feed, are read back (`Text.lines_flatMap`). A text occurs in another exactly if it is an infix of it
(`Text.occursIn_iff`).
-/

namespace SymbolicVM.Text

variable {cs before after : List Char} {c : Char} {p : Char → Bool}

/-! ### Trimming -/

/-- Neither the first nor the last character is blank. -/
structure Trimmed (cs : List Char) : Prop where
  first : ∀ c, cs.head? = some c → isBlank c = false
  last : ∀ c, cs.getLast? = some c → isBlank c = false

theorem dropWhile_isBlank_of_head? (h : ∀ c, cs.head? = some c → isBlank c = false) :
    cs.dropWhile isBlank = cs := by
  cases cs with
  | nil => rfl
  | cons c cs => rw [List.dropWhile_cons_of_neg (by simp [h c rfl])]

/-- A text that neither begins nor ends in a blank is not trimmed. -/
theorem trimChars_eq_self (h : Trimmed cs) : trimChars cs = cs := by
  have hlast : ∀ c, cs.reverse.head? = some c → isBlank c = false := by
    intro c hc
    exact h.last c (by rwa [List.head?_reverse] at hc)
  unfold trimChars trimStart trimEnd
  rw [dropWhile_isBlank_of_head? h.first, dropWhile_isBlank_of_head? hlast, List.reverse_reverse]

theorem trimmed_of_forall (h : ∀ c ∈ cs, isBlank c = false) : Trimmed cs where
  first c hc := h c (List.mem_of_mem_head? hc)
  last c hc := h c (List.mem_of_getLast? hc)

/-- Only the ends of a text matter. -/
theorem Trimmed.append {mid : List Char} (hbefore : Trimmed before) (hafter : Trimmed after)
    (hne : before ≠ []) (hne' : after ≠ []) : Trimmed (before ++ (mid ++ after)) where
  first c hc := by
    obtain ⟨b, before, rfl⟩ := List.exists_cons_of_ne_nil hne
    exact hbefore.first c hc
  last c hc := by
    have hlast := List.getLast?_eq_some_getLast hne'
    rw [← List.append_assoc, List.getLast?_append, hlast, Option.some_or] at hc
    exact hafter.last c (hlast.trans hc)

/-- All characters are blank. -/
def Blank (cs : List Char) : Prop :=
  ∀ c ∈ cs, isBlank c = true

instance (cs : List Char) : Decidable (Blank cs) :=
  decidable_of_iff (cs.all isBlank = true) List.all_eq_true

/-- Blanks around a text are dropped. -/
theorem trimChars_of_blank (hbefore : Blank before) (hafter : Blank after) (h : Trimmed cs)
    (hne : cs ≠ []) : trimChars (before ++ (cs ++ after)) = cs := by
  obtain ⟨c, rest, rfl⟩ := List.exists_cons_of_ne_nil hne
  have hstart : trimStart (before ++ (c :: rest ++ after)) = c :: rest ++ after := by
    unfold trimStart
    rw [List.dropWhile_append_of_pos hbefore]
    exact dropWhile_isBlank_of_head? h.first
  have hend : trimEnd (c :: rest ++ after) = trimEnd (c :: rest) := by
    unfold trimEnd
    rw [List.reverse_append,
      List.dropWhile_append_of_pos fun d hd => hafter d (List.mem_reverse.mp hd)]
  have hself : trimChars (c :: rest) = c :: rest := trimChars_eq_self h
  unfold trimChars at hself ⊢
  rw [hstart, hend]
  unfold trimStart at hself
  rwa [dropWhile_isBlank_of_head? h.first] at hself

theorem mem_dropWhile_of_not (hc : c ∈ cs) (hp : p c = false) : c ∈ cs.dropWhile p := by
  rw [← List.takeWhile_append_dropWhile (p := p) (l := cs), List.mem_append] at hc
  rcases hc with hc | hc
  · rw [List.mem_takeWhile_imp hc] at hp
    contradiction
  · exact hc

/-- Trimming drops only blanks. -/
theorem mem_trimChars (hc : c ∈ cs) (hblank : isBlank c = false) : c ∈ trimChars cs := by
  unfold trimChars trimStart trimEnd
  rw [List.mem_reverse]
  refine mem_dropWhile_of_not (List.mem_reverse.mpr ?_) hblank
  exact mem_dropWhile_of_not hc hblank

/-- Trimming adds nothing. -/
theorem mem_of_mem_trimChars (hc : c ∈ trimChars cs) : c ∈ cs := by
  unfold trimChars trimStart trimEnd at hc
  have hmem := (List.dropWhile_sublist isBlank).subset (List.mem_reverse.mp hc)
  exact (List.dropWhile_sublist isBlank).subset (List.mem_reverse.mp hmem)

theorem trimChars_cons_of_blank (hc : isBlank c = true) : trimChars (c :: cs) = trimChars cs := by
  unfold trimChars trimStart
  rw [List.dropWhile_cons_of_pos hc]

/-! ### Pieces -/

theorem splitWhere_cons_of_pos (h : p c = true) :
    splitWhere p (c :: cs) = [] :: splitWhere p cs := by
  unfold splitWhere
  rw [List.foldr_cons, if_pos h]

theorem splitWhere_cons_of_neg {piece : List Char} {rest : List (List Char)} (h : p c = false)
    (hrest : splitWhere p cs = piece :: rest) :
    splitWhere p (c :: cs) = (c :: piece) :: rest := by
  unfold splitWhere at hrest ⊢
  rw [List.foldr_cons, if_neg (by simp [h]), hrest]

/-- A text without separators is one piece. -/
theorem splitWhere_of_forall (h : ∀ c ∈ cs, p c = false) : splitWhere p cs = [cs] := by
  induction cs with
  | nil => rfl
  | cons c cs ih =>
    have hrest := ih fun d hd => h d (List.mem_cons_of_mem _ hd)
    exact splitWhere_cons_of_neg (h c List.mem_cons_self) hrest

/-- The first piece is what stands before the first separator. -/
theorem splitWhere_append_cons (h : ∀ d ∈ before, p d = false) (hc : p c = true) :
    splitWhere p (before ++ c :: after) = before :: splitWhere p after := by
  induction before with
  | nil => exact splitWhere_cons_of_pos hc
  | cons d before ih =>
    have hrest := ih fun e he => h e (List.mem_cons_of_mem _ he)
    exact splitWhere_cons_of_neg (h d List.mem_cons_self) hrest

/-- No piece has a separator. -/
theorem not_of_mem_splitWhere {piece : List Char} (h : piece ∈ splitWhere p cs) :
    ∀ c ∈ piece, p c = false := by
  induction cs generalizing piece with
  | nil =>
    obtain rfl := List.mem_singleton.mp h
    exact fun c hc => absurd hc List.not_mem_nil
  | cons c cs ih =>
    cases hc : p c with
    | true =>
      rw [splitWhere_cons_of_pos hc] at h
      rcases List.mem_cons.mp h with rfl | h
      · exact fun d hd => absurd hd List.not_mem_nil
      · exact ih h
    | false =>
      cases hpieces : splitWhere p cs with
      | nil =>
        unfold splitWhere at h hpieces
        rw [List.foldr_cons, if_neg (by simp [hc]), hpieces] at h
        obtain rfl := List.mem_singleton.mp h
        simpa using hc
      | cons first rest =>
        rw [splitWhere_cons_of_neg hc hpieces] at h
        rcases List.mem_cons.mp h with rfl | h
        · exact List.forall_mem_cons.mpr ⟨hc, ih (hpieces ▸ List.mem_cons_self)⟩
        · exact ih (hpieces ▸ List.mem_cons_of_mem _ h)

/-- A text without blanks is one word. -/
theorem words_of_forall (h : ∀ c ∈ cs, isBlank c = false) (hne : cs ≠ []) : words cs = [cs] := by
  unfold words
  rw [splitWhere_of_forall h]
  simp [hne]

theorem mem_splitWhere_of_mem_lines {line : List Char} (h : line ∈ lines cs) :
    line ∈ splitWhere (fun c => c == '\n') cs := by
  unfold lines at h
  dsimp only at h
  split_ifs at h
  · exact List.dropLast_subset _ h
  · exact h

/-- A line has no line feed. -/
theorem newline_notMem_of_mem_lines {line : List Char} (h : line ∈ lines cs) : '\n' ∉ line := by
  intro hmem
  have hfalse := not_of_mem_splitWhere (mem_splitWhere_of_mem_lines h) '\n' hmem
  contradiction

theorem splitWhere_flatMap {ls : List (List Char)} (h : ∀ line ∈ ls, '\n' ∉ line) :
    splitWhere (fun c => c == '\n') (ls.flatMap (· ++ ['\n'])) = ls ++ [[]] := by
  induction ls with
  | nil => rfl
  | cons line ls ih =>
    obtain ⟨hline, hrest⟩ := List.forall_mem_cons.mp h
    have hne : ∀ d ∈ line, (d == '\n') = false := by
      intro d hd
      simp only [beq_eq_false_iff_ne]
      exact fun heq => hline (heq ▸ hd)
    rw [List.flatMap_cons, List.append_assoc, List.singleton_append,
      splitWhere_append_cons hne (by decide), ih hrest, List.cons_append]

/-- Lines that are closed by line feeds are read back. -/
theorem lines_flatMap {ls : List (List Char)} (h : ∀ line ∈ ls, '\n' ∉ line) :
    lines (ls.flatMap (· ++ ['\n'])) = ls := by
  unfold lines
  rw [splitWhere_flatMap h]
  simp

/-- There is no separator before the first one. -/
theorem ne_of_mem_splitOnce (h : splitOnce c cs = some (before, after)) :
    ∀ d ∈ before, d ≠ c := by
  unfold splitOnce at h
  split at h
  · contradiction
  · obtain ⟨rfl, -⟩ := Prod.mk.inj (Option.some.inj h)
    intro d hd
    simpa using List.mem_takeWhile_imp hd

theorem splitOnce_append_cons (h : ∀ d ∈ before, d ≠ c) :
    splitOnce c (before ++ c :: after) = some (before, after) := by
  have hbefore : ∀ d ∈ before, (d != c) = true := by
    intro d hd
    simpa using h d hd
  have hdrop : (before ++ c :: after).dropWhile (fun d => d != c) = c :: after := by
    rw [List.dropWhile_append_of_pos hbefore]
    simp
  have htake : (before ++ c :: after).takeWhile (fun d => d != c) = before := by
    rw [List.takeWhile_append_of_pos hbefore]
    simp
  unfold splitOnce
  rw [hdrop, htake]

theorem splitLast_append_cons (h : ∀ d ∈ after, d ≠ c) :
    splitLast c (before ++ c :: after) = some (before, after) := by
  have hreverse : (before ++ c :: after).reverse = after.reverse ++ c :: before.reverse := by
    simp
  unfold splitLast
  rw [hreverse, splitOnce_append_cons fun d hd => h d (List.mem_reverse.mp hd), Option.map_some]
  simp

/-! ### Heads -/

theorem dropHead?_append (head rest : List Char) : dropHead? head (head ++ rest) = some rest := by
  unfold dropHead?
  simp

theorem eq_append_of_dropHead? {head cs rest : List Char} (h : dropHead? head cs = some rest) :
    cs = head ++ rest := by
  unfold dropHead? at h
  split_ifs at h with hpre
  obtain ⟨tail, rfl⟩ := List.isPrefixOf_iff_prefix.mp hpre
  simpa using h

/-! ### Parts -/

/-- One text occurs in another if it is an infix of it. -/
theorem occursIn_iff {needle : List Char} : occursIn needle cs = true ↔ needle <:+: cs := by
  induction cs with
  | nil => rw [occursIn, List.isEmpty_iff, List.infix_nil]
  | cons c cs ih =>
    rw [occursIn, Bool.or_eq_true, List.isPrefixOf_iff_prefix, ih, List.infix_cons_iff]

end SymbolicVM.Text

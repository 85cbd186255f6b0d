import SymbolicVM.Text.CharClass

/-!
# Cutting texts

Trimming, words, lines, and cutting at a separator. All functions work on lists of characters, whose
lemmas are at hand in proofs; a few have a form on `String` for callers that hold one.
-/

namespace SymbolicVM.Text

/-! ### Trimming -/

/-- Drops the blank characters at the start. -/
def trimStart (cs : List Char) : List Char :=
  cs.dropWhile isBlank

/-- Drops the blank characters at the end. -/
def trimEnd (cs : List Char) : List Char :=
  (cs.reverse.dropWhile isBlank).reverse

/-- Drops the blank characters at both ends. -/
def trimChars (cs : List Char) : List Char :=
  trimEnd (trimStart cs)

/-- Drops the blank characters at both ends of a string. -/
def trim (s : String) : String :=
  String.ofList (trimChars s.toList)

/-! ### Pieces -/

/-- The pieces between the characters that satisfy `p`, in order. There is one piece more than there
are such characters, so the empty text has one empty piece. -/
def splitWhere (p : Char → Bool) (cs : List Char) : List (List Char) :=
  cs.foldr
    (fun c pieces =>
      if p c then [] :: pieces
      else match pieces with
        | [] => [[c]]
        | piece :: rest => (c :: piece) :: rest)
    [[]]

/-- The maximal runs of characters that are not blank. -/
def words (cs : List Char) : List (List Char) :=
  (splitWhere isBlank cs).filter (fun w => !w.isEmpty)

/-- The lines of a text: the pieces between line feeds, where a line feed at the very end closes the
last line instead of opening an empty one. -/
def lines (cs : List Char) : List (List Char) :=
  let pieces := splitWhere (fun c => c == '\n') cs
  if pieces.getLast? = some [] then pieces.dropLast else pieces

/-- The parts before and after the first occurrence of a character. -/
def splitOnce (c : Char) (cs : List Char) : Option (List Char × List Char) :=
  match cs.dropWhile (fun d => d != c) with
  | [] => none
  | _ :: rest => some (cs.takeWhile (fun d => d != c), rest)

/-- The parts before and after the last occurrence of a character. -/
def splitLast (c : Char) (cs : List Char) : Option (List Char × List Char) :=
  (splitOnce c cs.reverse).map fun (after, before) => (before.reverse, after.reverse)

/-- What follows `head` in a text that begins with it. -/
def dropHead? (head cs : List Char) : Option (List Char) :=
  if head.isPrefixOf cs then some (cs.drop head.length) else none

/-- What follows `head` in a string that begins with it. -/
def stripHead? (head s : String) : Option String :=
  (dropHead? head.toList s.toList).map String.ofList

/-- Whether one text begins with another. -/
def startsWith (head s : String) : Bool :=
  head.toList.isPrefixOf s.toList

/-- Whether one list of characters ends in another. -/
def endsWith (tail cs : List Char) : Bool :=
  tail.reverse.isPrefixOf cs.reverse

/-- Whether a text occurs in another, the empty text in every one. -/
def occursIn (needle : List Char) : List Char → Bool
  | [] => needle.isEmpty
  | c :: cs => needle.isPrefixOf (c :: cs) || occursIn needle cs

/-! ### ASCII case -/

/-- Turns ASCII letters into upper case and keeps every other character. -/
def upper (s : String) : String :=
  String.ofList (s.toList.map Char.toUpper)

/-- Turns ASCII letters into lower case and keeps every other character. -/
def lower (s : String) : String :=
  String.ofList (s.toList.map Char.toLower)

/-- Whether two texts agree up to the case of ASCII letters. -/
def sameIgnoringCase (s t : String) : Bool :=
  lower s == lower t

/-! ### Columns -/

/-- A text padded with blanks to a width. -/
def padRight (width : Nat) (s : String) : String :=
  s ++ String.ofList (List.replicate (width - s.length) ' ')

/-! ### Nothing is lost -/

@[simp] theorem splitWhere_nil (p : Char → Bool) : splitWhere p [] = [[]] := rfl

theorem splitOnce_eq_some {c : Char} {cs before after : List Char}
    (h : splitOnce c cs = some (before, after)) : cs = before ++ c :: after := by
  unfold splitOnce at h
  split at h
  · contradiction
  next d rest hd =>
    simp only [Option.some.injEq, Prod.mk.injEq] at h
    obtain ⟨rfl, rfl⟩ := h
    have hc : d = c := by
      have := List.head?_dropWhile_not (fun d => d != c) cs
      rw [hd] at this
      simpa using this
    have := List.takeWhile_append_dropWhile (p := fun d => d != c) (l := cs)
    rw [hd, hc] at this
    exact this.symm

end SymbolicVM.Text

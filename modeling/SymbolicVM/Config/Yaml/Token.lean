import SymbolicVM.Text.Split

/-!
# Tokens of YAML

The state of a scanner over an indented text. Whether a scalar is a key shows only at the colon
after it, so the scanner leaves a slot in front of everything that may be a key, and its output only
grows; a slot is filled when the colon comes, and the slots that stay empty are dropped at the end.
-/

namespace SymbolicVM.Config.Yaml

/-- How a scalar is written. -/
inductive Style where
  | plain
  | quoted
  | block
deriving DecidableEq

/-- A token. -/
inductive Token where
  | directive
  | documentStart
  | documentEnd
  | blockSequenceStart
  | blockMappingStart
  | blockEnd
  | flowSequenceStart
  | flowSequenceEnd
  | flowMappingStart
  | flowMappingEnd
  | blockEntry
  | flowEntry
  | key
  | value
  | alias (name : String)
  | anchor (name : String)
  | tag (name : String)
  | scalar (text : String) (style : Style)
deriving DecidableEq

/-- What the scanner has put out: a token, or a slot for a key. -/
inductive Output where
  | token (t : Token)
  | slot (number : Nat)

/-- A place where a key may have begun. -/
structure Candidate where
  slot : Nat
  /-- Nothing but a key may stand here. -/
  isRequired : Bool
  index : Nat
  line : Nat
  column : Nat

/-- The state of the scanner. -/
structure Scanner where
  rest : List Char
  index : Nat := 0
  line : Nat := 0
  column : Nat := 0
  /-- The column of the innermost block collection, and of those around it. -/
  indents : List Nat := []
  /-- Whether a key may begin here. -/
  keyAllowed : Bool := true
  /-- The candidate for a key at the level of each open bracket, the innermost first. -/
  candidate : Option Candidate := none
  outerCandidates : List (Option Candidate) := []
  /-- The output, the last item first. -/
  output : List Output := []
  slots : Nat := 0
  /-- The slots with a key, and whether a mapping starts there. -/
  filled : List (Nat × Bool) := []

/-! ### Characters -/

/-- The blanks inside a line. -/
def isBlank (c : Char) : Bool :=
  c == ' ' || c == '\t'

/-- Whether there is a blank, a line feed, or nothing. -/
def isBoundary : Option Char → Bool
  | none => true
  | some c => isBlank c || c == '\n'

/-- The characters that brackets and commas of flow collections consist of. -/
def isFlowMark (c : Char) : Bool :=
  c == ',' || c == '[' || c == ']' || c == '{' || c == '}'

/-- The characters that may stand in names of anchors. -/
def isNameChar (c : Char) : Bool :=
  c.isAlphanum || c == '_' || c == '-'

/-- Whether a character may stand in a text at all. -/
def isAllowed (c : Char) : Bool :=
  c == '\t' || c == '\n' || c == '\r' || (' ' ≤ c && c ≤ '~') || c.toNat == 0x85 ||
    (0xA0 ≤ c.toNat && c.toNat != 0xFEFF && c.toNat != 0xFFFE && c.toNat != 0xFFFF)

/-- A text with all line ends written as line feeds. -/
def unifyLines : List Char → List Char
  | [] => []
  | '\r' :: '\n' :: cs => '\n' :: unifyLines cs
  | c :: cs => (if c == '\r' || c.toNat == 0x85 then '\n' else c) :: unifyLines cs

namespace Scanner

/-! ### Position -/

/-- The next character. -/
def peek? (s : Scanner) : Option Char :=
  s.rest.head?

/-- The character at a distance. -/
def peekAt? (s : Scanner) (n : Nat) : Option Char :=
  s.rest[n]?

/-- Moves past the next character. -/
def skip (s : Scanner) : Scanner :=
  match s.rest with
  | [] => s
  | c :: rest =>
    if c == '\n' then { s with rest, index := s.index + 1, line := s.line + 1, column := 0 }
    else { s with rest, index := s.index + 1, column := s.column + 1 }

/-- Moves past a number of characters. -/
def skipMany (s : Scanner) : Nat → Scanner
  | 0 => s
  | n + 1 => s.skip.skipMany n

/-- Moves past the characters that satisfy `p`. -/
def skipWhile (s : Scanner) (p : Char → Bool) : Scanner :=
  s.skipMany (s.rest.takeWhile p).length

/-- Whether a flow collection is open. -/
def inFlow (s : Scanner) : Bool :=
  !s.outerCandidates.isEmpty

/-- The least column at which the content of the innermost block collection may stand. -/
def contentColumn (s : Scanner) : Nat :=
  match s.indents with
  | [] => 0
  | indent :: _ => indent + 1

/-- Whether a line begins with a mark between documents. -/
def atDocumentMark (s : Scanner) : Bool :=
  s.column == 0 &&
    (['-', '-', '-'].isPrefixOf s.rest || ['.', '.', '.'].isPrefixOf s.rest) &&
    isBoundary (s.peekAt? 3)

/-! ### Output -/

/-- Puts out a token. -/
def emit (s : Scanner) (t : Token) : Scanner :=
  { s with output := .token t :: s.output }

/-- Whether a candidate still is one: a key stands on one line and is not too long. -/
def isFresh (s : Scanner) (c : Candidate) : Bool :=
  c.line == s.line && s.index ≤ c.index + 1024

/-- Gives the candidate up; a required one must not be lost. -/
def dropCandidate? (s : Scanner) : Option Scanner :=
  match s.candidate with
  | some c => if c.isRequired then none else some { s with candidate := none }
  | none => some s

/-- Leaves a slot for a key that may begin here. -/
def markCandidate? (s : Scanner) : Option Scanner :=
  if s.keyAllowed then
    s.dropCandidate?.map fun s =>
      let isRequired := !s.inFlow && s.indents.head? == some s.column
      { s with
        candidate := some ⟨s.slots, isRequired, s.index, s.line, s.column⟩
        output := .slot s.slots :: s.output
        slots := s.slots + 1 }
  else some s

/-- Gives up a candidate that has become too old. -/
def dropStale? (s : Scanner) : Option Scanner :=
  match s.candidate with
  | some c => if s.isFresh c then some s else s.dropCandidate?
  | none => some s

/-- Whether a block collection at a column would lie inside the innermost one. -/
def isDeeper (s : Scanner) (column : Nat) : Bool :=
  match s.indents with
  | [] => true
  | indent :: _ => indent < column

/-- Opens a block collection at the current column unless it is open. -/
def openBlock (s : Scanner) (t : Token) : Scanner :=
  if !s.inFlow && s.isDeeper s.column then
    { s with indents := s.column :: s.indents }.emit t
  else s

/-- Closes the block collections that lie to the right of a column, or all of them. -/
def closeBlocks (s : Scanner) (column : Option Nat) : Scanner :=
  if s.inFlow then s
  else
    let isOpen (indent : Nat) : Bool := match column with
      | some column => column < indent
      | none => true
    let closed := s.indents.takeWhile isOpen
    closed.foldl (fun s _ => s.emit .blockEnd) { s with indents := s.indents.drop closed.length }

end Scanner

/-- The tokens of an output: slots with a key become its tokens, the others vanish. -/
def linearise (filled : List (Nat × Bool)) (output : List Output) : List Token :=
  output.reverse.flatMap fun
    | .token t => [t]
    | .slot n =>
      match filled.find? fun f => f.1 == n with
      | some (_, true) => [.blockMappingStart, .key]
      | some (_, false) => [.key]
      | none => []

end SymbolicVM.Config.Yaml

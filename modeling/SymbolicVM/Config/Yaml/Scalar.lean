import SymbolicVM.Config.Yaml.Token

/-!
# Scalars of YAML

Plain, quoted and block scalars. A line feed inside a plain or quoted scalar is folded: one becomes
a blank, and of several the first is dropped.
-/

namespace SymbolicVM.Config.Yaml

/-- The blanks and line feeds between two parts of a scalar. -/
inductive Gap where
  | none
  /-- Blanks on one line, the last one first. -/
  | blanks (cs : List Char)
  /-- A line feed and a number of empty lines after it. -/
  | lines (empty : Nat)
  /-- A line feed that was escaped, and a number of empty lines after it. -/
  | joined (empty : Nat)

namespace Gap

/-- What a gap contributes to the text. -/
def fold : Gap → List Char
  | .none => []
  | .blanks cs => cs.reverse
  | .lines 0 => [' ']
  | .lines empty => List.replicate empty '\n'
  | .joined empty => List.replicate empty '\n'

/-- A gap with one more blank. -/
def addBlank (c : Char) : Gap → Gap
  | .none => .blanks [c]
  | .blanks cs => .blanks (c :: cs)
  | g => g

/-- A gap with one more line feed. -/
def addLine : Gap → Gap
  | .none => .lines 0
  | .blanks _ => .lines 0
  | .lines n => .lines (n + 1)
  | .joined n => .joined (n + 1)

/-- Whether a gap spans lines. -/
def isLines : Gap → Bool
  | .lines _ => true
  | .joined _ => true
  | _ => false

/-- Whether there is no gap. -/
def isNone : Gap → Bool
  | .none => true
  | _ => false

end Gap

/-! ### Plain scalars -/

/-- Whether a plain scalar ends at the next character, which is no blank. -/
def endsPlain (s : Scanner) (gap : Gap) (c : Char) : Bool :=
  s.atDocumentMark || (c == '#' && !gap.isNone) ||
    (gap.isLines && !s.inFlow && s.column < s.contentColumn) ||
    (c == ':' && isBoundary (s.peekAt? 1)) || (s.inFlow && isFlowMark c)

/-- The rest of a plain scalar. The text read so far is reversed. -/
def plainScalar? : Nat → List Char → Gap → Scanner → Option (String × Scanner)
  | 0, _, _, _ => none
  | fuel + 1, text, gap, s =>
    let finish := some (String.ofList text.reverse, { s with keyAllowed := gap.isLines })
    match s.peek? with
    | none => finish
    | some '\n' => plainScalar? fuel text gap.addLine s.skip
    | some c =>
      if isBlank c then
        if c == '\t' && gap.isLines && s.column < s.contentColumn then none
        else plainScalar? fuel text (gap.addBlank c) s.skip
      else if endsPlain s gap c then finish
      else if s.inFlow && c == ':' && (s.peekAt? 1).any fun d => isFlowMark d || d == '?' then none
      else plainScalar? fuel (c :: (gap.fold.reverse ++ text)) .none s.skip

/-! ### Quoted scalars -/

/-- The value of a hexadecimal digit. -/
def hexValue? (c : Char) : Option Nat :=
  if '0' ≤ c && c ≤ '9' then some (c.toNat - '0'.toNat)
  else if 'a' ≤ c && c ≤ 'f' then some (c.toNat - 'a'.toNat + 10)
  else if 'A' ≤ c && c ≤ 'F' then some (c.toNat - 'A'.toNat + 10)
  else none

/-- How many hexadecimal digits follow the letter of an escape. -/
def escapeWidth : Char → Nat
  | 'x' => 2
  | 'u' => 4
  | 'U' => 8
  | _ => 0

/-- The character of an escape with one letter. -/
def escapeLetter? : Char → Option Char
  | '0' => some '\x00'
  | 'a' => some '\x07'
  | 'b' => some '\x08'
  | 't' => some '\t'
  | '\t' => some '\t'
  | 'n' => some '\n'
  | 'v' => some '\x0b'
  | 'f' => some '\x0c'
  | 'r' => some '\r'
  | 'e' => some '\x1b'
  | ' ' => some ' '
  | '"' => some '"'
  | '/' => some '/'
  | '\\' => some '\\'
  | 'N' => some (Char.ofNat 0x85)
  | '_' => some (Char.ofNat 0xA0)
  | 'L' => some (Char.ofNat 0x2028)
  | 'P' => some (Char.ofNat 0x2029)
  | _ => none

/-- The character that an escape after the backslash stands for, and how many characters it takes.
-/
def escape? (cs : List Char) : Option (Char × Nat) :=
  match cs with
  | [] => none
  | c :: rest =>
    match escapeWidth c with
    | 0 => (escapeLetter? c).map fun c => (c, 1)
    | width =>
      if rest.length < width then none
      else do
        let n ← (rest.take width).foldlM (fun n c => (hexValue? c).map fun d => 16 * n + d) 0
        if h : n.isValidChar then some (Char.ofNatAux n h, width + 1) else none

/-- The rest of a scalar between quotes. -/
def quotedScalar? (quote : Char) : Nat → List Char → Gap → Scanner → Option (String × Scanner)
  | 0, _, _, _ => none
  | fuel + 1, text, gap, s =>
    let next := quotedScalar? quote fuel
    let soFar := gap.fold.reverse ++ text
    if s.atDocumentMark then none
    else
      match s.peek? with
      | none => none
      | some '\n' => next text gap.addLine s.skip
      | some c =>
        if isBlank c then next text (gap.addBlank c) s.skip
        else if c == quote then
          if quote == '\'' && s.peekAt? 1 == some '\'' then
            next ('\'' :: soFar) .none (s.skipMany 2)
          else some (String.ofList soFar.reverse, s.skip)
        else if c == '\\' && quote == '"' then
          if s.peekAt? 1 == some '\n' then next soFar (.joined 0) (s.skipMany 2)
          else
            match escape? (s.rest.drop 1) with
            | some (d, taken) => next (d :: soFar) .none (s.skipMany (taken + 1))
            | none => none
        else next (c :: soFar) .none s.skip

/-! ### Block scalars -/

/-- What becomes of the line feeds at the end of a block scalar. -/
inductive Chomping where
  | strip
  | clip
  | keep

/-- The header of a block scalar: chomping, and the indentation if it is given. -/
structure BlockHeader where
  chomping : Chomping := .clip
  indent : Option Nat := none

/-- Reads one mark of a header. -/
def headerMark? (h : BlockHeader) (c : Char) : Option BlockHeader :=
  if c == '+' then some { h with chomping := .keep }
  else if c == '-' then some { h with chomping := .strip }
  else if '1' ≤ c && c ≤ '9' then some { h with indent := some (c.toNat - '0'.toNat) }
  else none

/-- The header of a block scalar, up to the end of its line. -/
def blockHeader? (s : Scanner) : Option (BlockHeader × Scanner) := do
  let marks := s.rest.takeWhile fun c => c == '+' || c == '-' || Text.isDigit c
  let signs := (marks.filter fun c => c == '+' || c == '-').length
  if 2 < marks.length ∨ 1 < signs ∨ 1 < marks.length - signs then none
  else
    let h ← marks.foldlM headerMark? {}
    let after := s.skipMany marks.length
    let s := after.skipWhile isBlank
    let s := if s.peek? == some '#' then s.skipWhile fun c => c != '\n' else s
    match s.peek? with
    | none => some (h, s)
    | some '\n' => some (h, s.skip)
    | some _ => none

/-- The lines of a text from here on. -/
def linesOf (s : Scanner) : List (List Char) :=
  Text.splitWhere (fun c => c == '\n') s.rest

/-- The number of blanks that a line begins with. -/
def leadingBlanks (line : List Char) : Nat :=
  (line.takeWhile fun c => c == ' ').length

/-- Whether a line has nothing but blanks. -/
def isBlankLine (line : List Char) : Bool :=
  line.all fun c => c == ' '

/-- The indentation of a block scalar: that of its first line with content, or of the longest line
of blanks before it, but at least that of its surroundings. -/
def detectIndent (least : Nat) (lines : List (List Char)) : Nat :=
  let empty := lines.takeWhile isBlankLine
  let first := ((lines.drop empty.length).head?.map leadingBlanks).getD 0
  max (max least 1) ((empty.map List.length).foldl max first)

/-- Whether a line belongs to a block scalar of an indentation. -/
def inBlock (indent : Nat) (line : List Char) : Bool :=
  (isBlankLine line && line.length ≤ indent) || indent ≤ leadingBlanks line

/-- The content of a line: nothing for an empty one. -/
def lineContent (indent : Nat) (line : List Char) : List Char :=
  line.drop indent

/-- Joins the lines of a folded scalar after a first one. Between two lines that do not begin with a
blank, a line feed becomes a blank, and one of several is dropped. -/
def foldLines (previousBlank : Bool) (empty : Nat) : List (List Char) → List Char
  | [] => []
  | line :: rest =>
    match line with
    | [] => foldLines previousBlank (empty + 1) rest
    | c :: _ =>
      let gap :=
        if previousBlank || isBlank c then List.replicate (empty + 1) '\n'
        else if empty = 0 then [' ']
        else List.replicate empty '\n'
      gap ++ line ++ foldLines (isBlank c) 0 rest

/-- The text of content lines, without the line feeds at the end. -/
def joinLines (isFolded : Bool) (lines : List (List Char)) : List Char :=
  let empty := (lines.takeWhile List.isEmpty).length
  match lines.drop empty with
  | [] => []
  | first :: rest =>
    List.replicate empty '\n' ++ first ++
      (if isFolded then foldLines (first.head?.any isBlank) 0 rest
        else rest.flatMap fun line => '\n' :: line)

/-- The text of a block scalar. -/
def blockText (isFolded : Bool) (chomping : Chomping) (atEnd : Bool) (lines : List (List Char)) :
    String :=
  let trailing := (lines.reverse.takeWhile List.isEmpty).length
  let body := lines.take (lines.length - trailing)
  let feeds := if body.isEmpty then trailing else trailing + (if atEnd then 0 else 1)
  let tail := match chomping with
    | .strip => 0
    | .clip => if body.isEmpty then 0 else min feeds 1
    | .keep => feeds
  String.ofList (joinLines isFolded body ++ List.replicate tail '\n')

/-- A block scalar after its mark. -/
def blockScalar? (isFolded : Bool) (s : Scanner) : Option (String × Scanner) := do
  let (h, s) ← blockHeader? s
  let lines := linesOf s
  let least := s.contentColumn
  let indent := match h.indent with
    | some n => (match s.indents with
      | [] => n
      | indent :: _ => indent + n)
    | none => detectIndent least lines
  let taken := lines.takeWhile (inBlock indent)
  -- A tab where the indentation should be is refused, also on the line that shows the indentation.
  let stop := (lines.drop taken.length).head?
  let shows := if h.indent.isNone then (lines.dropWhile isBlankLine).head? else none
  let startsWithTab (line : List Char) : Bool := (line.drop (leadingBlanks line)).head? == some '\t'
  if stop.any startsWithTab || shows.any startsWithTab then none
  else
    let atEnd := taken.length == lines.length
    -- The piece after the last line feed of a text is no line.
    let content := if atEnd && taken.getLast? == some [] then taken.dropLast else taken
    let text := blockText isFolded h.chomping (atEnd && taken.getLast? != some [])
      (content.map (lineContent indent))
    let length := taken.foldl (fun n line => n + line.length + 1) 0 - (if atEnd then 1 else 0)
    some (text, s.skipMany length)

end SymbolicVM.Config.Yaml

import SymbolicVM.Config.Yaml.Scalar

/-!
# Scanning YAML

One step reads one token; the loop over it gives the tokens of a text.
-/

namespace SymbolicVM.Config.Yaml.Scanner

/-- Moves past blanks, comments and line feeds to the next token. Outside of brackets a key may
begin after a line feed. -/
def toNext : Nat → Scanner → Scanner
  | 0, s => s
  | fuel + 1, s =>
    let s := s.skipWhile fun c => c == ' ' || (c == '\t' && (s.inFlow || !s.keyAllowed))
    let s := if s.peek? == some '#' then s.skipWhile fun c => c != '\n' else s
    if s.peek? == some '\n' then
      toNext fuel { s.skip with keyAllowed := s.keyAllowed || !s.inFlow }
    else s

/-- A directive. -/
def directive? (s : Scanner) : Option Scanner := do
  let line := s.rest.takeWhile fun c => c != '\n'
  let words := (Text.words line).takeWhile fun w => w.head? != some '#'
  let isKnown := match words.map String.ofList with
    | ["%YAML", version] => version == "1.1" || version == "1.2"
    | ["%TAG", _, _] => true
    | _ => false
  if isKnown then
    let s ← (s.closeBlocks none).dropCandidate?
    some ({ s.skipMany line.length with keyAllowed := false }.emit .directive)
  else none

/-- A mark between documents. -/
def documentMark? (s : Scanner) : Option Scanner := do
  let mark := if s.peek? == some '-' then Token.documentStart else .documentEnd
  let s ← (s.closeBlocks none).dropCandidate?
  some ({ s.skipMany 3 with keyAllowed := false }.emit mark)

/-- The start of a flow collection. -/
def openFlow? (t : Token) (s : Scanner) : Option Scanner := do
  let s ← s.markCandidate?
  some ({ s.skip with
    outerCandidates := s.candidate :: s.outerCandidates
    candidate := none
    keyAllowed := true }.emit t)

/-- The end of a flow collection. -/
def closeFlow? (t : Token) (s : Scanner) : Option Scanner := do
  let s ← s.dropCandidate?
  let s := match s.outerCandidates with
    | [] => s
    | outer :: rest => { s with candidate := outer, outerCandidates := rest }
  some ({ s.skip with keyAllowed := false }.emit t)

/-- A comma in a flow collection. -/
def flowEntry? (s : Scanner) : Option Scanner := do
  let s ← s.dropCandidate?
  some ({ s.skip with keyAllowed := true }.emit .flowEntry)

/-- The mark of an item of a block sequence. -/
def blockEntry? (s : Scanner) : Option Scanner := do
  if !s.inFlow && !s.keyAllowed then none
  else
    let s ← (s.openBlock .blockSequenceStart).dropCandidate?
    some ({ s.skip with keyAllowed := true }.emit .blockEntry)

/-- The mark of a key. -/
def key? (s : Scanner) : Option Scanner := do
  if !s.inFlow && !s.keyAllowed then none
  else
    let s ← (s.openBlock .blockMappingStart).dropCandidate?
    some ({ s.skip with keyAllowed := !s.inFlow }.emit .key)

/-- The mark of a value. What stands before it, if it may be a key, is one. -/
def value? (s : Scanner) : Option Scanner :=
  match s.candidate with
  | some c =>
    let starts := !s.inFlow && s.isDeeper c.column
    some ({ s.skip with
      candidate := none
      filled := (c.slot, starts) :: s.filled
      indents := if starts then c.column :: s.indents else s.indents
      keyAllowed := false }.emit .value)
  | none =>
    if !s.inFlow && !s.keyAllowed then none
    else
      let s := s.openBlock .blockMappingStart
      some ({ s.skip with keyAllowed := !s.inFlow }.emit .value)

/-- The name of an anchor or alias. -/
def name? (token : String → Token) (s : Scanner) : Option Scanner := do
  let s ← s.markCandidate?
  let s := s.skip
  let name := s.rest.takeWhile isNameChar
  let after := s.skipMany name.length
  let ends := isBoundary after.peek? ||
    after.peek?.any fun c => isFlowMark c || ['?', ':', '%', '@', '`'].contains c
  if name.isEmpty || !ends then none
  else some ({ after with keyAllowed := false }.emit (token (String.ofList name)))

/-- A tag. The short form of the standard tags is kept. -/
def tag? (s : Scanner) : Option Scanner := do
  let s ← s.markCandidate?
  let isPart (c : Char) : Bool := !isBoundary (some c) && !(s.inFlow && isFlowMark c)
  let run := s.rest.takeWhile isPart
  some ({ s.skipMany run.length with keyAllowed := false }.emit (.tag (String.ofList run)))

/-- A scalar in one of its notations. -/
def scalar? (c : Char) (s : Scanner) : Option Scanner := do
  let fuel := s.rest.length + 1
  if (c == '|' || c == '>') && !s.inFlow then
    let s ← s.dropCandidate?
    let (text, s) ← blockScalar? (c == '>') s.skip
    some ({ s with keyAllowed := true }.emit (.scalar text .block))
  else
    let s ← s.markCandidate?
    if c == '\'' || c == '"' then
      let (text, s) ← quotedScalar? c fuel [] .none s.skip
      some ({ s with keyAllowed := false }.emit (.scalar text .quoted))
    else
      let (text, s) ← plainScalar? fuel [] .none s
      some (s.emit (.scalar text .plain))

/-- Whether a plain scalar may begin with the next character. -/
def startsPlain (s : Scanner) (c : Char) : Bool :=
  let isMark := r#"-?:,[]{}#&*!|>'"%@`"#.toList.contains c
  (!isMark && !isBoundary (some c)) || (c == '-' && !(s.peekAt? 1).any isBlank) ||
    (!s.inFlow && (c == '?' || c == ':') && !isBoundary (s.peekAt? 1))

/-- Reads the token that begins with a character. -/
def token? (s : Scanner) (c : Char) : Option Scanner :=
  let beforeBoundary := isBoundary (s.peekAt? 1)
  if s.column == 0 && c == '%' then directive? s
  else if s.atDocumentMark then documentMark? s
  else if c == '[' then openFlow? .flowSequenceStart s
  else if c == '{' then openFlow? .flowMappingStart s
  else if c == ']' then closeFlow? .flowSequenceEnd s
  else if c == '}' then closeFlow? .flowMappingEnd s
  else if c == ',' then flowEntry? s
  else if c == '-' && beforeBoundary then blockEntry? s
  else if c == '?' && (s.inFlow || beforeBoundary) then key? s
  else if c == ':' && (s.inFlow || beforeBoundary) then value? s
  else if c == '*' then name? .alias s
  else if c == '&' then name? .anchor s
  else if c == '!' then tag? s
  else if (c == '|' || c == '>') && !s.inFlow then scalar? c s
  else if c == '\'' || c == '"' || startsPlain s c then scalar? c s
  else none

/-- Reads tokens to the end of the text. -/
def tokensFrom? : Nat → Scanner → Option (List Token)
  | 0, _ => none
  | fuel + 1, s => do
    let s := toNext (s.rest.length + 1) s
    let s ← s.dropStale?
    let s := s.closeBlocks (some s.column)
    match s.peek? with
    | some c => tokensFrom? fuel (← token? s c)
    | none =>
      let s ← (s.closeBlocks none).dropCandidate?
      return linearise s.filled s.output

/-- The tokens of a text. -/
def tokens? (text : String) : Option (List Token) :=
  let cs := match text.toList with
    | '\uFEFF' :: rest => rest
    | cs => cs
  if cs.all isAllowed then
    let cs := unifyLines cs
    tokensFrom? (cs.length + 2) { rest := cs }
  else none

end SymbolicVM.Config.Yaml.Scanner

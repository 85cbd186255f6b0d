import SymbolicVM.Config.Yaml.Scanner
import SymbolicVM.Config.Node

/-!
# Configurations in YAML

Reads nodes from tokens. Aliases are replaced by the nodes that they stand for. A plain scalar may
be read as a text, and also as a number, a truth value or nothing at all, where it has the form of
one.
-/

namespace SymbolicVM.Config.Yaml

/-! ### Readings of scalars -/

/-- The words for an absent value. -/
def isNullWord (s : String) : Bool :=
  ["null", "Null", "NULL", "~"].contains s

/-- The words for truth values. -/
def boolWord? (s : String) : Option Bool :=
  if ["true", "True", "TRUE"].contains s then some true
  else if ["false", "False", "FALSE"].contains s then some false
  else none

/-- The number of a numeral in a base. -/
def numeral? (base : Nat) (cs : List Char) : Option Int :=
  if cs.isEmpty then none
  else
    (cs.foldlM
      (fun (n : Nat) c =>
        (hexValue? c).bind fun d => if d < base then some (base * n + d) else none)
      0).map fun n => (n : Int)

/-- The number of a plain scalar that is not negative. Decimal numerals do not begin with a zero. -/
def number? (s : String) : Option Int :=
  let cs := match s.toList with
    | '+' :: rest => rest
    | cs => cs
  match cs with
  | '0' :: 'x' :: ds => numeral? 16 ds
  | '0' :: 'o' :: ds => numeral? 8 ds
  | '0' :: 'b' :: ds => numeral? 2 ds
  | '0' :: _ :: _ => none
  | _ => numeral? 10 cs

/-- The name of a choice that a tag gives. -/
def choiceOfTag? (tag : String) : Option String :=
  match tag.toList with
  | '!' :: '!' :: _ => none
  | ['!'] => none
  | '!' :: '<' :: _ => none
  | '!' :: name => some (String.ofList name)
  | _ => none

/-- The readings of a scalar with its style and tag. -/
def readings (tag : Option String) (text : String) (style : Style) : Scalar :=
  let isPlain : Bool := style = .plain
  let isUnit := isPlain && (text.isEmpty || isNullWord text)
  let choice := match tag.bind choiceOfTag? with
    | some name => if isUnit then some name else none
    | none => some text
  { text := some text
    bool := if isPlain then boolWord? text else none
    int := if isPlain then number? text else none
    choice
    isNull := match tag with
      | none => isUnit
      | some tag => tag == "!!null" && isPlain && isNullWord text
    isVoid := isPlain && text.isEmpty }

/-- The node of a scalar that is not written at all. -/
def absent : Node :=
  .scalar (readings none "" .plain)

/-! ### Nodes -/

/-- What has been read: a node, the tokens after it, and the nodes with names. -/
structure Parsed (α : Type) where
  result : α
  rest : List Token
  anchors : List (String × Node)

/-- The anchor and tag in front of a node. -/
structure Properties where
  anchor : Option String := none
  tag : Option String := none

/-- Reads the properties of a node, in either order. -/
def properties (tokens : List Token) : Properties × List Token :=
  match tokens with
  | .anchor a :: .tag t :: rest => ({ anchor := some a, tag := some t }, rest)
  | .tag t :: .anchor a :: rest => ({ anchor := some a, tag := some t }, rest)
  | .anchor a :: rest => ({ anchor := some a }, rest)
  | .tag t :: rest => ({ tag := some t }, rest)
  | _ => ({}, tokens)

/-- The text of a node that is a key. -/
def keyText? : Node → Option String
  | .scalar s => s.text
  | _ => none

/-- Where a node stands. -/
inductive Place where
  /-- In a document or a block sequence. -/
  | block
  /-- In a block mapping, where a sequence need not be indented. -/
  | mapping
  /-- In a flow collection. -/
  | flow
deriving DecidableEq

/-- Whether a token ends a key or value of a block mapping that is not written. -/
def endsBlockPart : List Token → Bool
  | .key :: _ => true
  | .value :: _ => true
  | .blockEnd :: _ => true
  | _ => false

/-- Whether a token ends a value of a flow collection that is not written. -/
def endsFlowPart : List Token → Bool
  | .value :: _ => true
  | .flowEntry :: _ => true
  | .flowSequenceEnd :: _ => true
  | .flowMappingEnd :: _ => true
  | _ => false

mutual

/-- Reads a node. -/
def node? : Nat → Place → List (String × Node) → List Token → Option (Parsed Node)
  | 0, _, _, _ => none
  | fuel + 1, place, anchors, tokens =>
    match tokens with
    | .alias name :: rest =>
      ((anchors.find? fun a => a.1 == name).map (·.2)).map fun node => ⟨node, rest, anchors⟩
    | _ =>
      let (props, tokens) := properties tokens
      let named (p : Parsed Node) : Parsed Node := match props.anchor with
        | some a => { p with anchors := (a, p.result) :: p.anchors }
        | none => p
      (content? fuel place props anchors tokens).map named

/-- Reads a node after its properties. -/
def content? : Nat → Place → Properties → List (String × Node) → List Token → Option (Parsed Node)
  | 0, _, _, _, _ => none
  | fuel + 1, place, props, anchors, tokens =>
    match tokens with
    | .scalar text style :: rest => some ⟨.scalar (readings props.tag text style), rest, anchors⟩
    | .flowSequenceStart :: rest =>
      (flowItems? fuel true anchors rest).map fun p => ⟨.list p.result, p.rest, p.anchors⟩
    | .flowMappingStart :: rest =>
      (flowEntries? fuel true anchors rest).map fun p => ⟨.table p.result, p.rest, p.anchors⟩
    | .blockEntry :: _ =>
      if place = .mapping then
        (looseItems? fuel anchors tokens).map fun p => ⟨.list p.result, p.rest, p.anchors⟩
      else none
    | .blockSequenceStart :: rest =>
      if place = .flow then none
      else (blockItems? fuel anchors rest).map fun p => ⟨.list p.result, p.rest, p.anchors⟩
    | .blockMappingStart :: rest =>
      if place = .flow then none
      else (blockEntries? fuel anchors rest).map fun p => ⟨.table p.result, p.rest, p.anchors⟩
    | _ =>
      if props.anchor.isSome || props.tag.isSome then
        some ⟨.scalar (readings props.tag "" .plain), tokens, anchors⟩
      else none

/-- Reads the items of a block sequence up to its end. -/
def blockItems? : Nat → List (String × Node) → List Token → Option (Parsed (List Node))
  | 0, _, _ => none
  | fuel + 1, anchors, tokens =>
    match tokens with
    | .blockEnd :: rest => some ⟨[], rest, anchors⟩
    | .blockEntry :: rest => do
      let first ← match rest with
        | .blockEntry :: _ => some ⟨absent, rest, anchors⟩
        | .blockEnd :: _ => some ⟨absent, rest, anchors⟩
        | _ => node? fuel .block anchors rest
      let more ← blockItems? fuel first.anchors first.rest
      return { more with result := first.result :: more.result }
    | _ => none

/-- Reads the items of a block sequence that is not indented. -/
def looseItems? : Nat → List (String × Node) → List Token → Option (Parsed (List Node))
  | 0, _, _ => none
  | fuel + 1, anchors, tokens =>
    match tokens with
    | .blockEntry :: rest => do
      let isAbsent := endsBlockPart rest || rest.head? == some .blockEntry
      let first ← if isAbsent then some ⟨absent, rest, anchors⟩ else node? fuel .block anchors rest
      let more ← looseItems? fuel first.anchors first.rest
      return { more with result := first.result :: more.result }
    | _ => some ⟨[], tokens, anchors⟩

/-- Reads the entries of a block mapping up to its end. -/
def blockEntries? : Nat → List (String × Node) → List Token → Option (Parsed (List (String × Node)))
  | 0, _, _ => none
  | fuel + 1, anchors, tokens =>
    match tokens with
    | .blockEnd :: rest => some ⟨[], rest, anchors⟩
    | .key :: rest => do
      let key ← if endsBlockPart rest then some ⟨absent, rest, anchors⟩
        else node? fuel .mapping anchors rest
      blockValue? fuel (← keyText? key.result) key.anchors key.rest
    | _ => none

/-- Reads the value of a key of a block mapping, and the entries after it. -/
def blockValue? : Nat → String → List (String × Node) → List Token →
    Option (Parsed (List (String × Node)))
  | 0, _, _, _ => none
  | fuel + 1, key, anchors, tokens => do
    let value ← match tokens with
      | .value :: rest =>
        if endsBlockPart rest then some ⟨absent, rest, anchors⟩
        else node? fuel .mapping anchors rest
      | _ => some ⟨absent, tokens, anchors⟩
    let more ← blockEntries? fuel value.anchors value.rest
    return { more with result := (key, value.result) :: more.result }

/-- Reads the items of a flow sequence up to its end. -/
def flowItems? : Nat → Bool → List (String × Node) → List Token → Option (Parsed (List Node))
  | 0, _, _, _ => none
  | fuel + 1, isFirst, anchors, tokens =>
    match tokens with
    | .flowSequenceEnd :: rest => some ⟨[], rest, anchors⟩
    | _ => do
      let tokens ← if isFirst then some tokens
        else match tokens with
          | .flowEntry :: rest => some rest
          | _ => none
      match tokens with
      | .flowSequenceEnd :: rest => some ⟨[], rest, anchors⟩
      | .key :: rest =>
        let pair ← flowPair? fuel anchors rest
        let more ← flowItems? fuel false pair.anchors pair.rest
        return { more with result := .table [pair.result] :: more.result }
      | _ =>
        let first ← node? fuel .flow anchors tokens
        let more ← flowItems? fuel false first.anchors first.rest
        return { more with result := first.result :: more.result }

/-- Reads the entries of a flow mapping up to its end. -/
def flowEntries? : Nat → Bool → List (String × Node) → List Token →
    Option (Parsed (List (String × Node)))
  | 0, _, _, _ => none
  | fuel + 1, isFirst, anchors, tokens =>
    match tokens with
    | .flowMappingEnd :: rest => some ⟨[], rest, anchors⟩
    | _ => do
      let tokens ← if isFirst then some tokens
        else match tokens with
          | .flowEntry :: rest => some rest
          | _ => none
      match tokens with
      | .flowMappingEnd :: rest => some ⟨[], rest, anchors⟩
      | .key :: rest =>
        let pair ← flowPair? fuel anchors rest
        let more ← flowEntries? fuel false pair.anchors pair.rest
        return { more with result := pair.result :: more.result }
      | _ =>
        let key ← node? fuel .flow anchors tokens
        let name ← keyText? key.result
        let more ← flowEntries? fuel false key.anchors key.rest
        return { more with result := (name, absent) :: more.result }

/-- Reads a key of a flow collection and its value. -/
def flowPair? : Nat → List (String × Node) → List Token → Option (Parsed (String × Node))
  | 0, _, _ => none
  | fuel + 1, anchors, tokens => do
    let key ← if endsFlowPart tokens then some ⟨absent, tokens, anchors⟩
      else node? fuel .flow anchors tokens
    let name ← keyText? key.result
    match key.rest with
    | .value :: rest =>
      let value ← match rest with
        | .flowEntry :: _ => some ⟨absent, rest, key.anchors⟩
        | .flowSequenceEnd :: _ => some ⟨absent, rest, key.anchors⟩
        | .flowMappingEnd :: _ => some ⟨absent, rest, key.anchors⟩
        | _ => node? fuel .flow key.anchors rest
      return ⟨(name, value.result), value.rest, value.anchors⟩
    | rest => return ⟨(name, absent), rest, key.anchors⟩

end

/-! ### Documents -/

/-- Whether a document ends here. -/
def endsDocument : List Token → Bool
  | [] => true
  | .documentStart :: _ => true
  | .documentEnd :: _ => true
  | .directive :: _ => true
  | _ => false

/-- Drops the marks that end documents. -/
def dropEnds (tokens : List Token) : List Token :=
  tokens.dropWhile fun t => t = .documentEnd

/-- Reads the one document of a text. An empty text is a document in which nothing is written. -/
def document? (tokens : List Token) : Option Node := do
  let fuel := 4 * tokens.length + 8
  let tokens := dropEnds tokens
  let directives := tokens.takeWhile fun t => t = .directive
  let body ← match tokens.drop directives.length with
    | .documentStart :: rest => some rest
    | rest => if directives.isEmpty then some rest else none
  let p ← if endsDocument body then some ⟨absent, body, []⟩ else node? fuel .block [] body
  if (dropEnds p.rest).isEmpty then some p.result else none

/-- A choice is never written as a table. -/
def dialect : Dialect where
  isChoiceBody _ := false
  toleratesExtraItems := false

/-- Reads a configuration. -/
def config? (text : String) : Option RunConfig := do
  run? dialect (← document? (← Scanner.tokens? text))

end SymbolicVM.Config.Yaml

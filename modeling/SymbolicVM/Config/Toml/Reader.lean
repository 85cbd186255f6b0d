import SymbolicVM.Config.Toml.Scalar
import SymbolicVM.Config.Toml.Table

/-!
# Configurations in TOML

Reads the statements of a text. Every reader returns what it has read and the rest of the text; the
readers of nested values carry a bound on the number of steps, which the length of the text gives.
-/

namespace SymbolicVM.Config.Toml

/-! ### Between the values -/

/-- Drops the blanks at the start. -/
def skipBlanks (cs : List Char) : List Char :=
  cs.dropWhile isBlank

/-- Drops the rest of a comment; a comment holds printable characters only. -/
def skipComment? (cs : List Char) : Option (List Char) :=
  let rest := cs.dropWhile isPrintable
  if rest.isEmpty || (lineFeed? rest).isSome then some rest else none

/-- Drops what may stand at the end of a line, the line feed included. -/
def endLine? (cs : List Char) : Option (List Char) :=
  let rest := match skipBlanks cs with
    | '#' :: comment => skipComment? comment
    | other => some other
  rest.bind fun rest => if rest.isEmpty then some [] else lineFeed? rest

/-- Drops blanks, line feeds and comments. -/
def skipGap : Nat → List Char → Option (List Char)
  | 0, _ => none
  | fuel + 1, cs =>
    match skipBlanks cs with
    | '#' :: comment => (skipComment? comment).bind (skipGap fuel)
    | rest =>
      match lineFeed? rest with
      | some after => skipGap fuel after
      | none => some rest

/-! ### Keys -/

/-- Whether a character may stand in a key without quotes. -/
def isKeyChar (c : Char) : Bool :=
  c.isAlphanum || c == '_' || c == '-'

/-- A part of a key between dots. -/
def simpleKey? (cs : List Char) : Option (String × List Char) :=
  match cs with
  | '"' :: _ => shortString? cs
  | '\'' :: _ => shortString? cs
  | _ =>
    let run := cs.takeWhile isKeyChar
    if run.isEmpty then none else some (String.ofList run, cs.drop run.length)

/-- The parts of a key. -/
def key? : Nat → List Char → Option (List String × List Char)
  | 0, _ => none
  | fuel + 1, cs => do
    let (part, rest) ← simpleKey? (skipBlanks cs)
    match skipBlanks rest with
    | '.' :: rest =>
      let (parts, rest) ← key? fuel rest
      return (part :: parts, rest)
    | rest => return ([part], rest)

/-! ### Values -/

mutual

/-- A value, and what follows it. -/
def value? : Nat → List Char → Option (Tree × List Char)
  | 0, _ => none
  | fuel + 1, cs =>
    match cs with
    | '[' :: rest => (items? fuel rest).map fun (items, rest) => (.array items, rest)
    | '{' :: rest =>
      (entries? fuel [] rest).map fun (entries, rest) => (.table .closed entries, rest)
    | '"' :: _ => (string? cs).map fun (s, rest) => (.scalar (.ofText s), rest)
    | '\'' :: _ => (string? cs).map fun (s, rest) => (.scalar (.ofText s), rest)
    | _ =>
      let (run, rest) := atom cs
      (atomScalar? run).map fun s => (.scalar s, rest)

/-- The items of an array up to its closing bracket. -/
def items? : Nat → List Char → Option (List Tree × List Char)
  | 0, _ => none
  | fuel + 1, cs => do
    match ← skipGap (cs.length + 1) cs with
    | ']' :: rest => return ([], rest)
    | rest =>
      let (item, rest) ← value? fuel rest
      match ← skipGap (rest.length + 1) rest with
      | ',' :: rest =>
        let (items, rest) ← items? fuel rest
        return (item :: items, rest)
      | ']' :: rest => return ([item], rest)
      | _ => none

/-- The entries of a table in line up to its closing brace. -/
def entries? : Nat → Table → List Char → Option (Table × List Char)
  | 0, _, _ => none
  | fuel + 1, acc, cs => do
    match ← skipGap (cs.length + 1) cs with
    | '}' :: rest => return (acc, rest)
    | rest =>
      let (path, rest) ← key? (rest.length + 1) rest
      match skipBlanks rest with
      | '=' :: rest =>
        let (value, rest) ← value? fuel (← skipGap (rest.length + 1) rest)
        let acc ← Table.assign? path value acc
        match ← skipGap (rest.length + 1) rest with
        | ',' :: rest => entries? fuel acc rest
        | '}' :: rest => return (acc, rest)
        | _ => none
      | _ => none

end

/-! ### Statements -/

/-- A statement at the start of a text, and what follows its line. -/
def statement? (cs : List Char) : Option (Statement × List Char) := do
  match cs with
  | '[' :: '[' :: rest =>
    let (path, rest) ← key? (rest.length + 1) rest
    match rest with
    | ']' :: ']' :: rest => return (.item path, ← endLine? rest)
    | _ => none
  | '[' :: rest =>
    let (path, rest) ← key? (rest.length + 1) rest
    match rest with
    | ']' :: rest => return (.header path, ← endLine? rest)
    | _ => none
  | _ =>
    let (path, rest) ← key? (cs.length + 1) cs
    match rest with
    | '=' :: rest =>
      let (value, rest) ← value? (rest.length + 1) (skipBlanks rest)
      return (.entry path value, ← endLine? rest)
    | _ => none

/-- All statements of a text. -/
def statements? : Nat → List Char → Option (List Statement)
  | 0, _ => none
  | fuel + 1, cs => do
    match ← skipGap (cs.length + 1) cs with
    | [] => return []
    | rest =>
      let (statement, rest) ← statement? rest
      let more ← statements? fuel rest
      return statement :: more

/-- Drops a mark for the order of bytes. -/
def dropMark (cs : List Char) : List Char :=
  match cs with
  | '\uFEFF' :: rest => rest
  | _ => cs

/-- Whether a node is an empty list or table. -/
def isEmpty : Node → Bool
  | .list items => items.isEmpty
  | .table entries => entries.isEmpty
  | .scalar _ => false

/-- A choice may be written as a table from its name to an empty table. -/
def dialect : Dialect where
  isChoiceBody := isEmpty
  toleratesExtraItems := true

/-- Reads a configuration. -/
def config? (text : String) : Option RunConfig := do
  let cs := dropMark text.toList
  let statements ← statements? (cs.length + 1) cs
  run? dialect (← tableOf? statements)

end SymbolicVM.Config.Toml

import SymbolicVM.Instruction.Basic

/-!
# Listings

The textual form of a program: one instruction a line, `name:` for a label, a comment after `#`.
Words are separated by blanks; a word that begins with a quote reaches to the closing quote and may
contain blanks. A line is cut into words by an automaton that reads one character at a time.
-/

namespace SymbolicVM

namespace Listing

/-! ### What can be wrong with a line -/

/-- Why a line is not an instruction. -/
inductive Fault where
  | unterminatedQuote
  | noInstruction
  | missingOpcode
  | unknownOpcode (word : String)
  | missingLabel (op : Opcode)
deriving DecidableEq

/-- The wording of a fault. -/
def Fault.message : Fault → String
  | .unterminatedQuote => "unterminated string literal"
  | .noInstruction => "empty instruction"
  | .missingOpcode => "missing opcode"
  | .unknownOpcode word => "unknown opcode '" ++ word ++ "'"
  | .missingLabel op => op.name ++ " needs a label"

/-- A fault and the line that has it, counted from one and without blanks at its ends. -/
structure Error where
  line : Nat
  text : String
  fault : Fault
deriving DecidableEq

/-- The wording of an error. -/
def Error.message (e : Error) : String :=
  "line " ++ toString e.line ++ ": " ++ e.text ++ ": " ++ e.fault.message

/-! ### Words -/

/-- Where the automaton is in a line. Characters read so far are kept in reverse. -/
inductive Mode where
  /-- Between two words. -/
  | between
  /-- In a word without quotes. -/
  | bare (seen : List Char)
  /-- In a quoted word. -/
  | quoted (quote : Char) (seen : List Char)
  /-- In a quoted word, after a backslash. -/
  | escaped (quote : Char) (seen : List Char)
  /-- In the comment at the end. -/
  | comment (seen : List Char)

/-- Reads one character. Complete words are kept in reverse. -/
def step (state : Mode × List (List Char)) (c : Char) : Mode × List (List Char) :=
  let (mode, words) := state
  match mode with
  | .between =>
    if Text.isBlank c then (.between, words)
    else if c = '#' then (.comment [], words)
    else if c = '"' ∨ c = '\'' then (.quoted c [c], words)
    else (.bare [c], words)
  | .bare seen =>
    if Text.isBlank c then (.between, seen.reverse :: words) else (.bare (c :: seen), words)
  | .quoted quote seen =>
    if c = '\\' then (.escaped quote (c :: seen), words)
    else if c = quote then (.between, (c :: seen).reverse :: words)
    else (.quoted quote (c :: seen), words)
  | .escaped quote seen => (.quoted quote (c :: seen), words)
  | .comment seen => (.comment (c :: seen), words)

/-- The words of a line and the comment after them, without blanks at its ends. -/
def words (line : List Char) : Except Fault (List (List Char) × Option (List Char)) :=
  match line.foldl step (.between, []) with
  | (.between, words) => .ok (words.reverse, none)
  | (.bare seen, words) => .ok ((seen.reverse :: words).reverse, none)
  | (.comment seen, words) => .ok (words.reverse, some (Text.trimChars seen.reverse))
  | (.quoted _ _, _) => .error .unterminatedQuote
  | (.escaped _ _, _) => .error .unterminatedQuote

/-! ### Instructions -/

/-- The place in the source text that the first word of a comment gives, such as `3:1-3:9`. -/
def location? (comment : List Char) : Option SourceRange := do
  let first ← (Text.words comment).head?
  let (startPart, endPart) ← Text.splitOnce '-' first
  let (startLine, startColumn) ← Text.splitOnce ':' startPart
  let (endLine, endColumn) ← Text.splitOnce ':' endPart
  return ⟨← Text.word32? startLine, ← Text.word32? startColumn, ← Text.word32? endLine,
    ← Text.word32? endColumn⟩

/-- Whether the last word of an instruction is its label. -/
def takesLabel : Opcode → Bool
  | .branch | .branchIf | .label => true
  | _ => false

/-- The instruction of an opcode word and the words after it. -/
def ofOpcode (result : Option String) (opcodeWord : List Char) (operands : List (List Char)) :
    Except Fault Instruction :=
  let word := String.ofList opcodeWord
  let texts (ws : List (List Char)) : List Operand := ws.map fun w => .text (String.ofList w)
  match Opcode.ofString? word with
  | none => .error (.unknownOpcode word)
  | some op =>
    if takesLabel op then
      match operands.getLast? with
      | none => .error (.missingLabel op)
      | some label =>
        .ok { opcode := op, result, operands := texts operands.dropLast,
              label := some (String.ofList label) }
    else .ok { opcode := op, result, operands := texts operands }

/-- The label that a single word defines: a name followed by a colon. -/
def labelDefinition? (word : List Char) : Option (List Char) :=
  if word.getLast? = some ':' ∧ 1 < word.length then some word.dropLast else none

/-- The instruction of the words of a line. -/
def ofWords (words : List (List Char)) : Except Fault Instruction :=
  match words with
  | [] => .error .noInstruction
  | [single] =>
    match labelDefinition? single with
    | some name => .ok { opcode := .label, label := some (String.ofList name) }
    | none => ofOpcode none single []
  | [_, ['=']] => .error .missingOpcode
  | reg :: ['='] :: opcodeWord :: operands =>
    ofOpcode (some (String.ofList reg)) opcodeWord operands
  | opcodeWord :: operands => ofOpcode none opcodeWord operands

/-- The instruction of a line that is neither blank nor a comment. -/
def ofLine (line : List Char) : Except Fault Instruction := do
  let (ws, comment) ← words line
  let inst ← ofWords ws
  match comment.bind location? with
  | some loc => return { inst with location := some loc }
  | none => return inst

/-- Whether a line without blanks at its ends holds no instruction. -/
def isSkipped (line : List Char) : Bool :=
  match line with
  | [] => true
  | c :: _ => c == '#'

/-- The instructions of numbered lines. -/
def ofLines (number : Nat) : List (List Char) → Except Error (List Instruction)
  | [] => .ok []
  | line :: rest =>
    let trimmed := Text.trimChars line
    if isSkipped trimmed then ofLines (number + 1) rest
    else
      match ofLine trimmed with
      | .error fault => .error ⟨number, String.ofList trimmed, fault⟩
      | .ok inst =>
        match ofLines (number + 1) rest with
        | .error e => .error e
        | .ok insts => .ok (inst :: insts)

end Listing

/-- Reads a listing. The first faulty line decides the error. -/
def Listing.parse (text : String) : Except Listing.Error (List Instruction) :=
  Listing.ofLines 1 (Text.lines text.toList)

/-- Writes a listing, one instruction a line. -/
def Listing.render (insts : List Instruction) : String :=
  String.join (insts.map fun inst => inst.render ++ "\n")

end SymbolicVM

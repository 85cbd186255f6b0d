import SymbolicVM.Shell.Word

/-!
# Shell scripts

Commands with redirections, pipelines, and lists of pipelines in which the next one may depend on
how the last one ended.
-/

namespace SymbolicVM.Shell

/-- Where a redirection leads a stream. -/
inductive Redirection where
  /-- The stream is read from a file. -/
  | input (stream : Nat) (file : Word)
  /-- The stream goes to a file, which is emptied first or not. -/
  | output (stream : Nat) (file : Word) (appends : Bool)
  /-- The stream goes where another one goes. -/
  | duplicate (stream : Nat) (other : Word)
deriving DecidableEq

/-- When a pipeline of a list is run. -/
inductive Condition where
  | always
  | ifSucceeded
  | ifFailed
deriving DecidableEq

mutual

/-- A command. -/
inductive Command where
  /-- A program or function of the shell, with variables set in front of it. -/
  | simple (assignments : List (String × Word)) (words : List Word)
  /-- The first branch whose condition holds, or the other one. -/
  | conditional (branches : List (Script × Script)) (otherwise : Script)
  /-- A body repeated while, or until, a condition holds. -/
  | loop (isUntil : Bool) (condition body : Script)
  /-- A body repeated for each word. -/
  | each (name : String) (words : List Word) (body : Script)
  /-- A body in the shell itself. -/
  | group (body : Script)
  /-- A body in a shell of its own. -/
  | subshell (body : Script)
  /-- A command with its streams led elsewhere. -/
  | redirected (command : Command) (redirections : List Redirection)

/-- Commands of which each reads what the one before it writes. -/
inductive Pipeline where
  | commands (isNegated : Bool) (commands : List Command)

/-- Pipelines in order. -/
inductive Script where
  | steps (steps : List (Condition × Pipeline))

end

/-- The pipelines of a script. -/
def Script.toList : Script → List (Condition × Pipeline)
  | .steps l => l

/-! ### Reading scripts -/

/-- The text of a word that is plain text without quotes. -/
def plainText? : Word → Option String
  | [.text s false] => some s
  | _ => none

/-- The reserved word that a token is. -/
def reserved? : Token → Option String
  | .word w => plainText? w
  | .operator _ _ => none

/-- Drops the ends of lines. -/
def skipLines (tokens : List Token) : List Token :=
  tokens.dropWhile fun t => t = .operator "\n" none

/-- The name and the value of a word that sets a variable. -/
def assignment? : Word → Option (String × Word)
  | .text s false :: rest =>
    match Text.splitOnce '=' s.toList with
    | some (name, value) =>
      if name.head?.any isNameStart && name.all isNameChar then
        let first : Word := if value.isEmpty then [] else [.text (String.ofList value) false]
        some (String.ofList name, first ++ rest)
      else none
    | none => none
  | _ => none

/-- A redirection at the start of tokens, and what follows it. -/
def redirection? : List Token → Option (Redirection × List Token)
  | .operator symbol stream :: .word w :: rest =>
    match symbol with
    | "<" => some (.input (stream.getD 0) w, rest)
    | ">" => some (.output (stream.getD 1) w false, rest)
    | ">>" => some (.output (stream.getD 1) w true, rest)
    | ">&" => some (.duplicate (stream.getD 1) w, rest)
    | "<&" => some (.duplicate (stream.getD 0) w, rest)
    | _ => none
  | _ => none

/-- The redirections at the start of tokens, and what follows them. -/
def redirections : Nat → List Token → List Redirection × List Token
  | 0, tokens => ([], tokens)
  | fuel + 1, tokens =>
    match redirection? tokens with
    | some (r, rest) =>
      let (more, rest) := redirections fuel rest
      (r :: more, rest)
    | none => ([], tokens)

/-- The words of a simple command and its redirections, and what follows them. -/
def simpleParts : Nat → List Token → List Word × List Redirection × List Token
  | 0, tokens => ([], [], tokens)
  | fuel + 1, tokens =>
    match redirection? tokens with
    | some (r, rest) =>
      let (words, rs, rest) := simpleParts fuel rest
      (words, r :: rs, rest)
    | none =>
      match tokens with
      | .word w :: rest =>
        let (words, rs, rest) := simpleParts fuel rest
        (w :: words, rs, rest)
      | _ => ([], [], tokens)

/-- The assignments that words begin with, and the other words. -/
def splitAssignments : List Word → List (String × Word) × List Word
  | [] => ([], [])
  | w :: ws =>
    match assignment? w with
    | some a =>
      let (as, rest) := splitAssignments ws
      (a :: as, rest)
    | none => ([], w :: ws)

/-- A command with redirections, if there are any. -/
def withRedirections (c : Command) (rs : List Redirection) : Command :=
  if rs.isEmpty then c else .redirected c rs

/-- Expects a reserved word, and returns what follows it. -/
def expect? (word : String) (tokens : List Token) : Option (List Token) :=
  match tokens with
  | t :: rest => if reserved? t = some word then some rest else none
  | [] => none

/-- The words up to the end of a command. -/
def wordsUntilEnd (tokens : List Token) : List Word × List Token :=
  let isWord (t : Token) : Bool := match t with
    | .word _ => true
    | .operator _ _ => false
  ((tokens.takeWhile isWord).filterMap fun
      | .word w => some w
      | .operator _ _ => none,
    tokens.dropWhile isWord)

/-- Drops an end of a command and the ends of lines after it. -/
def skipEnd (tokens : List Token) : List Token :=
  match tokens with
  | .operator ";" none :: rest => skipLines rest
  | _ => skipLines tokens

/-- The words that end a list inside a command. -/
def isClosing (t : Token) : Bool :=
  match reserved? t with
  | some w => ["then", "elif", "else", "fi", "do", "done", r"}"].contains w
  | none => t = .operator ")" none

/-- A compound command with the redirections after it. -/
def finish (c : Command) (rest : List Token) : Option (Command × List Token) :=
  let (rs, rest) := redirections rest.length rest
  some (withRedirections c rs, rest)

mutual

/-- Reads a command. -/
def command? : Nat → List Token → Option (Command × List Token)
  | 0, _ => none
  | fuel + 1, tokens => do
    match tokens with
    | .operator "(" none :: rest =>
      let (body, rest) ← script? fuel rest
      match rest with
      | .operator ")" none :: rest => finish (.subshell body) rest
      | _ => none
    | t :: rest =>
      match reserved? t with
      | some "if" =>
        let (branches, otherwise, rest) ← branches? fuel rest
        finish (.conditional branches otherwise) rest
      | some "while" => loop? fuel false rest
      | some "until" => loop? fuel true rest
      | some "for" => each? fuel rest
      | some r"{" =>
        let (body, rest) ← script? fuel rest
        finish (.group body) (← expect? r"}" rest)
      | _ =>
        let (words, rs, rest) := simpleParts tokens.length tokens
        if words.isEmpty && rs.isEmpty then none
        else
          let (as, ws) := splitAssignments words
          return (withRedirections (.simple as ws) rs, rest)
    | [] => none

/-- Reads a loop after its first word. -/
def loop? : Nat → Bool → List Token → Option (Command × List Token)
  | 0, _, _ => none
  | fuel + 1, isUntil, tokens => do
    let (condition, rest) ← script? fuel tokens
    let (body, rest) ← script? fuel (← expect? "do" rest)
    finish (.loop isUntil condition body) (← expect? "done" rest)

/-- Reads a loop over words after its first word. -/
def each? : Nat → List Token → Option (Command × List Token)
  | 0, _ => none
  | fuel + 1, tokens => do
    match tokens with
    | t :: rest =>
      let name ← reserved? t
      let (words, rest) := wordsUntilEnd (← expect? "in" rest)
      let (body, rest) ← script? fuel (← expect? "do" (skipEnd rest))
      finish (.each name words body) (← expect? "done" rest)
    | [] => none

/-- Reads the branches of a conditional after its first word. -/
def branches? : Nat → List Token → Option (List (Script × Script) × Script × List Token)
  | 0, _ => none
  | fuel + 1, tokens => do
    let (condition, rest) ← script? fuel tokens
    let (body, rest) ← script? fuel (← expect? "then" rest)
    match rest with
    | t :: rest =>
      match reserved? t with
      | some "elif" =>
        let (branches, otherwise, rest) ← branches? fuel rest
        return ((condition, body) :: branches, otherwise, rest)
      | some "else" =>
        let (otherwise, rest) ← script? fuel rest
        return ([(condition, body)], otherwise, ← expect? "fi" rest)
      | some "fi" => return ([(condition, body)], .steps [], rest)
      | _ => none
    | [] => none

/-- Reads the commands of a pipeline. -/
def pipe? : Nat → List Token → Option (List Command × List Token)
  | 0, _ => none
  | fuel + 1, tokens => do
    let (first, rest) ← command? fuel tokens
    match rest with
    | .operator "|" none :: rest =>
      let (more, rest) ← pipe? fuel (skipLines rest)
      return (first :: more, rest)
    | _ => return ([first], rest)

/-- Reads pipelines up to the end of a script, or to a word that closes it. -/
def script? : Nat → List Token → Option (Script × List Token)
  | 0, _ => none
  | fuel + 1, tokens => do
    let (steps, rest) ← steps? fuel .always (skipLines tokens)
    return (.steps steps, rest)

/-- Reads pipelines of which the first is run under a condition. -/
def steps? : Nat → Condition → List Token → Option (List (Condition × Pipeline) × List Token)
  | 0, _, _ => none
  | fuel + 1, condition, tokens => do
    match tokens with
    | [] => if condition = .always then return ([], []) else none
    | t :: after =>
      if isClosing t then if condition = .always then return ([], tokens) else none
      else
        let isNegated : Bool := reserved? t = some "!"
        let (commands, rest) ← pipe? fuel (if isNegated then after else tokens)
        let step := (condition, Pipeline.commands isNegated commands)
        let next := match rest with
          | .operator "&&" none :: rest => some (Condition.ifSucceeded, rest)
          | .operator "||" none :: rest => some (.ifFailed, rest)
          | .operator ";" none :: rest => some (.always, rest)
          | .operator "&" none :: rest => some (.always, rest)
          | .operator "\n" none :: rest => some (.always, rest)
          | _ => none
        match next with
        | some (condition, rest) =>
          let (more, rest) ← steps? fuel condition (skipLines rest)
          return (step :: more, rest)
        | none => return ([step], rest)

end

/-- Reads a script. -/
def Script.parse? (text : String) : Option Script := do
  let tokens ← tokens? (text.length + 1) text.toList
  let (script, rest) ← script? (4 * tokens.length + 8) tokens
  if rest.isEmpty then some script else none

end SymbolicVM.Shell

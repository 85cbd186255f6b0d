import SymbolicVM.Shell.Script
import SymbolicVM.Shell.Program
import SymbolicVM.Shell.Sum

/-!
# Running scripts

Commands run one after another, also those of a pipeline: each gets all that the one before it
wrote. A script that takes too many steps has run out of time.
-/

namespace SymbolicVM.Shell

/-- The number of the process, as scripts see it. -/
def processNumber : String := "1000"

/-- The message of the shell about a command. -/
def complain (s : Surroundings) (message : String) : String :=
  s.name ++ ": 1: " ++ message ++ "\n"

/-! ### Variables -/

/-- The value of a variable. -/
def variableValue? (s : Surroundings) (m : Machine) (name : String) : Option String :=
  match name with
  | "?" => some (toString m.status)
  | "$" => some processNumber
  | "#" => some (toString s.arguments.length)
  | "@" => some (String.intercalate " " s.arguments)
  | "*" => some (String.intercalate " " s.arguments)
  | "0" => some s.name
  | _ =>
    match Text.digits? name.toList with
    | some n => s.arguments[n - 1]?
    | none => m.vars.get? name

/-- Sets a variable. -/
def setVariable (name value : String) : Act Unit :=
  modify fun m => { m with vars := m.vars.insert name value }

/-- The number in a variable. -/
def numberOf (s : Surroundings) (m : Machine) (name : String) : Int :=
  argumentNumber ((variableValue? s m name).getD "")

/-! ### Fields -/

/-- A piece of an expanded word. A piece that may be split is cut at its blanks. -/
structure Piece where
  text : String
  isSplit : Bool

/-- Adds a character of a piece that is split to the fields; the open field comes last. -/
def splitChar (state : List String × Option String) (c : Char) : List String × Option String :=
  if c == ' ' || c == '\t' || c == '\n' then
    match state.2 with
    | some field => (state.1 ++ [field], none)
    | none => state
  else (state.1, some ((state.2.getD "").push c))

/-- Adds a piece to the fields. -/
def addPiece (state : List String × Option String) (p : Piece) : List String × Option String :=
  if p.isSplit then p.text.toList.foldl splitChar state
  else (state.1, some (state.2.getD "" ++ p.text))

/-- The fields of a word. -/
def fieldsOf (pieces : List Piece) : List String :=
  let (fields, last) := pieces.foldl addPiece ([], none)
  fields ++ last.toList

/-- The text of a word that is not split. -/
def joined (pieces : List Piece) : String :=
  String.join (pieces.map (·.text))

/-- A text without the line feeds at its end. -/
def dropFinalLines (s : String) : String :=
  String.ofList (s.toList.reverse.dropWhile fun c => c == '\n').reverse

/-! ### Redirections -/

/-- The sink of a stream. -/
def sinkOf (s : Surroundings) : Nat → Sink
  | 1 => s.stdout
  | 2 => s.stderr
  | _ => .nowhere

/-- Leads a stream to a sink. -/
def withSink (s : Surroundings) (stream : Nat) (sink : Sink) : Surroundings :=
  match stream with
  | 1 => { s with stdout := sink }
  | 2 => { s with stderr := sink }
  | _ => s

/-- The sink of a file, which is emptied unless it is to be added to. -/
def openSink (path : String) (appends : Bool) : Act Sink := do
  match path with
  | "/dev/null" => return .nowhere
  | _ =>
    modify fun m =>
      { m with files := if appends then m.files.append path [] else m.files.write path [] }
    return .file path

/-! ### The shell's own commands -/

/-- The number of a signal. -/
def signalNumber? (s : String) : Option Nat :=
  match s with
  | "HUP" => some 1
  | "INT" => some 2
  | "QUIT" => some 3
  | "ABRT" => some 6
  | "KILL" => some 9
  | "USR1" => some 10
  | "SEGV" => some 11
  | "USR2" => some 12
  | "PIPE" => some 13
  | "ALRM" => some 14
  | "TERM" => some 15
  | _ => Text.digits? s.toList

/-- Sends a signal to the script itself. -/
def kill (s : Surroundings) (args : List String) : Act Nat := do
  let (signal, target) := match args with
    | ["-s", name, target] => (signalNumber? name, target)
    | [option, target] => (signalNumber? (String.ofList (option.toList.drop 1)), target)
    | [target] => (some 15, target)
    | _ => (none, "")
  match signal with
  | some n => if target == processNumber then throw (.signal n)
  | none => pure ()
  writeText s.stderr (complain s "kill: No such process")
  return 1

/-- Reads a line of the input into variables; the last one takes what is left. -/
def read (s : Surroundings) (names : List String) : Act Nat := do
  let names := names.filter fun n => n != "-r"
  let line ← match s.stdin with
    | .input slot => takeInput slot fun bytes => takeLines 1 [] bytes
    | .zeros => throw .timeout
  let isComplete : Bool := line.getLast? == some 10
  let text := Text.trimChars (Bytes.text (if isComplete then line.dropLast else line)).toList
  assign names text
  return if isComplete then 0 else 1
where
  /-- Gives each name a word, and the last one the rest. -/
  assign : List String → List Char → Act Unit
    | [], _ => return ()
    | [name], text => setVariable name (String.ofList text)
    | name :: more, text => do
      let word := text.takeWhile fun c => !Text.isBlank c
      setVariable name (String.ofList word)
      assign more (Text.trimStart (text.drop word.length))

/-- Sets the variables that arguments assign. -/
def exportAll : List String → Act Unit
  | [] => return ()
  | a :: rest => do
    match Text.splitOnce '=' a.toList with
    | some (name, value) => setVariable (String.ofList name) (String.ofList value)
    | none => pure ()
    exportAll rest

/-- The commands that the shell carries out itself. -/
def runBuiltin? (s : Surroundings) (name : String) (args : List String) : Option (Act Nat) :=
  match name with
  | ":" => some (return 0)
  | "exit" => some do
    let status := (← get).status
    throw (.exit ((args.head?.map fun a => (argumentNumber a).toNat % 256).getD status))
  | "echo" => some do
    write s.stdout (echo true args)
    return 0
  | "printf" => some (printf s (fun m => complain s ("printf: " ++ m)) args)
  | "test" => some (testProgram s (fun m => complain s ("test: " ++ m)) args)
  | "[" => some (testProgram s (fun m => complain s ("[: " ++ m)) args.dropLast)
  | "kill" => some (kill s args)
  | "read" => some (read s args)
  | "export" => some do
    exportAll args
    return 0
  | "unset" => some do
    modify fun m => { m with vars := args.foldl (fun vars name => vars.insert name "") m.vars }
    return 0
  | "set" => some (return 0)
  | _ => none

/-! ### Scripts -/

/-- Runs an action in a shell of its own: variables stay as they were, and an exit ends only this
shell. -/
def inSubshell (act : Act Nat) : Act Nat := do
  let vars := (← get).vars
  let status ← tryCatch act fun
    | .exit n => return n
    | stop => throw stop
  modify fun m => { m with vars }
  return status

/-- Reads the arguments of the shell: its script, its name and the arguments of the script. -/
def shellArguments? (s : Surroundings) (args : List String) :
    Act (Option (String × String × List String)) := do
  match args with
  | "-c" :: script :: rest => return some (script, rest.headD "sh", rest.drop 1)
  | [] => return some (Bytes.text (← readAll s.stdin), "sh", [])
  | path :: rest =>
    return (((← get).files.read? path).map Bytes.text).map fun script => (script, path, rest)

mutual

/-- The pieces of a part of a word. -/
def expandPart : Nat → Surroundings → Part → Act Piece
  | 0, _, _ => throw .timeout
  | _ + 1, _, .text t _ => return ⟨t, false⟩
  | _ + 1, s, .variable name default isQuoted => do
    let value := (variableValue? s (← get) name).getD ""
    return ⟨if value.isEmpty then default else value, !isQuoted⟩
  | fuel + 1, s, .output script isQuoted => do
    let slot ← addBuffer
    let status ← inSubshell (runText fuel { s with stdout := .buffer slot } script)
    modify fun m => { m with status }
    return ⟨dropFinalLines (Bytes.text (← bufferContent slot)), !isQuoted⟩
  | fuel + 1, s, .sum expression isQuoted => do
    let text ← expandText fuel s expression
    let m ← get
    match Sum.eval? (numberOf s m) text with
    | some n => return ⟨toString n, !isQuoted⟩
    | none =>
      writeText s.stderr (complain s "arithmetic expression: expecting primary")
      throw (.exit 2)

/-- Puts the values of variables into the text of a sum. -/
def expandText : Nat → Surroundings → String → Act String
  | 0, _, _ => throw .timeout
  | fuel + 1, s, text => do
    match word? (text.length + 3) .double [] (text.toList ++ ['"']) with
    | some (w, _) => return joined (← expandParts fuel s w)
    | none => return text

/-- The pieces of a word. -/
def expandParts : Nat → Surroundings → Word → Act (List Piece)
  | 0, _, _ => throw .timeout
  | _ + 1, _, [] => return []
  | fuel + 1, s, p :: ps => do
    let first ← expandPart fuel s p
    return first :: (← expandParts fuel s ps)

/-- The fields of several words. -/
def expandWords : Nat → Surroundings → List Word → Act (List String)
  | 0, _, _ => throw .timeout
  | _ + 1, _, [] => return []
  | fuel + 1, s, w :: ws => do
    let pieces ← expandParts fuel s w
    return fieldsOf pieces ++ (← expandWords fuel s ws)

/-- Sets variables, one after another. -/
def assignAll : Nat → Surroundings → List (String × Word) → Act Unit
  | 0, _, _ => throw .timeout
  | _ + 1, _, [] => return ()
  | fuel + 1, s, (name, w) :: rest => do
    setVariable name (joined (← expandParts fuel s w))
    assignAll fuel s rest

/-- The surroundings after redirections, or the file that cannot be read. -/
def redirect : Nat → Surroundings → List Redirection → Act (Except String Surroundings)
  | 0, _, _ => throw .timeout
  | _ + 1, s, [] => return .ok s
  | fuel + 1, s, r :: rest => do
    match r with
    | .input _ file =>
      let path := joined (← expandParts fuel s file)
      match ← openFile? path with
      | some source => redirect fuel { s with stdin := source } rest
      | none => return .error path
    | .output stream file appends =>
      let path := joined (← expandParts fuel s file)
      redirect fuel (withSink s stream (← openSink path appends)) rest
    | .duplicate stream other =>
      let target := joined (← expandParts fuel s other)
      let sink := if target == "-" then .nowhere else sinkOf s (argumentNumber target).toNat
      redirect fuel (withSink s stream sink) rest

/-- Runs a command by its name. -/
def runNamed : Nat → Surroundings → String → List String → Act Nat
  | 0, _, _, _ => throw .timeout
  | fuel + 1, s, name, args =>
    match name, args with
    | "exec", program :: args => do
      throw (.exit (← runNamed fuel s program args))
    | "eval", _ => runText fuel s (String.intercalate " " args)
    | "sh", _ => do
      match ← shellArguments? s args with
      | some (script, name, arguments) =>
        inSubshell (runText fuel { s with name, arguments } script)
      | none =>
        writeText s.stderr ("sh: 0: cannot open " ++ args.headD "" ++ ": No such file\n")
        return 2
    | _, _ =>
      match (runBuiltin? s name args).or (runTool? s name args) with
      | some act => act
      | none => do
        writeText s.stderr (complain s (name ++ ": not found"))
        return 127

/-- Runs a command. -/
def runCommand : Nat → Surroundings → Command → Act Nat
  | 0, _, _ => throw .timeout
  | fuel + 1, s, .simple assignments words => do
    modify fun m => if words.isEmpty then { m with status := 0 } else m
    match ← expandWords fuel s words with
    | [] =>
      assignAll fuel s assignments
      return (← get).status
    | name :: args =>
      let vars := (← get).vars
      assignAll fuel s assignments
      let status ← runNamed fuel s name args
      if !assignments.isEmpty then modify fun m => { m with vars }
      return status
  | fuel + 1, s, .conditional branches otherwise =>
    match branches with
    | [] => runScript fuel s otherwise
    | (condition, body) :: more => do
      if (← runScript fuel s condition) == 0 then runScript fuel s body
      else runCommand fuel s (.conditional more otherwise)
  | fuel + 1, s, .loop isUntil condition body => do
    let holds := (← runScript fuel s condition) == 0
    if holds != isUntil then
      let _ ← runScript fuel s body
      runCommand fuel s (.loop isUntil condition body)
    else return 0
  | fuel + 1, s, .each name words body => do
    runEach fuel s name (← expandWords fuel s words) body
  | fuel + 1, s, .group body => runScript fuel s body
  | fuel + 1, s, .subshell body => inSubshell (runScript fuel s body)
  | fuel + 1, s, .redirected command redirections => do
    match ← redirect fuel s redirections with
    | .ok s => runCommand fuel s command
    | .error path =>
      writeText s.stderr (complain s ("cannot open " ++ path ++ ": No such file"))
      return 2

/-- Runs a body for each value of a variable. -/
def runEach : Nat → Surroundings → String → List String → Script → Act Nat
  | 0, _, _, _, _ => throw .timeout
  | _ + 1, _, _, [], _ => return (← get).status
  | fuel + 1, s, name, value :: values, body => do
    setVariable name value
    let _ ← runScript fuel s body
    runEach fuel s name values body

/-- Runs the commands of a pipeline. -/
def runPipe : Nat → Surroundings → List Command → Act Nat
  | 0, _, _ => throw .timeout
  | _ + 1, _, [] => return 0
  | fuel + 1, s, [last] => inSubshell (runCommand fuel s last)
  | fuel + 1, s, first :: rest => do
    let slot ← addBuffer
    let _ ← inSubshell (runCommand fuel { s with stdout := .buffer slot } first)
    let input ← addInput (← bufferContent slot)
    runPipe fuel { s with stdin := .input input } rest

/-- Runs a pipeline. -/
def runPipeline : Nat → Surroundings → Pipeline → Act Nat
  | 0, _, _ => throw .timeout
  | fuel + 1, s, .commands isNegated commands => do
    let status ← match commands with
      | [command] => runCommand fuel s command
      | _ => runPipe fuel s commands
    return if isNegated then (if status == 0 then 1 else 0) else status

/-- Runs the pipelines of a script in order. -/
def runSteps : Nat → Surroundings → List (Condition × Pipeline) → Act Nat
  | 0, _, _ => throw .timeout
  | _ + 1, _, [] => return (← get).status
  | fuel + 1, s, (condition, pipeline) :: rest => do
    let last := (← get).status
    let isRun := match condition with
      | .always => true
      | .ifSucceeded => last == 0
      | .ifFailed => last != 0
    if isRun then
      let status ← runPipeline fuel s pipeline
      modify fun m => { m with status }
    runSteps fuel s rest

/-- Runs a script. -/
def runScript : Nat → Surroundings → Script → Act Nat
  | 0, _, _ => throw .timeout
  | fuel + 1, s, script => do
    if script.toList.isEmpty then modify fun m => { m with status := 0 }
    runSteps fuel s script.toList

/-- Reads a script and runs it. -/
def runText : Nat → Surroundings → String → Act Nat
  | 0, _, _ => throw .timeout
  | fuel + 1, s, text => do
    match Script.parse? text with
    | some script => runScript fuel s script
    | none =>
      writeText s.stderr (complain s "Syntax error")
      return 2

end

end SymbolicVM.Shell

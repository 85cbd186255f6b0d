import SymbolicVM.CommandLine.Arguments
import SymbolicVM.CommandLine.Help
import SymbolicVM.Config.Reader
import SymbolicVM.FlowGraph.Diagram
import SymbolicVM.Log.Filter
import SymbolicVM.Oracle.Replay
import SymbolicVM.Oracle.Symbolic
import SymbolicVM.Program.Report
import SymbolicVM.Run.Report
import SymbolicVM.Shell.Transport

/-!
# Tasks of the command line

Carries out a task over a directory of files: what is printed, how the program ends, and which log
records it makes.
-/

namespace SymbolicVM.CommandLine

/-- A file that a task needs. -/
inductive FileRole where
  | program
  | config
  | replay
deriving DecidableEq

/-- Why a task fails. -/
inductive Failure where
  /-- A file is missing, or its content is no text. -/
  | unreadable (role : FileRole) (path : String)
  /-- A file holds no program. -/
  | malformedProgram (path : String) (cause : Program.Error)
  | config (cause : ConfigError)
  /-- The program has no function of that name. -/
  | missingFunction (name path : String)
  | run (path : String) (cause : RunError)

namespace Failure

/-- The wording of a failure, without its cause. -/
def message : Failure → String
  | .unreadable .program path => "reading program " ++ path
  | .unreadable .config path => "reading config " ++ path
  | .unreadable .replay path => "reading replay file " ++ path
  | .malformedProgram path _ => "parsing program " ++ path
  | .config cause => cause.message
  | .missingFunction name path => "no function named '" ++ name ++ "' in " ++ path
  | .run path _ => "running " ++ path

/-- The wording of a failure's cause. -/
def cause? : Failure → Option String
  | .unreadable _ _ => some "the file cannot be read"
  | .malformedProgram _ cause => some cause.message
  | .run _ cause => some cause.message
  | _ => none

/-- Whether the computation itself broke off. -/
def isOverflow : Failure → Bool
  | .run _ .overflow => true
  | _ => false

end Failure

/-! ### Preparing a run -/

/-- Reads the text of a file. -/
def fileText (files : Directory) (role : FileRole) (path : String) : Except Failure String :=
  match files.readText? path with
  | some text => .ok text
  | none => .error (.unreadable role path)

/-- Loads a program: a listing when the file's name ends in `.ir`, otherwise a document. -/
def loadProgram (files : Directory) (path : String) : Except Failure Program := do
  let text ← fileText files .program path
  let program := if fileExtension? path = some "ir" then Program.ofListing text
    else Program.ofDocument text
  match program with
  | .ok program => .ok program
  | .error e => .error (.malformedProgram path e)

/-- Loads a configuration file. -/
def loadConfig (files : Directory) (path : String) : Except Failure RunConfig := do
  let text ← fileText files .config path
  match RunConfig.parse text path with
  | .ok config => .ok config
  | .error e => .error (.config e)

/-- A configuration with the arguments of a run on top. A command or a file of recorded answers
chooses its oracle, unless another one is named. -/
def RunArguments.over (a : RunArguments) (c : RunConfig) : RunConfig :=
  let oracle := c.oracle
  let oracle := if a.command.isEmpty then oracle
    else { oracle with command := a.command, backend := .command }
  let oracle := match a.replay with
    | some path => { oracle with replay := some path, backend := .replay }
    | none => oracle
  let oracle := match a.backend with
    | some backend => { oracle with backend }
    | none => oracle
  { entry := a.entry.or c.entry
    maxSteps := a.maxSteps.getD c.maxSteps
    trace := c.trace || a.trace
    oracle }

/-- The configuration of a run: that of its file, if one is given, with the arguments on top. -/
def RunArguments.resolve (files : Directory) (a : RunArguments) : Except Failure RunConfig := do
  let base ← match a.config with
    | some path => loadConfig files path
    | none => .ok {}
  return a.over base

/-- An oracle that is ready to answer. -/
inductive ReadyOracle where
  | symbolic
  | command (settings : CommandSettings)
  | replay (recording : Recording)

namespace ReadyOracle

/-- The name of the oracle. -/
def name : ReadyOracle → String
  | .symbolic => SymbolicOracle.oracle.name
  | .command settings => (CommandOracle.oracle Shell.transport settings).name
  | .replay _ => ReplayOracle.oracle.name

end ReadyOracle

/-- Makes the oracle of a configuration ready. -/
def openOracle (files : Directory) (c : OracleConfig) : Except Failure ReadyOracle :=
  match c.backend with
  | .symbolic => .ok .symbolic
  | .command =>
    match CommandSettings.ofCommand? c.command c.timeout c.retries with
    | some settings => .ok (.command settings)
    | none => .error (.config .missingCommand)
  | .replay =>
    match c.replay with
    | none => .error (.config .missingReplayFile)
    | some path => (fileText files .replay path).map fun text => .replay (Recording.ofText text)

/-- Runs a program with an oracle. Also returns how many exchanges with an oracle process failed. -/
def runWith (files : Directory) (oracle : ReadyOracle) (program : Program) (options : RunOptions) :
    Except RunError Outcome × Nat :=
  let g := program.graph
  let registry := program.registry
  match oracle with
  | .symbolic => ((Run.run g registry SymbolicOracle.oracle () options).1, 0)
  | .replay recording => ((Run.run g registry ReplayOracle.oracle recording options).1, 0)
  | .command settings =>
    let (result, session) :=
      Run.run g registry (CommandOracle.oracle Shell.transport settings) { surroundings := files }
        options
    (result, session.failures)

/-! ### Log records -/

/-- The records about a graph that is built. -/
def graphEvents (insts : List Instruction) : List Log.Event :=
  (if FlowGraph.hasDuplicateLabel insts then [⟨"symir::cfg", .warn⟩] else []) ++
    [⟨"symir::cfg", .debug⟩]

/-- The record about a program that is loaded. -/
def programEvent : Log.Event := ⟨"symir::program", .debug⟩

/-- The record about a registry that is built. -/
def registryEvent : Log.Event := ⟨"symir::registry", .debug⟩

/-- The records about a run. -/
def runEvents (o : Outcome) (failures : Nat) : List Log.Event :=
  let run (level : Log.Level) : Log.Event := ⟨"symir::run", level⟩
  [run .debug] ++
    (if o.halt = .empty then [] else [run .info]) ++
    (if o.halt = .unresolvableReturn then [run .warn] else []) ++
    (if o.stats.oracleCalls = 0 then [] else [⟨"symir::engine", .trace⟩]) ++
    (if failures = 0 then [] else [⟨"symir::oracle", .warn⟩])

/-! ### Tasks -/

/-- What a task prints, and the log records that it makes. -/
structure Printed where
  text : String
  events : List Log.Event := []

/-- Prints the graph of a program or of one of its functions. -/
def printGraph (program : Program) (file : String) (isDiagram : Bool) (function : Option String) :
    Except Failure Printed := do
  let insts ← match function with
    | none => .ok program.instructions
    | some name =>
      let body := functionBody name program.instructions
      if body.isEmpty then .error (.missingFunction name file) else .ok body
  let g := FlowGraph.ofInstructions insts
  return ⟨if isDiagram then g.diagram else g.render, programEvent :: graphEvents insts⟩

/-- Runs a program and prints the outcome. -/
def printRun (files : Directory) (a : RunArguments) : Except Failure Printed := do
  let config ← a.resolve files
  let program ← loadProgram files a.file
  let oracle ← openOracle files config.oracle
  let (result, failures) := runWith files oracle program config.options
  match result with
  | .error e => .error (.run a.file e)
  | .ok outcome =>
    let text := if a.json then outcome.toJson.indented ++ "\n" else outcome.render
    let configEvents := if a.config.isSome then [⟨"symir::config", .debug⟩] else []
    return ⟨text, configEvents ++ [programEvent] ++ graphEvents program.instructions ++
      [registryEvent, ⟨"symir::oracle", .debug⟩] ++ runEvents outcome failures⟩

/-- Carries out a task. -/
def Task.perform (files : Directory) : Task → Except Failure Printed
  | .listing file => do
    let program ← loadProgram files file
    return ⟨Listing.render program.instructions, [programEvent]⟩
  | .graph file isDiagram function => do
    printGraph (← loadProgram files file) file isDiagram function
  | .stats file => do
    let program ← loadProgram files file
    return ⟨program.renderStats,
      programEvent :: graphEvents program.instructions ++ [registryEvent]⟩
  | .run a => printRun files a
  | .help topic isBrief => .ok ⟨helpText topic isBrief, []⟩
  | .version => .ok ⟨versionText, []⟩

/-- How the program ends: its status, what it prints, the first line of its error message if it has
one, and the log records that it shows. -/
structure Ending where
  status : Nat
  output : String := ""
  complaint : Option String := none
  shown : List Log.Event := []

/-- Whether anything is written beside the output. -/
def Ending.hasLogged (e : Ending) : Bool :=
  e.complaint.isSome || !e.shown.isEmpty

/-- The message of a failure for the user. -/
def complaintOf (f : Failure) : String :=
  if f.isOverflow then f.cause?.getD "" else "Error: " ++ f.message

/-- Carries out the command line over a directory, with the filter for log records. A command line
that is refused ends with status two, a failure with one, and a computation that broke off with a
hundred and one. -/
def execute (files : Directory) (filter : Option Log.Filter) (arguments : List String) : Ending :=
  match task? arguments with
  | none => { status := 2, complaint := some "usage: symir <ir|cfg|stats|run> <FILE>" }
  | some task =>
    match task.perform files with
    | .ok printed =>
      { status := 0
        output := printed.text
        shown := match filter with
          | some f => printed.events.filter f.shows
          | none => [] }
    | .error f =>
      { status := if f.isOverflow then 101 else 1, complaint := some (complaintOf f) }

/-- The paths of the files that arguments name. -/
def namedPaths (arguments : List String) : List String :=
  match task? arguments with
  | some (.listing file) => [file]
  | some (.graph file _ _) => [file]
  | some (.stats file) => [file]
  | some (.run a) => a.file :: a.config.toList ++ a.replay.toList
  | _ => []

/-- The path of the file of recorded answers that a configuration file names. -/
def configuredPath? (files : Directory) (arguments : List String) : Option String :=
  match task? arguments with
  | some (.run a) =>
    match a.resolve files with
    | .ok config => config.oracle.replay
    | .error _ => none
  | _ => none

end SymbolicVM.CommandLine

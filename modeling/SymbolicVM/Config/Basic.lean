import SymbolicVM.Json.Record
import SymbolicVM.Run.Basic

/-!
# Run configurations

What a run is asked to do and which oracle it asks, as read from a configuration file. Everything
has a default.
-/

namespace SymbolicVM

/-- The kinds of oracles. -/
inductive Backend where
  | symbolic
  | command
  | replay
deriving DecidableEq, Inhabited

namespace Backend

/-- All kinds. -/
def all : List Backend := [.symbolic, .command, .replay]

/-- The name of a kind. -/
def name : Backend → String
  | .symbolic => "symbolic"
  | .command => "command"
  | .replay => "replay"

/-- The kind with a name, exactly as it is written. -/
def ofName? (name : String) : Option Backend :=
  all.find? fun b => b.name == name

/-- The kind that a user means: blanks around the name and the case of its letters do not matter. -/
def ofString? (s : String) : Option Backend :=
  all.find? fun b => Text.sameIgnoringCase b.name (Text.trim s)

/-- The wording for a name that is no kind. -/
def unknownMessage (s : String) : String :=
  "unknown oracle backend '" ++ s ++ "' (expected symbolic, command or replay)"

end Backend

/-- Which oracle to ask, and how. -/
structure OracleConfig where
  backend : Backend := .symbolic
  /-- The program of the command oracle and its arguments. -/
  command : List String := []
  /-- The time for one answer, in milliseconds. -/
  timeout : Nat := 30000
  /-- How often a failed exchange is repeated. -/
  retries : Nat := 0
  /-- The file of recorded answers. -/
  replay : Option String := none
deriving DecidableEq, Inhabited

/-- The configuration of a run. -/
structure RunConfig where
  entry : Option String := none
  maxSteps : Nat := 100
  trace : Bool := false
  oracle : OracleConfig := {}
deriving DecidableEq, Inhabited

/-- The document of an oracle's configuration. -/
def OracleConfig.toJson (c : OracleConfig) : Json :=
  .obj [("backend", .str c.backend.name), ("command", .arr (c.command.map Json.str)),
    ("timeout_ms", .int c.timeout), ("retries", .int c.retries),
    ("replay", Json.ofOption Json.str c.replay)]

namespace RunConfig

/-- The document of a configuration. -/
def toJson (c : RunConfig) : Json :=
  .obj [("entry", Json.ofOption Json.str c.entry), ("max_steps", .int c.maxSteps),
    ("trace", .bool c.trace), ("oracle", c.oracle.toJson)]

/-- The part of a configuration that concerns the run itself. -/
def options (c : RunConfig) : RunOptions where
  entry := c.entry
  maxSteps := c.maxSteps
  trace := c.trace

end RunConfig

/-- Why there is no configuration, or none that names an oracle. -/
inductive ConfigError where
  /-- The text is no configuration in the format of its file. -/
  | invalid (path : String)
  /-- The file's extension is that of no format. -/
  | unsupportedFormat (path : String)
  /-- A command oracle without a command. -/
  | missingCommand
  /-- A replay oracle without a file. -/
  | missingReplayFile
deriving DecidableEq

/-- The wording of an error. -/
def ConfigError.message : ConfigError → String
  | .invalid path => "invalid config " ++ path
  | .unsupportedFormat path =>
    "unsupported config format: " ++ path ++ " (expected .toml, .yaml, .yml or .json)"
  | .missingCommand => "command oracle requires a non-empty `command`"
  | .missingReplayFile => "replay oracle requires a `replay` file"

end SymbolicVM

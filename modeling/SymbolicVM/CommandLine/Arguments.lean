import SymbolicVM.Config.Basic

/-!
# Arguments of the command line

Four commands work on a program file: three print it in some form, one runs it. Options may stand
before and after the file. An option that takes a value takes it from the next argument or after an
equals sign.
-/

namespace SymbolicVM.CommandLine

/-- The arguments of a run. -/
structure RunArguments where
  file : String
  entry : Option String := none
  maxSteps : Option Nat := none
  backend : Option Backend := none
  command : List String := []
  replay : Option String := none
  config : Option String := none
  trace : Bool := false
  json : Bool := false
deriving DecidableEq, Inhabited

/-- What the user asks for. -/
inductive Task where
  /-- Print the instructions. -/
  | listing (file : String)
  /-- Print the control-flow graph, of one function or of the program, as text or as a diagram. -/
  | graph (file : String) (isDiagram : Bool) (function : Option String)
  /-- Print the figures of the program. -/
  | stats (file : String)
  | run (arguments : RunArguments)
  /-- Explain the command line, or one of its commands, briefly or at length. -/
  | help (topic : Option String) (isBrief : Bool)
  | version
deriving DecidableEq

/-- What follows an option. -/
inductive OptionKind where
  | flag
  /-- A value that does not look like an option. -/
  | value
  /-- Any value; the option may be repeated. -/
  | anyValue
deriving DecidableEq

/-- The options of a command. -/
def optionsOf : String → List (String × OptionKind)
  | "cfg" => [("mermaid", .flag), ("function", .value)]
  | "run" =>
    [("entry", .value), ("max-steps", .value), ("oracle", .value), ("oracle-cmd", .anyValue),
      ("replay", .value), ("config", .value), ("trace", .flag), ("json", .flag)]
  | _ => []

/-- The commands. -/
def commands : List String := ["ir", "cfg", "stats", "run"]

/-! ### Cutting arguments -/

/-- What the arguments of a command say, before any value is read. -/
structure Given where
  files : List String := []
  options : List (String × String) := []

/-- Why arguments are refused, or that help is asked for. -/
inductive Refused where
  | usage
  | help (isBrief : Bool)
deriving DecidableEq

/-- Whether an argument looks like an option. A lone dash is a value. -/
def looksLikeOption (a : String) : Bool :=
  match a.toList with
  | '-' :: _ :: _ => true
  | _ => false

/-- The values that paths are: a path is not empty. -/
def isPathOption (name : String) : Bool :=
  name == "replay" || name == "config"

/-- Whether the value of an option can be read. -/
def isReadable (name value : String) : Bool :=
  if isPathOption name then !value.isEmpty
  else if name == "max-steps" then (Text.nat64? value.toList).isSome
  else if name == "oracle" then (Backend.ofString? value).isSome
  else true

/-- Adds the value of an option, which must be readable and, unless the option may be repeated, the
only one. -/
def Given.add (g : Given) (kind : OptionKind) (name value : String) : Except Refused Given :=
  let isRepeated := g.options.any fun o => o.1 == name
  if (isRepeated && kind ≠ .anyValue) || !isReadable name value then .error .usage
  else .ok { g with options := g.options ++ [(name, value)] }

/-- Adds a file; there may be only one. -/
def Given.addFile (g : Given) (file : String) : Except Refused Given :=
  if g.files.isEmpty && !file.isEmpty then .ok { g with files := [file] } else .error .usage

/-- The arguments cut so far: what they say, the option that waits for its value, and whether there
are only files from here on. -/
structure Cutting where
  given : Given := {}
  waiting : Option (String × OptionKind) := none
  onlyFiles : Bool := false

/-- Reads an option that begins with two dashes. -/
def Cutting.option (known : List (String × OptionKind)) (c : Cutting) (body : List Char) :
    Except Refused Cutting :=
  let (name, inline) := match Text.splitOnce '=' body with
    | some (name, value) => (String.ofList name, some (String.ofList value))
    | none => (String.ofList body, none)
  match known.find? fun o => o.1 == name with
  | none => .error .usage
  | some (_, kind) =>
    match kind, inline with
    | .flag, some _ => .error .usage
    | .flag, none => (c.given.add .flag name "").map fun given => { c with given }
    | kind, some value => (c.given.add kind name value).map fun given => { c with given }
    | kind, none => .ok { c with waiting := some (name, kind) }

/-- Reads one argument. After a double dash there are only files. -/
def Cutting.step (known : List (String × OptionKind)) (c : Cutting) (a : String) :
    Except Refused Cutting :=
  match c.waiting with
  | some (name, kind) =>
    if kind = .value ∧ looksLikeOption a then .error .usage
    else (c.given.add kind name a).map fun given => { c with given, waiting := none }
  | none =>
    if c.onlyFiles || !looksLikeOption a then
      (c.given.addFile a).map fun given => { c with given }
    else
      match a with
      | "--" => .ok { c with onlyFiles := true }
      | "--help" => .error (.help false)
      | "-h" => .error (.help true)
      | _ =>
        match Text.dropHead? ['-', '-'] a.toList with
        | some body => c.option known body
        | none => .error .usage

/-- Cuts the arguments of a command. -/
def cut (known : List (String × OptionKind)) (arguments : List String) : Except Refused Given :=
  match arguments.foldlM (Cutting.step known) {} with
  | .ok c => if c.waiting.isSome then .error .usage else .ok c.given
  | .error e => .error e

/-! ### Reading arguments -/

/-- The values of an option. -/
def Given.values (g : Given) (name : String) : List String :=
  (g.options.filter fun o => o.1 == name).map (·.2)

/-- The value of an option. -/
def Given.value? (g : Given) (name : String) : Option String :=
  (g.values name).head?

/-- Whether an option is there. -/
def Given.has (g : Given) (name : String) : Bool :=
  !(g.values name).isEmpty

/-- The task of a command. -/
def taskOf? (command : String) (g : Given) : Option Task :=
  match g.files with
  | [file] =>
    match command with
    | "ir" => some (.listing file)
    | "cfg" => some (.graph file (g.has "mermaid") (g.value? "function"))
    | "stats" => some (.stats file)
    | "run" => some (.run
      { file
        entry := g.value? "entry"
        maxSteps := (g.value? "max-steps").bind fun s => Text.nat64? s.toList
        backend := (g.value? "oracle").bind Backend.ofString?
        command := g.values "oracle-cmd"
        replay := g.value? "replay"
        config := g.value? "config"
        trace := g.has "trace"
        json := g.has "json" })
    | _ => none
  | _ => none

/-- Reads the command line. Nothing means that it is refused. -/
def task? (arguments : List String) : Option Task :=
  match arguments with
  | [] => none
  | "--help" :: _ => some (.help none false)
  | "-h" :: _ => some (.help none true)
  | "--version" :: _ => some .version
  | "-V" :: _ => some .version
  | "help" :: topics =>
    match topics with
    | [] => some (.help none false)
    | [topic] =>
      if topic == "help" then some (.help none false)
      else if commands.contains topic then some (.help (some topic) false)
      else none
    | _ => none
  | command :: rest =>
    if commands.contains command then
      match cut (optionsOf command) rest with
      | .ok g => taskOf? command g
      | .error (.help isBrief) => some (.help (some command) isBrief)
      | .error .usage => none
    else none

end SymbolicVM.CommandLine

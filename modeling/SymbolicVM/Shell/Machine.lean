import SymbolicVM.Shell.Directory
import SymbolicVM.Oracle.Basic

/-!
# Where scripts run

Streams, files, variables and the time that has passed, all as one value. A script ends by itself,
by a signal, or because its time is up; in every case the files stay as they are at that moment.
-/

namespace SymbolicVM.Shell

/-- Where a command reads from. -/
inductive Source where
  /-- One of the machine's inputs. -/
  | input (slot : Nat)
  /-- Zeros without end. -/
  | zeros

/-- Where a command writes to. -/
inductive Sink where
  /-- One of the machine's buffers. -/
  | buffer (slot : Nat)
  | file (path : String)
  | nowhere

/-- Why a script stops before its end. -/
inductive Stop where
  | exit (status : Nat)
  | signal (n : Nat)
  /-- The time is up. -/
  | timeout

/-- What scripts change. -/
structure Machine where
  files : Directory
  /-- The time that has passed and the time that may pass, in milliseconds. -/
  clock : Nat := 0
  deadline : Nat
  inputs : List Bytes := []
  buffers : List Bytes := []
  vars : Dict String := .empty
  /-- How the last command ended. -/
  status : Nat := 0

/-- An action of a script. -/
abbrev Act := EStateM Stop Machine

/-- The surroundings of a command: its streams, and the name and arguments of its script. -/
structure Surroundings where
  stdin : Source
  stdout : Sink
  stderr : Sink
  name : String := "sh"
  arguments : List String := []

/-! ### Streams -/

/-- Adds an input, and returns its slot. -/
def addInput (bytes : Bytes) : Act Nat :=
  modifyGet fun m => (m.inputs.length, { m with inputs := m.inputs ++ [bytes] })

/-- Adds an empty buffer, and returns its slot. -/
def addBuffer : Act Nat :=
  modifyGet fun m => (m.buffers.length, { m with buffers := m.buffers ++ [[]] })

/-- The content of a buffer. -/
def bufferContent (slot : Nat) : Act Bytes := do
  return ((← get).buffers[slot]?).getD []

/-- Writes bytes. -/
def write (sink : Sink) (bytes : Bytes) : Act Unit :=
  match sink with
  | .buffer slot =>
    modify fun m => { m with buffers := m.buffers.modify slot fun old => old ++ bytes }
  | .file path => modify fun m => { m with files := m.files.append path bytes }
  | .nowhere => return ()

/-- Writes a text. -/
def writeText (sink : Sink) (s : String) : Act Unit :=
  write sink (Bytes.ofText s)

/-- Lets time pass. -/
def passTime (milliseconds : Nat) : Act Unit := do
  let m ← get
  let clock := m.clock + milliseconds
  set { m with clock }
  if m.deadline ≤ clock then throw .timeout

/-- Applies a function that takes a part of an input and leaves the rest. -/
def takeInput (slot : Nat) (take : Bytes → Bytes × Bytes) : Act Bytes :=
  modifyGet fun m =>
    let (taken, rest) := take ((m.inputs[slot]?).getD [])
    (taken, { m with inputs := m.inputs.set slot rest })

/-- Reads a source to its end. One without end takes all the time there is. -/
def readAll : Source → Act Bytes
  | .input slot => takeInput slot fun bytes => (bytes, [])
  | .zeros => throw .timeout

/-- Reads at most a number of bytes. -/
def readSome (count : Nat) : Source → Act Bytes
  | .input slot => takeInput slot fun bytes => bytes.splitAt count
  | .zeros => return List.replicate count 0

/-- The source of a file, if it exists. -/
def openFile? (path : String) : Act (Option Source) := do
  match path with
  | "/dev/null" => return some (.input (← addInput []))
  | "/dev/zero" => return some .zeros
  | _ =>
    match (← get).files.read? path with
    | some bytes => return some (.input (← addInput bytes))
    | none => return none

end SymbolicVM.Shell

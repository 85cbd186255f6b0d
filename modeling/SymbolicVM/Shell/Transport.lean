import SymbolicVM.Shell.Evaluate
import SymbolicVM.Oracle.Command

/-!
# Oracle programs

Runs the program of a command oracle inside the library, over a directory of files. The programs are
a small shell and the tools that its scripts use; any other program cannot be started.
-/

namespace SymbolicVM.Shell

/-- How many steps a program may take. -/
def maxSteps : Nat := 20000

/-- The name of a program without the place where programs are kept. -/
def programName (path : String) : String :=
  (["/bin/", "/usr/bin/"].findSome? fun place => Text.stripHead? place path).getD path

/-- Whether there is a program. -/
def isProgram (name : String) : Bool :=
  ["sh", "true", "false", "cat", "wc", "head", "tr", "sleep", "echo", "printf", "test",
    "["].contains name

/-- The action of a program. -/
def runProgram (s : Surroundings) (name : String) (args : List String) : Act Nat :=
  if name == "sh" then runNamed maxSteps s name args
  else (runTool? s name args).getD (return 127)

/-- The result of a program that ended with a status, by the output that it left. -/
def finished (m : Machine) (status : ExitStatus) : ProcessResult :=
  let stream (slot : Nat) : Bytes := (m.buffers[slot]?).getD []
  .finished status (stream 0).text? (stream 1).text

/-- Runs a program with a text on its input. -/
def run (words : List String) (input : String) (timeout : Nat) (files : Directory) :
    ProcessResult × Directory :=
  match words with
  | [] => (.notStarted, files)
  | program :: args =>
    if !isProgram (programName program) then (.notStarted, files)
    else if timeout = 0 then (.timedOut, files)
    else
      let m : Machine :=
        { files, deadline := timeout, inputs := [Bytes.ofText input], buffers := [[], []] }
      let s : Surroundings := { stdin := .input 0, stdout := .buffer 0, stderr := .buffer 1 }
      match (runProgram s (programName program) args).run m with
      | .ok status m => (finished m (.code status), m.files)
      | .error (.exit status) m => (finished m (.code status), m.files)
      | .error (.signal n) m => (finished m (.signal n), m.files)
      | .error .timeout m => (.timedOut, m.files)

/-- The way to run programs over a directory. -/
def transport : Transport Directory where
  run := run

end SymbolicVM.Shell

import SymbolicVM.Oracle.Request
import SymbolicVM.Oracle.Response

/-!
# The command oracle

Runs a program for each question: the question on its input, the answer on its output. A failed
attempt is repeated as often as configured; the last failure counts. How programs run is a
parameter, so that the retry rule is a pure function of what they do.
-/

namespace SymbolicVM

/-- What became of a program that was run. -/
inductive ProcessResult where
  /-- The program ended in time. Its output is missing when its bytes are no text. -/
  | finished (status : ExitStatus) (stdout : Option String) (stderr : String)
  /-- The program was stopped because it took too long. -/
  | timedOut
  /-- There is no such program. -/
  | notStarted

/-- A way to run programs: the words of the command, the text on its input, the time it may take in
milliseconds, and the state of the surroundings, which the program may change. -/
structure Transport (σ : Type) where
  run : List String → String → Nat → σ → ProcessResult × σ

/-- The settings of the command oracle. -/
structure CommandSettings where
  program : String
  arguments : List String
  timeout : Nat
  retries : Nat

namespace CommandSettings

/-- The settings of a command, which must begin with a program that is not blank. -/
def ofCommand? (command : List String) (timeout retries : Nat) : Option CommandSettings :=
  match command with
  | [] => none
  | program :: arguments =>
    if (Text.trimChars program.toList).isEmpty then none
    else some { program, arguments, timeout, retries }

end CommandSettings

namespace CommandOracle

variable {σ : Type}

/-- The surroundings of the programs, and how many attempts failed so far. -/
structure Session (σ : Type) where
  surroundings : σ
  failures : Nat := 0

/-- The text that a program answered with. -/
def outputOf (settings : CommandSettings) : ProcessResult → Except OracleError String
  | .notStarted => .error (.notStarted settings.program)
  | .timedOut => .error (.timeout settings.timeout)
  | .finished status stdout stderr =>
    if status.isSuccess then
      match stdout with
      | some text => .ok text
      | none => .error .notText
    else .error (.exited settings.program status (Text.trim stderr))

/-- One attempt: runs the program and reads its answer. -/
def attempt (transport : Transport σ) (settings : CommandSettings) (payload : String)
    (inst : Instruction) (s : State) (world : σ) : Except OracleError Delta × σ :=
  let (result, world) :=
    transport.run (settings.program :: settings.arguments) payload settings.timeout world
  ((outputOf settings result).bind fun text => Response.parse text inst s, world)

/-- Attempts until one succeeds, with a number of attempts left after this one. -/
def attempts (transport : Transport σ) (settings : CommandSettings) (payload : String)
    (inst : Instruction) (s : State) : Nat → Session σ → Except OracleError Delta × Session σ
  | left, session =>
    let (result, world) := attempt transport settings payload inst s session.surroundings
    match result with
    | .ok d => (.ok d, { session with surroundings := world })
    | .error .overflow => (.error .overflow, { session with surroundings := world })
    | .error e =>
      let session := ⟨world, session.failures + 1⟩
      match left with
      | 0 => (.error e, session)
      | left + 1 => attempts transport settings payload inst s left session

/-- The command oracle over a way to run programs. -/
def oracle (transport : Transport σ) (settings : CommandSettings) : Oracle (Session σ) where
  name := "command"
  decide inst s session :=
    attempts transport settings (Request.ofState inst s).envelope inst s settings.retries session

end CommandOracle

end SymbolicVM

import SymbolicVM.Machine.Delta
import SymbolicVM.Instruction.Basic
import SymbolicVM.Text.Quoted

/-!
# Oracles

An oracle decides the instructions that the engine declines. It may change its own state from one
question to the next, so an answer is a function of the questions asked before.
-/

namespace SymbolicVM

/-- How a process ended. -/
inductive ExitStatus where
  | code (n : Nat)
  | signal (n : Nat)
deriving DecidableEq, Inhabited

namespace ExitStatus

/-- The name of a signal. -/
def signalName : Nat → String
  | 1 => " (SIGHUP)"
  | 2 => " (SIGINT)"
  | 3 => " (SIGQUIT)"
  | 4 => " (SIGILL)"
  | 5 => " (SIGTRAP)"
  | 6 => " (SIGABRT)"
  | 7 => " (SIGBUS)"
  | 8 => " (SIGFPE)"
  | 9 => " (SIGKILL)"
  | 10 => " (SIGUSR1)"
  | 11 => " (SIGSEGV)"
  | 12 => " (SIGUSR2)"
  | 13 => " (SIGPIPE)"
  | 14 => " (SIGALRM)"
  | 15 => " (SIGTERM)"
  | _ => ""

/-- The wording of a status. -/
def render : ExitStatus → String
  | .code n => "exit status: " ++ toString n
  | .signal n => "signal: " ++ toString n ++ signalName n

/-- Whether the process ended without a failure. -/
def isSuccess (s : ExitStatus) : Bool :=
  s = .code 0

end ExitStatus

/-- Why an oracle has no answer. -/
inductive OracleError where
  /-- The answer is no document. -/
  | notJson
  /-- The answer is a document, but no object. -/
  | notObject (document : String)
  /-- The bytes of the answer are no text. -/
  | notText
  /-- The object is not of the shape of a delta. -/
  | wrongShape
  /-- The answer does not write the result register. -/
  | missingResult (register : String)
  /-- A new object of the answer has an empty address. -/
  | missingAddress (hint : Option String)
  /-- The targets of a conditional branch cannot be read. -/
  | malformedTargets (instruction : String)
  /-- The process could not be started. -/
  | notStarted (program : String)
  /-- The process ended with a failure. -/
  | exited (program : String) (status : ExitStatus) (stderr : String)
  /-- The process took too long. -/
  | timeout (milliseconds : Nat)
  /-- There is no recorded answer left. -/
  | exhausted (answered : Nat)
  /-- A recorded answer, counted from one, is not accepted. -/
  | replayed (number : Nat) (cause : OracleError)
  /-- The number of an identifier left its word. -/
  | overflow
deriving DecidableEq, Inhabited

namespace OracleError

/-- The wording of an error. -/
def message : OracleError → String
  | .notJson => "malformed oracle response"
  | .notObject document =>
    "malformed oracle response: expected a JSON object, got " ++ document
  | .notText => "malformed oracle response"
  | .wrongShape => "oracle response violates protocol"
  | .missingResult register =>
    "oracle response violates protocol: missing write to result register " ++ register
  | .missingAddress hint =>
    "oracle response violates protocol: new object without address (" ++
      (match hint with
        | none => "None"
        | some h => "Some(" ++ Text.quoted h ++ ")") ++ ")"
  | .malformedTargets instruction =>
    "oracle response violates protocol: malformed branch targets in `" ++ instruction ++ "`"
  | .notStarted program => "oracle transport failed: spawning " ++ program
  | .exited program status stderr =>
    "oracle transport failed: " ++ program ++ " exited with " ++ status.render ++ ": " ++ stderr
  | .timeout ms => "oracle timed out after " ++ toString ms ++ "ms"
  | .exhausted answered =>
    "replay oracle exhausted after " ++ toString answered ++ " responses"
  | .replayed number cause =>
    "replayed response #" ++ toString number ++ ": " ++ cause.message
  | .overflow => Overflow.overflow.message

/-- The error without the account of where it arose. -/
def root : OracleError → OracleError
  | .replayed _ cause => cause.root
  | e => e

/-- An overflow as an error of an oracle. -/
def ofOverflow : Overflow → OracleError
  | .overflow => .overflow

end OracleError

/-- An oracle with states in `σ`. -/
structure Oracle (σ : Type) where
  name : String
  /-- The answer to a question, and the oracle's state after it. -/
  decide : Instruction → State → σ → Except OracleError Delta × σ

end SymbolicVM

import SymbolicVM.Oracle.Response

/-!
# The replay oracle

Answers with recorded texts, in order.
-/

namespace SymbolicVM

/-- The answers that are left, and how many were given. -/
structure Recording where
  responses : List String
  answered : Nat := 0
deriving DecidableEq, Inhabited

namespace Recording

/-- The recorded answers of a file, one on each line that is not blank. -/
def ofText (text : String) : Recording where
  responses := (((Text.lines text.toList).map Text.trimChars).filter fun line => !line.isEmpty).map
    String.ofList

/-- How many answers are left. -/
def remaining (r : Recording) : Nat :=
  r.responses.length

end Recording

namespace ReplayOracle

/-- Answers with the next recorded text. An answer that is not accepted is used up, too. -/
def answer (inst : Instruction) (s : State) (r : Recording) :
    Except OracleError Delta × Recording :=
  match r.responses with
  | [] => (.error (.exhausted r.answered), r)
  | text :: rest =>
    let number := r.answered + 1
    let result := match Response.parse text inst s with
      | .ok d => .ok d
      | .error .overflow => .error .overflow
      | .error e => .error (.replayed number e)
    (result, ⟨rest, number⟩)

/-- The replay oracle. -/
def oracle : Oracle Recording where
  name := "replay"
  decide := answer

end ReplayOracle

end SymbolicVM

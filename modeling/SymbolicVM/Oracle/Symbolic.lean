import SymbolicVM.Oracle.Basic
import SymbolicVM.Engine.Operands

/-!
# The symbolic oracle

Answers without asking anyone: an unknown result becomes a fresh symbolic value with the expression
that it stands for as constraint, and a branch on an unknown condition takes the side for true and
records the assumption.
-/

namespace SymbolicVM.SymbolicOracle

/-- An operand as constraints show it: a register by its value, anything else as it is written. -/
def shown (s : State) (op : Operand) : String :=
  match op.register? with
  | some reg => ((s.register? reg).map Value.render).getD reg
  | none => op.render

/-- The operand at a position, shown; empty when it is missing. -/
def shownAt (inst : Instruction) (s : State) (i : Nat) : String :=
  ((inst.operand? i).map (shown s)).getD ""

/-- The operands from a position on, shown. -/
def shownFrom (inst : Instruction) (s : State) (i : Nat) : String :=
  String.intercalate ", " ((inst.operands.drop i).map (shown s))

/-- The expression that an instruction computes. -/
def expression (inst : Instruction) (s : State) : String :=
  let arg := shownAt inst s
  match inst.opcode with
  | .binop => arg 1 ++ " " ++ arg 0 ++ " " ++ arg 2
  | .unop => arg 0 ++ " " ++ arg 1
  | .callFunction => arg 0 ++ "(" ++ shownFrom inst s 1 ++ ")"
  | .callUnknown => arg 0 ++ "(" ++ shownFrom inst s 1 ++ ")"
  | .callMethod => arg 0 ++ "." ++ arg 1 ++ "(" ++ shownFrom inst s 2 ++ ")"
  | .loadField => arg 0 ++ "[" ++ arg 1 ++ "]"
  | .loadIndex => arg 0 ++ "[" ++ arg 1 ++ "]"
  | .loadVar => arg 0
  | _ => inst.render

/-- The value of an operand; null when it is missing or a register without value. -/
def valueOf (s : State) (op : Option Operand) : Value :=
  match op with
  | none => .null
  | some op =>
    match op.register? with
    | some reg => (s.register? reg).getD .null
    | none => op.literal

/-- Where unknowns come from: for a number and a constraint an unknown and the number after it. -/
abbrev Supply := Nat → String → Except OracleError (Symbolic × Nat)

/-- The symbolic value with a number, and the number after it. -/
def mint (number : Nat) (constraint : String) : Except OracleError (Symbolic × Nat) :=
  match nextNumber number with
  | .ok next => .ok ({ name := IdKind.symbol.name number, constraints := [constraint] }, next)
  | .error e => .error (.ofOverflow e)

/-- The register without value that a store would read. -/
def unsetSource? (inst : Instruction) (s : State) : Option String :=
  match (inst.operand? 1).bind Operand.register? with
  | some reg => if (s.register? reg).isNone then some reg else none
  | none => none

/-- The effects apart from the result register, and the number of the next symbolic value. -/
def effects (inst : Instruction) (s : State) (supply : Supply := mint) :
    Except OracleError (Delta × Nat) :=
  match inst.opcode with
  | .branchIf =>
    match inst.branchTargets? with
    | none => .error (.malformedTargets inst.render)
    | some (onTrue, _) =>
      let condition := shownAt inst s 0
      .ok ({ nextLabel := some onTrue
             pathCondition := some ("assume " ++ condition ++ " is True")
             reasoning := "symbolic condition " ++ condition ++ "; taking " ++ onTrue },
           s.counter)
  | .ret | .throw =>
    .ok ({ returnValue := some (valueOf s (inst.operand? 0))
           callPop := true
           reasoning := inst.opcode.name ++ " unwinds the frame" },
         s.counter)
  | .storeVar =>
    let d : Delta := { reasoning := "store of unknown value" }
    match inst.text? 0 with
    | none => .ok (d, s.counter)
    | some name =>
      match unsetSource? inst s with
      | some reg =>
        (supply s.counter reg).map fun (sym, next) => (d.writeVar name (.symbolic sym), next)
      | none => .ok (d.writeVar name (valueOf s (inst.operand? 1)), s.counter)
  | _ => .ok ({}, s.counter)

/-- The effects with a new symbolic value in the result register, if there is one. -/
def withResult (inst : Instruction) (s : State) (d : Delta) (number : Nat)
    (supply : Supply := mint) : Except OracleError Delta :=
  match inst.result with
  | none => return d
  | some reg => do
    let (sym, _) ← supply number (expression inst s)
    return { d with reasoning := expression inst s ++ " -> symbolic " ++ sym.name }.writeRegister
      reg (.symbolic sym)

/-- The answer for an instruction. -/
def answer (inst : Instruction) (s : State) (supply : Supply := mint) :
    Except OracleError Delta := do
  let (d, number) ← effects inst s supply
  withResult inst s d number supply

/-- The symbolic oracle. It remembers nothing. -/
def oracle : Oracle Unit where
  name := "symbolic"
  decide inst s _ := (answer inst s, ())

end SymbolicVM.SymbolicOracle

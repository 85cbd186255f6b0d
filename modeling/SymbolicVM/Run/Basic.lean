import SymbolicVM.Engine.Decide
import SymbolicVM.Oracle.Basic
import SymbolicVM.FlowGraph.Basic

/-!
# Runs

A run walks the control-flow graph one instruction at a time. Each instruction is decided by the
engine or, when that declines, by the oracle; the delta is applied and control moves on. Every visit
to a control point costs one step of the budget, also one that only moves from the end of a block to
its successor.
-/

namespace SymbolicVM

/-- What a run is asked to do. -/
structure RunOptions where
  /-- The label of the block to begin at, or a part of one; without it the first block. -/
  entry : Option String := none
  maxSteps : Nat := 100
  trace : Bool := false
deriving DecidableEq, Inhabited

/-- Why a run ended. -/
inductive HaltReason where
  /-- There are no blocks. -/
  | empty
  /-- The outermost frame returned or threw. -/
  | returned
  /-- Control fell off a block without successors. -/
  | endOfProgram
  | budgetExhausted
  /-- A frame returned and did not know where to. -/
  | unresolvableReturn
deriving DecidableEq, Inhabited

namespace HaltReason

/-- The wording of a reason. -/
def render : HaltReason → String
  | .empty => "empty program"
  | .returned => "returned"
  | .endOfProgram => "end of program"
  | .budgetExhausted => "step budget exhausted"
  | .unresolvableReturn => "unresolvable return"

/-- The name of a reason in documents. -/
def name : HaltReason → String
  | .empty => "empty"
  | .returned => "returned"
  | .endOfProgram => "end_of_program"
  | .budgetExhausted => "budget_exhausted"
  | .unresolvableReturn => "unresolvable_return"

end HaltReason

/-- Who decided an instruction. -/
inductive DecisionSource where
  | engine
  | oracle
deriving DecidableEq, Inhabited

/-- A point of control: a block, and a position in its body. -/
structure Control where
  label : String
  offset : Nat := 0
deriving DecidableEq, Inhabited

/-- One decided instruction of a run. -/
structure TraceStep where
  index : Nat
  control : Control
  instruction : Instruction
  delta : Delta
  source : DecisionSource
  /-- The state after the step. -/
  state : State
deriving Inhabited

/-- Why a run has no outcome. -/
inductive RunError where
  /-- No block has the entry as its label or as a part of it. -/
  | unknownEntry (entry : String) (available : List String)
  /-- Control is at a block that does not exist. -/
  | missingBlock (label : String)
  /-- The oracle failed at an instruction. -/
  | oracle (step : Nat) (control : Control) (instruction : Instruction) (cause : OracleError)
  /-- The number of an identifier, or the sum of a length and an index, left its word. -/
  | overflow
deriving DecidableEq

/-- The wording of an error. -/
def RunError.message : RunError → String
  | .unknownEntry entry available =>
    "entry point '" ++ entry ++ "' not found in CFG" ++
      (if available.isEmpty then ""
        else " (available: " ++ String.intercalate ", " available ++ ")")
  | .missingBlock label => "block '" ++ label ++ "' is not in the graph"
  | .oracle step control instruction cause =>
    "step " ++ toString step ++ " at " ++ control.label ++ ":" ++ toString control.offset ++ " `" ++
      instruction.render ++ "`: " ++ cause.message
  | .overflow => Overflow.overflow.message

/-! ### Where a run begins -/

/-- The label of the block to begin at: the entry itself if it is a label, otherwise the first label
that contains it. An empty graph has none. -/
def resolveEntry (g : FlowGraph) (entry : Option String) : Except RunError (Option String) :=
  match g.entry?, entry with
  | none, _ => .ok none
  | some first, none => .ok (some first)
  | some _, some entry =>
    if g.contains entry then .ok (some entry)
    else
      match g.labels.find? fun label => Text.occursIn entry.toList label.toList with
      | some label => .ok (some label)
      | none => .error (.unknownEntry entry g.labels)

/-! ### One step -/

/-- A run between two steps. -/
structure Progress (σ : Type) where
  state : State
  control : Control
  steps : Nat := 0
  localDecisions : Nat := 0
  oracleCalls : Nat := 0
  /-- The decided instructions, the last one first; none are kept unless they are asked for. -/
  trace : List TraceStep := []
  oracleState : σ

/-- Where control goes after an instruction. -/
inductive Flow where
  | goto (control : Control)
  | halt (reason : HaltReason)

/-- What one step of a run leads to. -/
inductive StepResult (σ : Type) where
  | next (p : Progress σ)
  | halt (reason : HaltReason) (p : Progress σ)
  | fail (e : RunError) (oracleState : σ)

namespace Run

variable {σ : Type}

/-- Control after a return or throw. The returned value goes to the register that the frame was
stamped with, and control to the point that it was stamped with. A delta that has not removed the
frame leaves that to be done here. -/
def unwind (g : FlowGraph) (d : Delta) (depthBefore : Nat) (applied : State.Applied) :
    State × Flow :=
  if depthBefore ≤ 1 then (applied.state, .halt .returned)
  else
    let (s, popped) := match applied.popped with
      | some frame => (applied.state, some frame)
      | none => applied.state.popFrame
    match popped with
    | none => (s, .halt .returned)
    | some frame =>
      let s := match frame.resultRegister, d.returnValue with
        | some reg, some v => s.writeRegister reg v
        | _, _ => s
      match frame.returnLabel.filter g.contains with
      | some label => (s, .goto ⟨label, frame.returnOffset.getD 0⟩)
      | none => (s, .halt .unresolvableReturn)

/-- Records in a frame that was just pushed where it returns to. A constructor leaves the caller's
result register alone, which holds the new object. -/
def stamp (inst : Instruction) (control : Control) (d : Delta) (applied : State.Applied) :
    State.Applied :=
  match d.callPush, d.nextLabel with
  | some push, some _ =>
    let register := if push.isConstructor then none else inst.result
    { applied with
      state := applied.state.stampReturn control.label (control.offset + 1) register }
  | _, _ => applied

/-- The state and control after an instruction whose delta was applied. A next label that is no
block is ignored. -/
def advance (g : FlowGraph) (inst : Instruction) (control : Control) (d : Delta)
    (depthBefore : Nat) (applied : State.Applied) : State × Flow :=
  let applied := stamp inst control d applied
  match inst.opcode with
  | .ret | .throw => unwind g d depthBefore applied
  | _ =>
    match d.nextLabel.filter g.contains with
    | some label => (applied.state, .goto ⟨label, 0⟩)
    | none => (applied.state, .goto { control with offset := control.offset + 1 })

/-- Applies the delta of an instruction and moves control. -/
def perform (g : FlowGraph) (keepTrace : Bool) (p : Progress σ) (inst : Instruction) (d : Delta)
    (source : DecisionSource) : StepResult σ :=
  match p.state.apply d with
  | .error .overflow => .fail .overflow p.oracleState
  | .ok applied =>
    let (state, flow) := advance g inst p.control d p.state.depth applied
    let trace :=
      if keepTrace then
        ⟨p.steps - 1, p.control, inst, d, source, state⟩ :: p.trace
      else p.trace
    let p := { p with state, trace }
    match flow with
    | .goto control => .next { p with control }
    | .halt reason => .halt reason p

/-- Decides an instruction by the engine or the oracle and performs it. -/
def execute (g : FlowGraph) (registry : Registry) (oracle : Oracle σ) (keepTrace : Bool)
    (p : Progress σ) (inst : Instruction) : StepResult σ :=
  match Engine.decide registry inst p.state with
  | .ok d => perform g keepTrace { p with localDecisions := p.localDecisions + 1 } inst d .engine
  | .error .overflow => .fail .overflow p.oracleState
  | .error _ =>
    let (answer, oracleState) := oracle.decide inst p.state p.oracleState
    let p := { p with oracleCalls := p.oracleCalls + 1, oracleState }
    match answer with
    | .ok d => perform g keepTrace p inst d .oracle
    | .error .overflow => .fail .overflow oracleState
    | .error e => .fail (.oracle (p.steps - 1) p.control inst e) oracleState

/-- One step: executes the instruction at the point of control, or moves on from the end of a block.
-/
def step (g : FlowGraph) (registry : Registry) (oracle : Oracle σ) (keepTrace : Bool)
    (p : Progress σ) : StepResult σ :=
  let p := { p with steps := p.steps + 1 }
  match g.block? p.control.label with
  | none => .fail (.missingBlock p.control.label) p.oracleState
  | some block =>
    match block.body[p.control.offset]? with
    | none =>
      match block.successors.head? with
      | some next => .next { p with control := ⟨next, 0⟩ }
      | none => .halt .endOfProgram p
    | some inst =>
      if inst.isLabel then
        .next { p with control := { p.control with offset := p.control.offset + 1 } }
      else execute g registry oracle keepTrace p inst

/-- How a run ended, and where. -/
inductive Ending (σ : Type) where
  | halted (reason : HaltReason) (p : Progress σ)
  | failed (e : RunError) (oracleState : σ)

/-- Steps until the run ends or the budget is used up. -/
def loop (g : FlowGraph) (registry : Registry) (oracle : Oracle σ) (keepTrace : Bool) :
    Nat → Progress σ → Ending σ
  | 0, p => .halted .budgetExhausted p
  | budget + 1, p =>
    match step g registry oracle keepTrace p with
    | .next p => loop g registry oracle keepTrace budget p
    | .halt reason p => .halted reason p
    | .fail e oracleState => .failed e oracleState

end Run

/-! ### Whole runs -/

/-- What a run did. -/
structure RunStats where
  steps : Nat := 0
  oracleCalls : Nat := 0
  localDecisions : Nat := 0
  heapObjects : Nat := 0
  symbolCount : Nat := 0
  closures : Nat := 0
deriving DecidableEq, Inhabited

/-- The decided instructions of a run, and the state before the first. -/
structure Trace where
  start : State
  steps : List TraceStep
deriving Inhabited

/-- The outcome of a run. -/
structure Outcome where
  state : State
  stats : RunStats
  halt : HaltReason
  trace : Option Trace
deriving Inhabited

namespace Run

variable {σ : Type}

/-- The outcome of a run that halted. -/
def outcome (start : State) (keepTrace : Bool) (reason : HaltReason) (p : Progress σ) :
    Outcome where
  state := p.state
  stats :=
    { steps := p.steps
      oracleCalls := p.oracleCalls
      localDecisions := p.localDecisions
      heapObjects := p.state.heap.size
      symbolCount := p.state.counter
      closures := p.state.closures.size }
  halt := reason
  trace := if keepTrace then some ⟨start, p.trace.reverse⟩ else none

/-- Runs a program from its entry until it halts, fails or has used up its budget. Returns the
outcome and the oracle's state at the end. -/
def run (g : FlowGraph) (registry : Registry) (oracle : Oracle σ) (oracleState : σ)
    (options : RunOptions) : Except RunError Outcome × σ :=
  let start : State := {}
  match resolveEntry g options.entry with
  | .error e => (.error e, oracleState)
  | .ok none =>
    (.ok { state := start, stats := {}, halt := .empty,
           trace := if options.trace then some ⟨start, []⟩ else none },
      oracleState)
  | .ok (some label) =>
    let p : Progress σ := { state := start, control := ⟨label, 0⟩, oracleState }
    match loop g registry oracle options.trace options.maxSteps p with
    | .halted reason p => (.ok (outcome start options.trace reason p), p.oracleState)
    | .failed e oracleState => (.error e, oracleState)

end Run

end SymbolicVM

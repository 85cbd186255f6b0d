import SymbolicVM.Run.Basic
import SymbolicVM.Machine.Document
import SymbolicVM.Instruction.Document

/-!
# Reports

The outcome of a run as a text for readers and as a document.
-/

namespace SymbolicVM

namespace DecisionSource

/-- The name of a source in texts. -/
def render : DecisionSource → String
  | .engine => "Local"
  | .oracle => "Oracle"

/-- The name of a source in documents. -/
def name : DecisionSource → String
  | .engine => "local"
  | .oracle => "oracle"

end DecisionSource

namespace TraceStep

/-- The line of a step. -/
def render (t : TraceStep) : String :=
  "  #" ++ Text.padRight 4 (toString t.index) ++ " " ++ t.control.label ++ ":" ++
    Text.padRight 3 (toString t.control.offset) ++ " [" ++ t.source.render ++ "] " ++
    t.instruction.render ++ "\n"

/-- The document of a step. -/
def toJson (t : TraceStep) : Json :=
  .obj [("step_index", .int t.index), ("block_label", .str t.control.label),
    ("offset", .int t.control.offset), ("instruction", t.instruction.toJson),
    ("delta", t.delta.toJson), ("source", .str t.source.name), ("state", t.state.toJson)]

end TraceStep

/-- The document of the figures of a run. -/
def RunStats.toJson (s : RunStats) : Json :=
  .obj [("steps", .int s.steps), ("oracle_calls", .int s.oracleCalls),
    ("local_decisions", .int s.localDecisions), ("final_heap_objects", .int s.heapObjects),
    ("final_symbolic_count", .int s.symbolCount), ("closures_captured", .int s.closures)]

/-- The document of a trace. -/
def Trace.toJson (t : Trace) : Json :=
  .obj [("initial_state", t.start.toJson), ("steps", .arr (t.steps.map TraceStep.toJson))]

namespace Outcome

/-- The document of an outcome. -/
def toJson (o : Outcome) : Json :=
  Json.record
    [Json.always "state" o.state.toJson,
      Json.always "stats" o.stats.toJson,
      Json.always "halt" (.str o.halt.name),
      Json.whenSome "trace" Trace.toJson o.trace]

/-- A heading and lines under it, or nothing when there are no lines. -/
def titled (heading : String) (lines : List String) : String :=
  if lines.isEmpty then "" else heading ++ ":\n" ++ String.join lines

/-- The report of a run. -/
def render (o : Outcome) : String :=
  "halt: " ++ o.halt.render ++ "\n" ++
    "steps: " ++ toString o.stats.steps ++ " (local " ++ toString o.stats.localDecisions ++
    ", oracle " ++ toString o.stats.oracleCalls ++ ")\n" ++
    "heap objects: " ++ toString o.stats.heapObjects ++ ", closures: " ++
    toString o.stats.closures ++ ", symbols: " ++ toString o.stats.symbolCount ++ "\n" ++
    titled "variables"
      (o.state.visibleVars.entries.map fun (name, v) =>
        "  " ++ name ++ " = " ++ v.render ++ "\n") ++
    titled "path conditions" (o.state.pathConditions.map fun c => "  " ++ c ++ "\n") ++
    (match o.trace with
      | some t => "trace:\n" ++ String.join (t.steps.map TraceStep.render)
      | none => "")

end Outcome

end SymbolicVM

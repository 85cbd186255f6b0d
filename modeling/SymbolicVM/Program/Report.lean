import SymbolicVM.Program
import SymbolicVM.Registry

/-!
# Figures of a program

The graph and the registry of a program, and how many instructions, blocks, functions and classes it
has.
-/

namespace SymbolicVM

namespace Program

/-- The control-flow graph of a program. -/
def graph (p : Program) : FlowGraph :=
  FlowGraph.ofInstructions p.instructions

/-- The registry of a program. -/
def registry (p : Program) : Registry :=
  Registry.build p.instructions p.graph

/-- The figures of a program. -/
def renderStats (p : Program) : String :=
  let g := p.graph
  let r := p.registry
  let line (heading : String) (n : Nat) : String := heading ++ ": " ++ toString n ++ "\n"
  (match p.language with
    | some language => "language: " ++ language ++ "\n"
    | none => "") ++
    line "instructions" p.instructions.length ++
    line "blocks" g.size ++
    line "edges" g.edgeCount ++
    line "functions" r.parameters.size ++
    line "classes" r.classes.size ++
    "opcodes:\n" ++
    String.join ((opcodeCounts p.instructions).map fun (op, n) =>
      "  " ++ Text.padRight 16 op.name ++ " " ++ toString n ++ "\n")

end Program

end SymbolicVM

import SymbolicVM.FlowGraph.Basic

/-!
# Diagrams

A control-flow graph as a Mermaid flowchart: a node for each block, a subgraph for each range of
blocks that belongs to a function or class, and an edge for each successor. A block inside a
subgraph is drawn there and not again outside.
-/

namespace SymbolicVM.FlowGraph

/-- How much of an instruction a node shows. -/
def maxShownWidth : Nat := 60

/-- Replaces the characters that a diagram gives a meaning to. -/
def escapeChar (c : Char) : List Char :=
  match c with
  | '"' => "#quot;".toList
  | '<' => "#lt;".toList
  | '>' => "#gt;".toList
  | _ => [c]

/-- A text as it may stand inside a node. -/
def escape (s : String) : String :=
  String.ofList (s.toList.flatMap escapeChar)

/-- The identifier of the node of a label: blanks and hyphens become underscores. -/
def nodeId (label : String) : String :=
  String.ofList (label.toList.map fun c => if c = ' ' ∨ c = '-' then '_' else c)

/-- An instruction as a node shows it, cut when it is too wide. -/
def shownInstruction (inst : Instruction) : String :=
  let cs := inst.render.toList
  if maxShownWidth < cs.length then
    escape (String.ofList (cs.take maxShownWidth) ++ "...")
  else escape (String.ofList cs)

/-- The line that defines the node of a block. -/
def nodeLine (indent : String) (b : Block) : String :=
  let body :=
    if b.body.isEmpty then "(empty)" else String.intercalate "<br/>" (b.body.map shownInstruction)
  indent ++ nodeId b.label ++ "[\"<b>" ++ escape b.label ++ "</b><br/>" ++ body ++ "\"]\n"

/-- A range of blocks with a title; the end is not part of it. -/
structure Region where
  title : String
  first : Nat
  finish : Nat
deriving DecidableEq

/-- The title of the region that a label begins, and the label that ends it. -/
def regionBounds? (label : String) : Option (String × String) :=
  match Text.stripHead? functionHead label with
  | some rest => some ("fn " ++ rest, "end_" ++ rest)
  | none =>
    match Text.stripHead? "class_" label with
    | some rest => some ("class " ++ rest, "end_class_" ++ rest)
    | none => none

/-- The regions of functions and classes whose end label comes after their first block. -/
def regions (g : FlowGraph) : List Region :=
  g.blocks.zipIdx.filterMap fun (b, i) => do
    let (title, endLabel) ← regionBounds? b.label
    let offset ← (g.blocks.drop (i + 1)).findIdx? fun later => later.label == endLabel
    return ⟨title, i, i + 1 + offset⟩

/-- Whether a block lies in some region. -/
def isGrouped (groups : List Region) (i : Nat) : Bool :=
  groups.any fun r => r.first ≤ i && i < r.finish

/-- The lines of a region: its title, its nodes, its end. -/
def regionLines (g : FlowGraph) (r : Region) : String :=
  "    subgraph " ++ nodeId r.title ++ "[\"" ++ escape r.title ++ "\"]\n" ++
    String.join (((g.blocks.drop r.first).take (r.finish - r.first)).map (nodeLine "        ")) ++
    "    end\n"

/-- The lines of the edges of a block. The two sides of a conditional branch are marked. -/
def edgeLines (b : Block) : List String :=
  let source := nodeId b.label
  let conditional : Bool := match b.last? with
    | some inst => inst.opcode = .branchIf
    | none => false
  match b.successors with
  | [onTrue, onFalse] =>
    if conditional then
      ["    " ++ source ++ " -->|\"T\"| " ++ nodeId onTrue ++ "\n",
        "    " ++ source ++ " -->|\"F\"| " ++ nodeId onFalse ++ "\n"]
    else b.successors.map fun s => "    " ++ source ++ " --> " ++ nodeId s ++ "\n"
  | successors => successors.map fun s => "    " ++ source ++ " --> " ++ nodeId s ++ "\n"

/-- The flowchart of a graph. -/
def diagram (g : FlowGraph) : String :=
  let groups := regions g
  let loose := (g.blocks.zipIdx.filter fun (_, i) => !isGrouped groups i).map (·.1)
  "flowchart TD\n" ++
    String.join (loose.map (nodeLine "    ")) ++
    String.join (groups.map (regionLines g)) ++
    String.join (g.blocks.flatMap edgeLines) ++
    (match g.entry? with
      | some label => "    style " ++ nodeId label ++ " fill:#28a745,color:#fff\n"
      | none => "")

end SymbolicVM.FlowGraph

import SymbolicVM.Instruction.Basic

/-!
# Control-flow graphs

The blocks of a program in the order of the listing, each with the labels of the blocks that control
may move to and come from. A block begins at a label and after an instruction that moves control.
Its name is its label; a block without one, or with one that is taken, is named after the position
of its first instruction.
-/

namespace SymbolicVM

/-- A run of instructions that control enters at the start and leaves at the end. -/
structure Block where
  label : String
  /-- The position of the block's first instruction in the program, its own label included. -/
  start : Nat
  /-- The instructions without the leading label. -/
  body : List Instruction
  successors : List String
  predecessors : List String
deriving DecidableEq, Inhabited

/-- The instruction that ends a block. -/
def Block.last? (b : Block) : Option Instruction :=
  b.body.getLast?

/-- The blocks of a program in the order of the listing. -/
structure FlowGraph where
  blocks : List Block
deriving DecidableEq, Inhabited

namespace FlowGraph

/-- The head of the names of blocks that have no label of their own. -/
def positionHead : String := "__block_"

/-- The name of the block that begins at a position. -/
def positionName (start : Nat) : String :=
  positionHead ++ toString start

/-! ### Looking blocks up -/

/-- The block with a label; where several blocks have it, the last of them. -/
def block? (g : FlowGraph) (label : String) : Option Block :=
  g.blocks.reverse.find? fun b => b.label == label

/-- Whether a block has the label. -/
def contains (g : FlowGraph) (label : String) : Bool :=
  g.blocks.any fun b => b.label == label

/-- The labels of the blocks, in order. -/
def labels (g : FlowGraph) : List String :=
  g.blocks.map (·.label)

/-- The label of the first block; an empty program has none. -/
def entry? (g : FlowGraph) : Option String :=
  g.blocks.head?.map (·.label)

/-- The number of blocks. -/
def size (g : FlowGraph) : Nat :=
  g.blocks.length

/-- The number of edges. -/
def edgeCount (g : FlowGraph) : Nat :=
  g.blocks.foldl (fun n b => n + b.successors.length) 0

/-! ### Cutting a program into blocks -/

/-- Cuts a program before every label and after every instruction that moves control. -/
def segments : List Instruction → List (List Instruction)
  | [] => []
  | [inst] => [[inst]]
  | inst :: next :: rest =>
    if inst.opcode.endsBlock || next.isLabel then [inst] :: segments (next :: rest)
    else
      match segments (next :: rest) with
      | [] => [[inst]]
      | segment :: more => (inst :: segment) :: more

/-- A block without its edges. -/
structure Segment where
  label : String
  start : Nat
  body : List Instruction

/-- The label that a run of instructions begins with, and the instructions after it. -/
def splitLabel (insts : List Instruction) : Option String × List Instruction :=
  match insts with
  | first :: rest => if first.isLabel then (first.label, rest) else (none, insts)
  | [] => (none, [])

/-- Names the segments of a program from a position on. A label that an earlier block has already is
not taken again. -/
def nameSegments (start : Nat) (taken : List String) : List (List Instruction) → List Segment
  | [] => []
  | insts :: rest =>
    let (wanted, body) := splitLabel insts
    let label := match wanted with
      | some name => if taken.contains name then positionName start else name
      | none => positionName start
    ⟨label, start, body⟩ :: nameSegments (start + insts.length) (label :: taken) rest

/-! ### Edges -/

/-- The position of the last segment with a label. -/
def lastIndex? (segments : List Segment) (label : String) : Option Nat :=
  (segments.zipIdx.reverse.find? fun s => s.1.label == label).map (·.2)

/-- The positions of the segments that control may move to from the segment at a position, in order.
A branch leads to its targets as far as they exist, a return or throw nowhere, anything else to the
next segment. -/
def edgesFrom (segments : List Segment) (position : Nat) (segment : Segment) : List Nat :=
  let next := if position + 1 < segments.length then [position + 1] else []
  match segment.body.getLast? with
  | none => next
  | some last =>
    match last.opcode with
    | .branch | .branchIf => last.targets.filterMap (lastIndex? segments)
    | .ret | .throw => []
    | _ => next

/-- The label of the segment at a position. -/
def labelAt? (segments : List Segment) (position : Nat) : Option String :=
  segments[position]?.map (·.label)

/-- The graph of segments: successors in the order of the edges, predecessors in the order of the
listing, each label once. -/
def ofSegments (segments : List Segment) : FlowGraph :=
  let edges := segments.zipIdx.map fun (segment, i) => (segment.label, edgesFrom segments i segment)
  ⟨segments.zipIdx.map fun (segment, i) =>
    { label := segment.label
      start := segment.start
      body := segment.body
      successors := ((edgesFrom segments i segment).filterMap (labelAt? segments)).eraseDups
      predecessors := ((edges.filter fun e => e.2.contains i).map (·.1)).eraseDups }⟩

/-- The control-flow graph of a program. -/
def ofInstructions (insts : List Instruction) : FlowGraph :=
  ofSegments (nameSegments 0 [] (segments insts))

/-- Whether some label of the program is not taken because an earlier block has it. -/
def hasDuplicateLabel (insts : List Instruction) : Bool :=
  let named := nameSegments 0 [] (segments insts)
  (segments insts).zipIdx.any fun (run, i) =>
    match (splitLabel run).1 with
    | some wanted => (named.take i).any fun earlier => earlier.label == wanted
    | none => false

/-! ### Text -/

/-- A list of labels for readers. -/
def renderLabels (labels : List String) : String :=
  if labels.isEmpty then "(none)" else String.intercalate ", " labels

/-- The lines of a block. -/
def renderBlock (b : Block) : String :=
  "[" ++ b.label ++ "]  preds=" ++ renderLabels b.predecessors ++ "  succs=" ++
    renderLabels b.successors ++ "\n" ++
    String.join (b.body.map fun inst => "  " ++ inst.render ++ "\n") ++ "\n"

/-- All blocks, and how many blocks and edges there are. -/
def render (g : FlowGraph) : String :=
  String.join (g.blocks.map renderBlock) ++ toString g.size ++ " blocks, " ++
    toString g.edgeCount ++ " edges\n"

end FlowGraph

end SymbolicVM

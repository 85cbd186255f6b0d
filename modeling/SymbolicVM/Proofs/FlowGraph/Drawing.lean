import SymbolicVM.FlowGraph.Diagram
import SymbolicVM.Proofs.FlowGraph.Edges
import SymbolicVM.Proofs.Text.Split
import Mathlib.Data.List.Nodup
import Mathlib.Tactic.SplitIfs

/-!
# What a diagram draws

A diagram is a list of lines, each of which is there for one thing: a block, the beginning or the
end of a subgraph, an edge (`FlowGraph.diagram_eq`). A block is drawn in the subgraph that is open
at its line, or in none (`FlowGraph.drawnIn`).

A block that no region holds is drawn once, outside of all subgraphs; any other block is drawn once
in the subgraph of each region that holds it and not outside (`FlowGraph.places_eq`). So regions
that lie in one another make the blocks of the inner one appear twice: every block is drawn once
exactly if no region begins inside another (`FlowGraph.places_length_iff`).
-/

namespace SymbolicVM.FlowGraph

variable {g : FlowGraph} {r : Region} {i : Nat}

/-! ### Lines -/

/-- The instructions of a block as its node shows them. -/
def shownBody (b : Block) : String :=
  if b.body.isEmpty then "(empty)" else String.intercalate "<br/>" (b.body.map shownInstruction)

/-- A line of a diagram by what it is there for. -/
inductive Line where
  | header
  /-- The node of the block at a position. -/
  | node (indent : String) (position : Nat) (b : Block)
  /-- The subgraph of a region begins. -/
  | opening (r : Region)
  /-- The open subgraph ends. -/
  | closing
  /-- An edge between the blocks with two labels, and its mark. -/
  | edge (source mark target : String)
  /-- The first block stands out. -/
  | entry (label : String)

/-- A line without the line feed that ends it. -/
def Line.text : Line → String
  | .header => "flowchart TD"
  | .node indent _ b =>
    indent ++ nodeId b.label ++ "[\"<b>" ++ escape b.label ++ "</b><br/>" ++ shownBody b ++ "\"]"
  | .opening r => "    subgraph " ++ nodeId r.title ++ "[\"" ++ escape r.title ++ "\"]"
  | .closing => "    end"
  | .edge source mark target => "    " ++ nodeId source ++ " -->" ++ mark ++ " " ++ nodeId target
  | .entry label => "    style " ++ nodeId label ++ " fill:#28a745,color:#fff"

theorem text_node (indent : String) (position : Nat) (b : Block) :
    (Line.node indent position b).text = indent ++ nodeId b.label ++ "[\"<b>" ++ escape b.label ++
      "</b><br/>" ++ shownBody b ++ "\"]" := rfl

theorem text_opening (r : Region) : (Line.opening r).text =
    "    subgraph " ++ nodeId r.title ++ "[\"" ++ escape r.title ++ "\"]" := rfl

theorem text_edge (source mark target : String) : (Line.edge source mark target).text =
    "    " ++ nodeId source ++ " -->" ++ mark ++ " " ++ nodeId target := rfl

theorem text_entry (label : String) :
    (Line.entry label).text = "    style " ++ nodeId label ++ " fill:#28a745,color:#fff" := rfl

/-- The nodes of some blocks, each with its position. -/
def nodes (indent : String) (blocks : List (Block × Nat)) : List Line :=
  blocks.map fun e => .node indent e.2 e.1

/-- The blocks that stand in no region. -/
def looseBlocks (g : FlowGraph) : List (Block × Nat) :=
  g.blocks.zipIdx.filter fun e => !isGrouped g.regions e.2

/-- The blocks of a region. -/
def blocksOf (g : FlowGraph) (r : Region) : List (Block × Nat) :=
  (g.blocks.zipIdx.drop r.first).take (r.finish - r.first)

/-- The subgraph of a region. -/
def subgraph (g : FlowGraph) (r : Region) : List Line :=
  [.opening r] ++ nodes "        " (g.blocksOf r) ++ [.closing]

/-- Whether a block ends with a conditional branch that has two targets. -/
def branchesTwoWays (b : Block) : Bool :=
  (b.last?.any fun inst => inst.opcode = .branchIf) && b.successors.length = 2

/-- The edges of a block. -/
def edges (b : Block) : List Line :=
  if branchesTwoWays b then List.zipWith (.edge b.label) ["|\"T\"|", "|\"F\"|"] b.successors
  else b.successors.map (.edge b.label "")

/-- The lines of the diagram of a graph. -/
def diagramLines (g : FlowGraph) : List Line :=
  [.header] ++ nodes "    " g.looseBlocks ++ g.regions.flatMap g.subgraph ++
    g.blocks.flatMap edges ++ (Option.map Line.entry g.entry?).toList

/-- The lines as one text, each with its line feed. -/
def textOf (ls : List Line) : String :=
  String.join (ls.map fun l => l.text ++ "\n")

theorem textOf_singleton (l : Line) : textOf [l] = l.text ++ "\n" := by
  rw [textOf, List.map_singleton, String.join_cons, String.join_nil, String.append_empty]

theorem textOf_append (ls ls' : List Line) : textOf (ls ++ ls') = textOf ls ++ textOf ls' := by
  rw [textOf, List.map_append, String.join_append]
  rfl

theorem textOf_nodes (indent : String) (blocks : List (Block × Nat)) :
    textOf (nodes indent blocks) = String.join ((blocks.map Prod.fst).map (nodeLine indent)) := by
  have hline (e : Block × Nat) :
      (Line.node indent e.2 e.1).text ++ "\n" = nodeLine indent e.1 := by
    rw [text_node, String.append_assoc]
    rfl
  simp only [textOf, nodes, List.map_map, Function.comp_def, hline]

theorem textOf_subgraph (g : FlowGraph) (r : Region) :
    textOf (g.subgraph r) = regionLines g r := by
  have hblocks : (g.blocksOf r).map Prod.fst =
      (g.blocks.drop r.first).take (r.finish - r.first) := by
    rw [blocksOf, List.map_take, List.map_drop, List.zipIdx_map_fst]
  have hopening : textOf [.opening r] =
      "    subgraph " ++ nodeId r.title ++ "[\"" ++ escape r.title ++ "\"]\n" := by
    rw [textOf_singleton, text_opening, String.append_assoc]
    rfl
  have hclosing : textOf [.closing] = "    end\n" := rfl
  rw [subgraph, textOf_append, textOf_append, hopening, textOf_nodes, hblocks, hclosing]
  unfold regionLines
  rfl

theorem textOf_edges (b : Block) : textOf (edges b) = String.join (edgeLines b) := by
  have hline {mark arrow : String} (harrow : " -->" ++ (mark ++ " ") = arrow) (target : String) :
      (Line.edge b.label mark target).text ++ "\n" =
        "    " ++ nodeId b.label ++ arrow ++ nodeId target ++ "\n" := by
    rw [← harrow]
    simp only [text_edge, String.append_assoc]
  have hplain := hline (show " -->" ++ ("" ++ " ") = " --> " from rfl)
  have htrue := hline (show " -->" ++ ("|\"T\"|" ++ " ") = " -->|\"T\"| " from rfl)
  have hfalse := hline (show " -->" ++ ("|\"F\"|" ++ " ") = " -->|\"F\"| " from rfl)
  have hall : textOf (b.successors.map (.edge b.label "")) = String.join
      (b.successors.map fun s => "    " ++ nodeId b.label ++ " --> " ++ nodeId s ++ "\n") := by
    simp only [textOf, List.map_map, Function.comp_def, hplain]
  unfold edges branchesTwoWays edgeLines
  generalize b.successors = successors at hall ⊢
  -- only a block with two successors can have marks
  cases successors with
  | nil => simpa using hall
  | cons first rest =>
    cases rest with
    | nil => simpa using hall
    | cons second rest =>
      cases rest with
      | cons third rest => simpa using hall
      | nil =>
        cases b.last? with
        | none => simpa using hall
        | some inst =>
          by_cases h : inst.opcode = .branchIf
          · simp [h, textOf, htrue, hfalse]
          · simpa [h] using hall

/-- **A diagram is its lines.** -/
theorem diagram_eq (g : FlowGraph) : g.diagram = textOf g.diagramLines := by
  have hheader : textOf [.header] = "flowchart TD\n" := rfl
  have hregions (rs : List Region) :
      textOf (rs.flatMap g.subgraph) = String.join (rs.map (regionLines g)) := by
    induction rs with
    | nil => rfl
    | cons r rs ih =>
      rw [List.flatMap_cons, textOf_append, textOf_subgraph, ih, List.map_cons, String.join_cons]
  have hedges (blocks : List Block) :
      textOf (blocks.flatMap edges) = String.join (blocks.flatMap edgeLines) := by
    induction blocks with
    | nil => rfl
    | cons b blocks ih =>
      rw [List.flatMap_cons, textOf_append, textOf_edges, ih, List.flatMap_cons,
        String.join_append]
  have hentry (label : String) : textOf [.entry label] =
      "    style " ++ nodeId label ++ " fill:#28a745,color:#fff\n" := by
    rw [textOf_singleton, text_entry, String.append_assoc]
    rfl
  rw [diagramLines, textOf_append, textOf_append, textOf_append, textOf_append, hheader,
    textOf_nodes, hregions, hedges]
  unfold diagram
  cases g.entry? with
  | none => rfl
  | some label =>
    rw [Option.map_some, Option.toList_some, hentry]
    rfl

/-! ### Regions -/

/-- The block at a position lies in the region. -/
def Region.Holds (r : Region) (i : Nat) : Prop :=
  r.first ≤ i ∧ i < r.finish

instance (r : Region) (i : Nat) : Decidable (r.Holds i) :=
  inferInstanceAs (Decidable (_ ∧ _))

/-- A region reaches from the block of a function or class to the next block with the label that
ends it. -/
def IsRegion (g : FlowGraph) (r : Region) : Prop :=
  ∃ endLabel, g.labels[r.first]?.bind regionBounds? = some (r.title, endLabel) ∧
    r.first < r.finish ∧ g.labels[r.finish]? = some endLabel ∧
      ∀ j, r.first < j → j < r.finish → g.labels[j]? ≠ some endLabel

/-- The next block with a label. -/
theorem findIdx?_drop_blocks {label : String} {start offset : Nat} :
    (g.blocks.drop start).findIdx? (fun later => later.label == label) = some offset ↔
      g.labels[start + offset]? = some label ∧
        ∀ j, start ≤ j → j < start + offset → g.labels[j]? ≠ some label := by
  have hlabel (k : Nat) (hk : k < (g.blocks.drop start).length) :
      ((g.blocks.drop start)[k].label == label) = true ↔ g.labels[start + k]? = some label := by
    have hlt : start + k < g.blocks.length := by
      rw [List.length_drop] at hk
      omega
    rw [List.getElem_drop, labels, List.getElem?_map, List.getElem?_eq_getElem hlt]
    simp
  rw [List.findIdx?_eq_some_iff_getElem]
  constructor
  · rintro ⟨hlt, hfound, hearlier⟩
    refine ⟨(hlabel offset hlt).mp hfound, fun j hj hlast => ?_⟩
    have hnot := hearlier (j - start) (by omega)
    rwa [hlabel, Nat.add_sub_cancel' hj] at hnot
  · rintro ⟨hfound, hearlier⟩
    have hlt : offset < (g.blocks.drop start).length := by
      have hbound := (List.getElem?_eq_some_iff.mp hfound).1
      rw [labels, List.length_map] at hbound
      rw [List.length_drop]
      omega
    refine ⟨hlt, (hlabel offset hlt).mpr hfound, fun k hk => ?_⟩
    rw [hlabel]
    exact hearlier (start + k) (by omega) (by omega)

theorem mem_regions : r ∈ g.regions ↔ g.IsRegion r := by
  rw [regions, List.mem_filterMap]
  constructor
  · rintro ⟨⟨b, i⟩, hmem, hr⟩
    rw [List.mem_zipIdx_iff_getElem?] at hmem
    obtain ⟨⟨title, endLabel⟩, hbounds, hr⟩ := Option.bind_eq_some_iff.mp hr
    obtain ⟨offset, hnext, hr⟩ := Option.bind_eq_some_iff.mp hr
    obtain rfl := Option.some.inj hr
    obtain ⟨hends, hnext⟩ := findIdx?_drop_blocks.mp hnext
    refine ⟨endLabel, ?_, by dsimp only; omega, hends, hnext⟩
    rw [labels, List.getElem?_map, hmem]
    exact hbounds
  · rintro ⟨endLabel, hbegins, hafter, hends, hnext⟩
    obtain ⟨label, hlabel, hbounds⟩ := Option.bind_eq_some_iff.mp hbegins
    rw [labels, List.getElem?_map] at hlabel
    obtain ⟨b, hb, rfl⟩ := Option.map_eq_some_iff.mp hlabel
    have hfinish : r.first + 1 + (r.finish - (r.first + 1)) = r.finish := by omega
    have hfound : (g.blocks.drop (r.first + 1)).findIdx? (fun later => later.label == endLabel) =
        some (r.finish - (r.first + 1)) := by
      rw [findIdx?_drop_blocks, hfinish]
      exact ⟨hends, hnext⟩
    refine ⟨(b, r.first), List.mem_zipIdx_iff_getElem?.mpr hb, ?_⟩
    simp only [hbounds, hfound, Option.bind_eq_bind, Option.bind_some, hfinish]
    rfl

theorem IsRegion.first_lt (h : g.IsRegion r) : r.first < r.finish := by
  obtain ⟨endLabel, -, hafter, -⟩ := h
  exact hafter

theorem IsRegion.finish_lt (h : g.IsRegion r) : r.finish < g.size := by
  obtain ⟨endLabel, -, -, hends, -⟩ := h
  have hbound := (List.getElem?_eq_some_iff.mp hends).1
  rwa [labels, List.length_map] at hbound

theorem pairwise_positions (g : FlowGraph) : g.blocks.zipIdx.Pairwise (·.2 < ·.2) := by
  rw [← List.pairwise_map, List.zipIdx_map_snd]
  exact List.pairwise_lt_range'

/-- A block begins at most one region. -/
theorem nodup_regions (g : FlowGraph) : g.regions.Nodup := by
  rw [regions, List.Nodup, List.pairwise_filterMap]
  refine g.pairwise_positions.imp fun {e e'} hlt r hr r' hr' => ?_
  obtain ⟨bounds, -, hr⟩ := Option.bind_eq_some_iff.mp hr
  obtain ⟨offset, -, hr⟩ := Option.bind_eq_some_iff.mp hr
  obtain ⟨bounds', -, hr'⟩ := Option.bind_eq_some_iff.mp hr'
  obtain ⟨offset', -, hr'⟩ := Option.bind_eq_some_iff.mp hr'
  have hfirst : r.first = e.2 := congrArg Region.first (Option.some.inj hr).symm
  have hfirst' : r'.first = e'.2 := congrArg Region.first (Option.some.inj hr').symm
  rintro rfl
  omega

theorem isGrouped_iff {groups : List Region} :
    isGrouped groups i = true ↔ ∃ r ∈ groups, r.Holds i := by
  simp [isGrouped, Region.Holds]

/-- No region begins inside another. -/
def Unnested (g : FlowGraph) : Prop :=
  ∀ r r', g.IsRegion r → g.IsRegion r' → r.Holds r'.first → r' = r

/-! ### Nodes -/

/-- Where the block at a position is drawn, line by line: the region whose subgraph is open. -/
def drawnIn (i : Nat) : Option Region → List Line → List (Option Region)
  | _, [] => []
  | current, .node _ position _ :: rest =>
    if position = i then current :: drawnIn i current rest else drawnIn i current rest
  | _, .opening r :: rest => drawnIn i (some r) rest
  | _, .closing :: rest => drawnIn i none rest
  | current, .header :: rest => drawnIn i current rest
  | current, .edge _ _ _ :: rest => drawnIn i current rest
  | current, .entry _ :: rest => drawnIn i current rest

/-- Where the diagram of a graph draws the block at a position. -/
def places (g : FlowGraph) (i : Nat) : List (Option Region) :=
  drawnIn i none g.diagramLines

theorem drawnIn_nodes {blocks : List (Block × Nat)} (h : blocks.Pairwise (·.2 < ·.2))
    (current : Option Region) (indent : String) (rest : List Line) :
    drawnIn i current (nodes indent blocks ++ rest) =
      (if i ∈ blocks.map Prod.snd then [current] else []) ++ drawnIn i current rest := by
  induction blocks with
  | nil => rfl
  | cons e blocks ih =>
    obtain ⟨hlater, hblocks⟩ := List.pairwise_cons.mp h
    have hcons : nodes indent (e :: blocks) ++ rest =
        .node indent e.2 e.1 :: (nodes indent blocks ++ rest) := rfl
    rw [hcons, drawnIn, ih hblocks, List.map_cons]
    by_cases heq : e.2 = i
    · -- the later blocks have later positions
      have hnot : i ∉ blocks.map Prod.snd := by
        intro hmem
        obtain ⟨e', he', hi⟩ := List.mem_map.mp hmem
        have hlt := hlater e' he'
        omega
      rw [if_pos heq, if_neg hnot, if_pos (heq ▸ List.mem_cons_self)]
      rfl
    · rw [if_neg heq]
      simp only [List.mem_cons, Ne.symm heq, false_or]

theorem snd_mem_blocksOf (h : g.IsRegion r) : i ∈ (g.blocksOf r).map Prod.snd ↔ r.Holds i := by
  have hfirst := h.first_lt
  have hfinish : r.finish < g.blocks.length := h.finish_lt
  rw [blocksOf, List.map_take, List.map_drop, List.zipIdx_map_snd, List.take_drop,
    ← List.range_eq_range', List.take_range, List.range_eq_range', List.drop_range',
    List.mem_range'_1, Region.Holds]
  omega

theorem snd_mem_looseBlocks (hi : i < g.size) :
    i ∈ g.looseBlocks.map Prod.snd ↔ isGrouped g.regions i = false := by
  rw [List.mem_map]
  constructor
  · rintro ⟨e, he, rfl⟩
    simpa using (List.mem_filter.mp he).2
  · intro hloose
    have hlt : i < g.blocks.length := hi
    refine ⟨(g.blocks[i], i), List.mem_filter.mpr ⟨?_, by simpa using hloose⟩, rfl⟩
    exact List.mem_zipIdx_iff_getElem?.mpr (List.getElem?_eq_getElem hlt)

/-- The subgraphs, one after the other: a block is drawn once in each that holds it. -/
theorem drawnIn_subgraphs {rs : List Region} (h : ∀ r ∈ rs, g.IsRegion r) (rest : List Line) :
    drawnIn i none (rs.flatMap g.subgraph ++ rest) =
      (rs.filter (·.Holds i)).map some ++ drawnIn i none rest := by
  induction rs with
  | nil => rfl
  | cons r rs ih =>
    obtain ⟨hr, hrs⟩ := List.forall_mem_cons.mp h
    have hsorted : (g.blocksOf r).Pairwise (·.2 < ·.2) :=
      g.pairwise_positions.sublist ((List.take_sublist _ _).trans (List.drop_sublist _ _))
    have hcons : (r :: rs).flatMap g.subgraph ++ rest = .opening r ::
        (nodes "        " (g.blocksOf r) ++ .closing :: (rs.flatMap g.subgraph ++ rest)) := by
      simp [subgraph]
    rw [hcons, drawnIn, drawnIn_nodes hsorted, drawnIn, ih hrs, List.filter_cons]
    simp only [snd_mem_blocksOf hr, decide_eq_true_eq]
    split_ifs
    · rfl
    · rfl

theorem edges_cases (b : Block) :
    (∃ s s', b.successors = [s, s'] ∧
      edges b = [.edge b.label "|\"T\"|" s, .edge b.label "|\"F\"|" s']) ∨
      edges b = b.successors.map (.edge b.label "") := by
  unfold edges
  split_ifs with htwo
  · rw [branchesTwoWays, Bool.and_eq_true, decide_eq_true_eq] at htwo
    obtain ⟨s, s', hsuccessors⟩ := List.length_eq_two.mp htwo.2
    exact .inl ⟨s, s', hsuccessors, by rw [hsuccessors]; rfl⟩
  · exact .inr rfl

/-- The two ends of an edge. -/
def Line.edge? : Line → Option (String × String)
  | .edge source _ target => some (source, target)
  | _ => none

theorem filterMap_edge?_edges (b : Block) :
    (edges b).filterMap Line.edge? = b.successors.map fun s => (b.label, s) := by
  obtain ⟨s, s', hsuccessors, hedges⟩ | hedges := edges_cases b
  · rw [hedges, hsuccessors]
    rfl
  · rw [hedges, List.filterMap_map]
    exact congrFun List.filterMap_eq_map' b.successors

theorem exists_eq_edge {b : Block} {l : Line} (h : l ∈ edges b) :
    ∃ mark ∈ ["", "|\"T\"|", "|\"F\"|"], ∃ s ∈ b.successors, l = .edge b.label mark s := by
  obtain ⟨s, s', hsuccessors, hedges⟩ | hedges := edges_cases b
  · rw [hedges] at h
    simp only [List.mem_cons, List.not_mem_nil, or_false] at h
    rw [hsuccessors]
    rcases h with rfl | rfl
    · exact ⟨_, by simp, s, by simp, rfl⟩
    · exact ⟨_, by simp, s', by simp, rfl⟩
  · rw [hedges] at h
    obtain ⟨s, hs, rfl⟩ := List.mem_map.mp h
    exact ⟨_, by simp, s, hs, rfl⟩

/-- Edges draw no blocks. -/
theorem drawnIn_edges {ls : List Line} (h : ∀ l ∈ ls, ∃ e, l.edge? = some e)
    (current : Option Region) (rest : List Line) :
    drawnIn i current (ls ++ rest) = drawnIn i current rest := by
  induction ls with
  | nil => rfl
  | cons l ls ih =>
    obtain ⟨⟨e, he⟩, hls⟩ := List.forall_mem_cons.mp h
    rw [← ih hls]
    cases l with
    | edge source mark target => rfl
    | _ => exact absurd he (by simp [Line.edge?])

/-- **A block that no region holds is drawn once, outside of all subgraphs; any other once in each
region that holds it.** -/
theorem places_eq (hi : i < g.size) :
    g.places i = (if isGrouped g.regions i then [] else [none]) ++
      (g.regions.filter (·.Holds i)).map some := by
  have hlines : g.diagramLines = .header :: (nodes "    " g.looseBlocks ++
      (g.regions.flatMap g.subgraph ++ (g.blocks.flatMap edges ++
        (Option.map Line.entry g.entry?).toList))) := by
    simp [diagramLines]
  have hloose : g.looseBlocks.Pairwise (·.2 < ·.2) :=
    g.pairwise_positions.sublist List.filter_sublist
  have hedges (l : Line) (hl : l ∈ g.blocks.flatMap edges) : ∃ e, l.edge? = some e := by
    obtain ⟨b, -, hb⟩ := List.mem_flatMap.mp hl
    obtain ⟨mark, -, s, -, rfl⟩ := exists_eq_edge hb
    exact ⟨_, rfl⟩
  have hentry : drawnIn i none (Option.map Line.entry g.entry?).toList = [] := by
    cases g.entry? with
    | none => rfl
    | some label => rfl
  rw [places, hlines, drawnIn, drawnIn_nodes hloose, drawnIn_subgraphs fun r => mem_regions.mp,
    drawnIn_edges hedges, hentry, List.append_nil]
  congr 1
  simp only [snd_mem_looseBlocks hi]
  cases isGrouped g.regions i with
  | true => rfl
  | false => rfl

/-- What the diagram of a graph has lines for. -/
inductive LineOf (g : FlowGraph) : Line → Prop where
  | header : LineOf g .header
  | node {indent : String} {i : Nat} {b : Block} (hindent : indent ∈ ["    ", "        "])
    (hb : g.blocks[i]? = some b) : LineOf g (.node indent i b)
  | opening {r : Region} (hr : g.IsRegion r) : LineOf g (.opening r)
  | closing : LineOf g .closing
  | edge {b : Block} {mark s : String} (hb : b ∈ g.blocks)
    (hmark : mark ∈ ["", "|\"T\"|", "|\"F\"|"]) (hs : s ∈ b.successors) :
    LineOf g (.edge b.label mark s)
  | entry {b : Block} (hb : b ∈ g.blocks) : LineOf g (.entry b.label)

theorem lineOf_of_mem_nodes {indent : String} {blocks : List (Block × Nat)} {l : Line}
    (hindent : indent ∈ ["    ", "        "]) (hblocks : blocks ⊆ g.blocks.zipIdx)
    (h : l ∈ nodes indent blocks) : LineOf g l := by
  obtain ⟨e, he, rfl⟩ := List.mem_map.mp h
  exact .node hindent (List.mem_zipIdx_iff_getElem?.mp (hblocks he))

theorem lineOf_of_mem {l : Line} (h : l ∈ g.diagramLines) : LineOf g l := by
  simp only [diagramLines, List.mem_append, List.mem_singleton] at h
  rcases h with (((rfl | hloose) | hregion) | hedge) | hentry
  · exact .header
  · exact lineOf_of_mem_nodes (by simp) List.filter_sublist.subset hloose
  · obtain ⟨r, hr, hl⟩ := List.mem_flatMap.mp hregion
    simp only [subgraph, List.mem_append, List.mem_singleton] at hl
    rcases hl with (rfl | hnode) | rfl
    · exact .opening (mem_regions.mp hr)
    · exact lineOf_of_mem_nodes (by simp)
        (((List.take_sublist _ _).trans (List.drop_sublist _ _)).subset) hnode
    · exact .closing
  · obtain ⟨b, hb, hl⟩ := List.mem_flatMap.mp hedge
    obtain ⟨mark, hmark, s, hs, rfl⟩ := exists_eq_edge hl
    exact .edge hb hmark hs
  · unfold FlowGraph.entry? at hentry
    rw [Option.map_map, Option.mem_toList] at hentry
    obtain ⟨b, hb, rfl⟩ := Option.map_eq_some_iff.mp hentry
    exact .entry (List.mem_of_head? hb)

/-- The edges of a diagram are those of the graph. -/
theorem filterMap_edge?_diagramLines (g : FlowGraph) :
    g.diagramLines.filterMap Line.edge? =
      g.blocks.flatMap fun b => b.successors.map fun s => (b.label, s) := by
  have hnodes (indent : String) (blocks : List (Block × Nat)) :
      (nodes indent blocks).filterMap Line.edge? = [] := by
    rw [List.filterMap_eq_nil_iff]
    intro l hl
    obtain ⟨e, -, rfl⟩ := List.mem_map.mp hl
    rfl
  have hregions : (g.regions.flatMap g.subgraph).filterMap Line.edge? = [] := by
    rw [List.filterMap_flatMap, List.flatMap_eq_nil_iff]
    intro r _
    rw [subgraph, List.filterMap_append, List.filterMap_append, hnodes]
    rfl
  have hentry : (Option.map Line.entry g.entry?).toList.filterMap Line.edge? = [] := by
    cases g.entry? with
    | none => rfl
    | some label => rfl
  have hheader : [Line.header].filterMap Line.edge? = [] := rfl
  simp only [diagramLines, List.filterMap_append, hheader, hnodes, hregions, hentry,
    List.filterMap_flatMap, filterMap_edge?_edges, List.nil_append, List.append_nil]

theorem length_edges (blocks : List Block) :
    (blocks.flatMap fun b => b.successors.map fun s => (b.label, s)).length =
      blocks.foldl (fun n b => n + b.successors.length) 0 := by
  induction blocks with
  | nil => rfl
  | cons b blocks ih =>
    have hfold := foldl_add_eq (fun b : Block => b.successors.length) blocks
      (0 + b.successors.length)
    rw [List.flatMap_cons, List.length_append, List.length_map, ih, List.foldl_cons]
    omega

/-! ### Blocks that are drawn once -/

/-- The block at a position is drawn in the subgraph of each region that holds it, outside of all
subgraphs if there is none, and nowhere twice. -/
structure DrawnAt (g : FlowGraph) (i : Nat) : Prop where
  nodup : (g.places i).Nodup
  outside : none ∈ g.places i ↔ ∀ r, g.IsRegion r → ¬ r.Holds i
  inside : ∀ r, some r ∈ g.places i ↔ g.IsRegion r ∧ r.Holds i

theorem drawnAt_of_lt (hi : i < g.size) : g.DrawnAt i := by
  have hinjective : Function.Injective (some : Region → Option Region) := fun _ _ => Option.some.inj
  have hmem (r : Region) :
      some r ∈ (g.regions.filter (·.Holds i)).map some ↔ g.IsRegion r ∧ r.Holds i := by
    rw [List.mem_map_of_injective hinjective, List.mem_filter, decide_eq_true_eq, mem_regions]
  have hgrouped : isGrouped g.regions i = true ↔ ∃ r, g.IsRegion r ∧ r.Holds i := by
    simp only [isGrouped_iff, mem_regions]
  have hplaces := places_eq hi
  by_cases hgroup : isGrouped g.regions i = true
  · rw [if_pos hgroup, List.nil_append] at hplaces
    obtain ⟨r, hr, hholds⟩ := hgrouped.mp hgroup
    have hnone : none ∉ g.places i := by
      rw [hplaces, List.mem_map]
      rintro ⟨r, -, heq⟩
      exact Option.some_ne_none r heq
    refine ⟨?_, iff_of_false hnone fun hfree => hfree r hr hholds, fun r => hplaces ▸ hmem r⟩
    rw [hplaces]
    exact (g.nodup_regions.filter _).map hinjective
  · have hfree (r : Region) (hr : g.IsRegion r) : ¬ r.Holds i := fun hholds =>
      hgroup (hgrouped.mpr ⟨r, hr, hholds⟩)
    have hnone : g.regions.filter (·.Holds i) = [] :=
      List.filter_eq_nil_iff.mpr fun r hr => by simpa using hfree r (mem_regions.mp hr)
    rw [if_neg hgroup, hnone, List.map_nil, List.append_nil] at hplaces
    refine ⟨?_, ?_, fun r => ?_⟩
    · rw [hplaces]
      exact List.nodup_singleton _
    · rw [hplaces]
      exact iff_of_true (List.mem_singleton_self _) hfree
    · rw [hplaces, List.mem_singleton]
      exact iff_of_false (Option.some_ne_none r) fun h => hfree r h.1 h.2

/-- **Every block is drawn once exactly if no region begins inside another.** -/
theorem places_length_iff (g : FlowGraph) :
    (∀ i < g.size, (g.places i).length = 1) ↔ g.Unnested := by
  constructor
  · intro honce r r' hr hr' hholds
    have hi : r'.first < g.size := Nat.lt_trans hr'.first_lt hr'.finish_lt
    have hdrawn := drawnAt_of_lt hi
    obtain ⟨place, hplace⟩ := List.length_eq_one_iff.mp (honce _ hi)
    have hin := (hdrawn.inside r).mpr ⟨hr, hholds⟩
    have hin' := (hdrawn.inside r').mpr ⟨hr', Nat.le_refl _, hr'.first_lt⟩
    rw [hplace, List.mem_singleton] at hin hin'
    exact Option.some.inj (hin'.trans hin.symm)
  · intro hunnested i hi
    have hdrawn := drawnAt_of_lt hi
    have hone {place : Option Region} (hplace : place ∈ g.places i)
        (hall : ∀ other ∈ g.places i, other = place) : (g.places i).length = 1 := by
      refine List.length_eq_one_iff.mpr ⟨place, Classical.byContradiction fun hne => ?_⟩
      rcases (hdrawn.nodup.ne_singleton_iff place).mp hne with hnil | ⟨other, hother, hne⟩
      · exact List.ne_nil_of_mem hplace hnil
      · exact hne (hall other hother)
    by_cases hheld : ∃ r, g.IsRegion r ∧ r.Holds i
    · obtain ⟨r, hr, hholds⟩ := hheld
      refine hone ((hdrawn.inside r).mpr ⟨hr, hholds⟩) fun other hother => ?_
      cases other with
      | none => exact absurd hholds (hdrawn.outside.mp hother r hr)
      | some r' =>
        -- of two regions that hold a block, the later one begins inside the earlier one
        obtain ⟨hr', hholds'⟩ := (hdrawn.inside r').mp hother
        rcases Nat.le_total r.first r'.first with hle | hle
        · rw [hunnested r r' hr hr' ⟨hle, Nat.lt_of_le_of_lt hholds'.1 hholds.2⟩]
        · rw [hunnested r' r hr' hr ⟨hle, Nat.lt_of_le_of_lt hholds.1 hholds'.2⟩]
    · have hfree (r : Region) (hr : g.IsRegion r) : ¬ r.Holds i := fun hholds =>
        hheld ⟨r, hr, hholds⟩
      refine hone (hdrawn.outside.mpr hfree) fun other hother => ?_
      cases other with
      | none => rfl
      | some r' => exact absurd ((hdrawn.inside r').mp hother) fun h => hfree r' h.1 h.2

/-! ### Lines of the text -/

/-- No label and no instruction of a block has a line feed in its text. -/
def Plain (g : FlowGraph) : Prop :=
  ∀ b ∈ g.blocks, '\n' ∉ b.label.toList ∧ ∀ inst ∈ b.body, '\n' ∉ inst.render.toList

section

variable {s : String}

theorem newline_notMem_append {s' : String} (h : '\n' ∉ s.toList) (h' : '\n' ∉ s'.toList) :
    '\n' ∉ (s ++ s').toList := by
  rw [String.toList_append, List.mem_append, not_or]
  exact ⟨h, h'⟩

theorem newline_notMem_escapeChar {c : Char} (h : c ≠ '\n') : '\n' ∉ escapeChar c := by
  unfold escapeChar
  split
  · decide
  · decide
  · decide
  · exact fun hmem => h (List.mem_singleton.mp hmem).symm

theorem newline_notMem_escape (h : '\n' ∉ s.toList) : '\n' ∉ (escape s).toList := by
  rw [escape, String.toList_ofList, List.mem_flatMap]
  rintro ⟨c, hc, hmem⟩
  exact newline_notMem_escapeChar (fun heq => h (heq ▸ hc)) hmem

theorem newline_notMem_nodeId (h : '\n' ∉ s.toList) : '\n' ∉ (nodeId s).toList := by
  rw [nodeId, String.toList_ofList, List.mem_map]
  rintro ⟨c, hc, heq⟩
  split_ifs at heq
  · exact absurd heq (by decide)
  · exact h (heq ▸ hc)

theorem newline_notMem_shownInstruction {inst : Instruction} (h : '\n' ∉ inst.render.toList) :
    '\n' ∉ (shownInstruction inst).toList := by
  unfold shownInstruction
  dsimp only
  split_ifs
  · refine newline_notMem_escape ?_
    rw [String.toList_append, String.toList_ofList, List.mem_append, not_or]
    exact ⟨fun hmem => h (List.mem_of_mem_take hmem), by decide⟩
  · refine newline_notMem_escape ?_
    rwa [String.toList_ofList]

theorem newline_notMem_intercalate {separator : List Char} (hseparator : '\n' ∉ separator)
    {pieces : List (List Char)} (h : ∀ piece ∈ pieces, '\n' ∉ piece) :
    '\n' ∉ separator.intercalate pieces := by
  induction pieces with
  | nil => exact List.not_mem_nil
  | cons piece rest ih =>
    obtain ⟨hpiece, hrest⟩ := List.forall_mem_cons.mp h
    cases rest with
    | nil => rwa [List.intercalate_singleton]
    | cons next rest =>
      rw [List.intercalate_cons_cons, List.mem_append, List.mem_append, not_or, not_or]
      exact ⟨⟨hpiece, hseparator⟩, ih hrest⟩

theorem newline_notMem_shownBody {b : Block} (h : ∀ inst ∈ b.body, '\n' ∉ inst.render.toList) :
    '\n' ∉ (shownBody b).toList := by
  unfold shownBody
  split_ifs
  · decide
  · rw [String.toList_intercalate]
    refine newline_notMem_intercalate (by decide) fun piece hpiece => ?_
    rw [List.map_map] at hpiece
    obtain ⟨inst, hinst, rfl⟩ := List.mem_map.mp hpiece
    exact newline_notMem_shownInstruction (h inst hinst)

theorem newline_notMem_of_stripHead? {head rest : String} (h : '\n' ∉ s.toList)
    (hstrip : Text.stripHead? head s = some rest) : '\n' ∉ rest.toList := by
  obtain ⟨cs, hcs, rfl⟩ := Option.map_eq_some_iff.mp hstrip
  have happend := Text.eq_append_of_dropHead? hcs
  rw [String.toList_ofList]
  intro hmem
  exact h (happend ▸ List.mem_append_right _ hmem)

theorem newline_notMem_title {label title endLabel : String} (h : '\n' ∉ label.toList)
    (hbounds : regionBounds? label = some (title, endLabel)) : '\n' ∉ title.toList := by
  unfold regionBounds? at hbounds
  cases hfunction : Text.stripHead? functionHead label with
  | some rest =>
    rw [hfunction] at hbounds
    obtain ⟨rfl, -⟩ := Prod.mk.inj (Option.some.inj hbounds)
    exact newline_notMem_append (by decide) (newline_notMem_of_stripHead? h hfunction)
  | none =>
    rw [hfunction] at hbounds
    dsimp only at hbounds
    cases hclass : Text.stripHead? "class_" label with
    | some rest =>
      rw [hclass] at hbounds
      obtain ⟨rfl, -⟩ := Prod.mk.inj (Option.some.inj hbounds)
      exact newline_notMem_append (by decide) (newline_notMem_of_stripHead? h hclass)
    | none =>
      rw [hclass] at hbounds
      exact absurd hbounds (Option.some_ne_none _).symm

/-- No line of a diagram has a line feed before its end. -/
theorem newline_notMem_text (hplain : g.Plain)
    (hclosed : ∀ b ∈ g.blocks, b.successors ⊆ g.labels) {l : Line} (h : LineOf g l) :
    '\n' ∉ l.text.toList := by
  have hlabel {label : String} (hmem : label ∈ g.labels) : '\n' ∉ label.toList := by
    obtain ⟨b, hb, rfl⟩ := List.mem_map.mp hmem
    exact (hplain b hb).1
  cases h with
  | header => decide
  | closing => decide
  | @node indent i b hindent hb =>
    obtain ⟨hname, hbody⟩ := hplain b (List.mem_of_getElem? hb)
    have hblank : ∀ s ∈ ["    ", "        "], '\n' ∉ s.toList := by decide
    simp only [text_node, String.toList_append, List.mem_append, not_or]
    exact ⟨⟨⟨⟨⟨⟨hblank indent hindent, newline_notMem_nodeId hname⟩, by decide⟩,
      newline_notMem_escape hname⟩, by decide⟩, newline_notMem_shownBody hbody⟩, by decide⟩
  | @opening r hr =>
    obtain ⟨endLabel, hbegins, -⟩ := hr
    obtain ⟨label, hfirst, hbounds⟩ := Option.bind_eq_some_iff.mp hbegins
    have htitle := newline_notMem_title (hlabel (List.mem_of_getElem? hfirst)) hbounds
    simp only [text_opening, String.toList_append, List.mem_append, not_or]
    exact ⟨⟨⟨⟨by decide, newline_notMem_nodeId htitle⟩, by decide⟩, newline_notMem_escape htitle⟩,
      by decide⟩
  | @edge b mark s hb hmark hs =>
    have hmarks : ∀ s ∈ ["", "|\"T\"|", "|\"F\"|"], '\n' ∉ s.toList := by decide
    simp only [text_edge, String.toList_append, List.mem_append, not_or]
    exact ⟨⟨⟨⟨⟨by decide, newline_notMem_nodeId (hplain b hb).1⟩, by decide⟩, hmarks mark hmark⟩,
      by decide⟩, newline_notMem_nodeId (hlabel (hclosed b hb hs))⟩
  | @entry b hb =>
    simp only [text_entry, String.toList_append, List.mem_append, not_or]
    exact ⟨⟨by decide, newline_notMem_nodeId (hplain b hb).1⟩, by decide⟩

/-- Where no label and no instruction has a line feed, the lines of the text are those that draw
something, one for one. -/
theorem lines_diagram (hplain : g.Plain) (hclosed : ∀ b ∈ g.blocks, b.successors ⊆ g.labels) :
    Text.lines g.diagram.toList = g.diagramLines.map fun l => l.text.toList := by
  have htext : g.diagram.toList =
      (g.diagramLines.map fun l => l.text.toList).flatMap (· ++ ['\n']) := by
    rw [diagram_eq, textOf, String.toList_join, List.flatMap_map, List.flatMap_map]
    simp only [String.toList_append]
    rfl
  rw [htext, Text.lines_flatMap]
  intro line hline
  obtain ⟨l, hl, rfl⟩ := List.mem_map.mp hline
  exact newline_notMem_text hplain hclosed (lineOf_of_mem hl)

end

/-! ### Diagrams of programs -/

/-- What the diagram of a graph draws. -/
structure Drawn (g : FlowGraph) : Prop where
  text : g.diagram = textOf g.diagramLines
  /-- A node is that of the block at its position. -/
  nodes : ∀ {indent : String} {i : Nat} {b : Block},
    .node indent i b ∈ g.diagramLines → g.blocks[i]? = some b
  blocks : ∀ i < g.size, g.DrawnAt i
  once : (∀ i < g.size, (g.places i).length = 1) ↔ g.Unnested
  edges : g.diagramLines.filterMap Line.edge? =
    g.blocks.flatMap fun b => b.successors.map fun s => (b.label, s)
  counted : (g.diagramLines.filterMap Line.edge?).length = g.edgeCount
  lines : g.Plain → Text.lines g.diagram.toList = g.diagramLines.map fun l => l.text.toList

/-- **The diagram of a program has a line for each edge, and one for each block and each region that
holds it.** A block that no region holds has one line outside of all subgraphs. So every block has
one line exactly if no region begins inside another. -/
theorem drawn_ofInstructions (insts : List Instruction) : Drawn (ofInstructions insts) where
  text := diagram_eq _
  nodes h := by
    cases lineOf_of_mem h with
    | node _ hb => exact hb
  blocks _ hi := drawnAt_of_lt hi
  once := places_length_iff _
  edges := filterMap_edge?_diagramLines _
  counted := by
    rw [filterMap_edge?_diagramLines]
    exact length_edges _
  lines h := lines_diagram h fun _ hb => successors_subset hb

/-- A class with a method. -/
def classWithMethod : List Instruction :=
  ["class_A_0", "func_m_1", "end_m_1", "end_class_A_0"].map fun name =>
    { opcode := .label, label := some name }

/-- The block of a method is drawn with the class and once more on its own. -/
theorem classWithMethod_drawn_twice :
    (ofInstructions classWithMethod).labels =
        ["class_A_0", "func_m_1", "end_m_1", "end_class_A_0"] ∧
      (ofInstructions classWithMethod).places 1 =
        [some ⟨"class A_0", 0, 3⟩, some ⟨"fn m_1", 1, 2⟩] ∧
      ¬ (ofInstructions classWithMethod).Unnested := by
  have hlabels : (ofInstructions classWithMethod).labels =
      ["class_A_0", "func_m_1", "end_m_1", "end_class_A_0"] := by decide +kernel
  have hplaces : (ofInstructions classWithMethod).places 1 =
      [some ⟨"class A_0", 0, 3⟩, some ⟨"fn m_1", 1, 2⟩] := by decide +kernel
  refine ⟨hlabels, hplaces, fun hunnested => ?_⟩
  have honce := (places_length_iff _).mpr hunnested 1 (by decide +kernel)
  rw [hplaces] at honce
  exact absurd honce (by decide)

end SymbolicVM.FlowGraph

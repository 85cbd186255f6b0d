import SymbolicVM.Proofs.FlowGraph.Labels
import Mathlib.Data.List.Perm.Basic
import Mathlib.Tactic.SplitIfs

/-!
# The edges of a graph

An edge leads from one position in the list of blocks to another. A label that is looked up leads to
a position with that label (`FlowGraph.labelAt?_of_lastIndex?`), so the successors that a block
lists are those that its last instruction asks for. Where all labels are distinct, positions and
labels stand for each other (`FlowGraph.labelAt?_inj`), and the predecessors are the same edges read
backwards (`FlowGraph.exactEdges_ofInstructions`).
-/

namespace SymbolicVM

/-! ### Lists without repetitions -/

section Lists

variable {α β : Type}

/-- What is left after repetitions are removed occurs once. -/
theorem nodup_eraseDups [BEq α] [LawfulBEq α] (l : List α) : l.eraseDups.Nodup := by
  cases l with
  | nil => simp
  | cons a rest =>
    rw [List.eraseDups_cons, List.nodup_cons]
    refine ⟨?_, nodup_eraseDups _⟩
    simp [List.mem_eraseDups]
termination_by l.length
decreasing_by exact Nat.lt_succ_of_le (List.length_filter_le _ _)

theorem eraseDups_of_nodup [BEq α] [LawfulBEq α] {l : List α} (h : l.Nodup) :
    l.eraseDups = l := by
  induction l with
  | nil => simp
  | cons a rest ih =>
    obtain ⟨hnot, hrest⟩ := List.nodup_cons.mp h
    have hfilter : rest.filter (fun b => !b == a) = rest := by
      refine List.filter_eq_self.mpr fun b hb => ?_
      have hne : b ≠ a := fun heq => hnot (heq ▸ hb)
      simpa using hne
    rw [List.eraseDups_cons, hfilter, ih hrest]

/-- It makes no difference whether elements are dropped before or after repetitions. -/
theorem filter_eraseDups [BEq α] [LawfulBEq α] (p : α → Bool) (l : List α) :
    l.eraseDups.filter p = (l.filter p).eraseDups := by
  cases l with
  | nil => simp
  | cons a rest =>
    rw [List.eraseDups_cons, List.filter_cons, List.filter_cons,
      filter_eraseDups p (rest.filter fun b => !b == a), List.filter_filter]
    split_ifs with ha
    · rw [List.eraseDups_cons, List.filter_filter]
      simp only [Bool.and_comm]
    · -- the first element is dropped, and so are its repetitions
      have hsame : rest.filter (fun b => p b && !b == a) = rest.filter p := by
        refine List.filter_congr fun b _ => ?_
        by_cases hb : b = a
        · simp [hb, ha]
        · simp [hb]
      rw [hsame]
termination_by l.length
decreasing_by exact Nat.lt_succ_of_le (List.length_filter_le _ _)

/-- Repetitions are the same under names that tell the elements apart. -/
theorem eraseDups_map [BEq α] [LawfulBEq α] [BEq β] [LawfulBEq β] (f : α → β) (l : List α) :
    (∀ a ∈ l, ∀ b ∈ l, f a = f b → a = b) → (l.map f).eraseDups = l.eraseDups.map f := by
  cases l with
  | nil => simp
  | cons a rest =>
    intro hf
    have hrest : (rest.map f).filter (fun b => !b == f a) =
        (rest.filter fun b => !b == a).map f := by
      rw [List.filter_map]
      refine congrArg _ (List.filter_congr fun b hb => ?_)
      have hiff : f b = f a ↔ b = a :=
        ⟨hf b (List.mem_cons_of_mem _ hb) a List.mem_cons_self, fun h => h ▸ rfl⟩
      refine congrArg (!·) ?_
      rw [Bool.eq_iff_iff, beq_iff_eq, beq_iff_eq, hiff]
    rw [List.map_cons, List.eraseDups_cons, List.eraseDups_cons, List.map_cons, hrest,
      eraseDups_map]
    intro b hb c hc
    exact hf b (List.mem_cons_of_mem _ (List.mem_filter.mp hb).1) c
      (List.mem_cons_of_mem _ (List.mem_filter.mp hc).1)
termination_by l.length
decreasing_by exact Nat.lt_succ_of_le (List.length_filter_le _ _)

/-- A sum that is counted on from a number. -/
theorem foldl_add_eq (f : α → Nat) (l : List α) (n : Nat) :
    l.foldl (fun n a => n + f a) n = n + l.foldl (fun n a => n + f a) 0 := by
  induction l generalizing n with
  | nil => rfl
  | cons a l ih =>
    rw [List.foldl_cons, List.foldl_cons, ih, ih (0 + f a)]
    omega

theorem foldl_add_add (f g : α → Nat) (l : List α) :
    l.foldl (fun n a => n + (f a + g a)) 0 =
      l.foldl (fun n a => n + f a) 0 + l.foldl (fun n a => n + g a) 0 := by
  induction l with
  | nil => rfl
  | cons a l ih =>
    rw [List.foldl_cons, List.foldl_cons, List.foldl_cons, foldl_add_eq, foldl_add_eq f,
      foldl_add_eq g, ih]
    omega

/-- Pairs in a relation are counted alike from either side. -/
theorem foldl_countP_comm (r : α → β → Bool) (l : List α) (m : List β) :
    l.foldl (fun n a => n + m.countP (r a)) 0 =
      m.foldl (fun n b => n + l.countP fun a => r a b) 0 := by
  induction l with
  | nil =>
    induction m with
    | nil => rfl
    | cons b m ih => exact ih
  | cons a l ih =>
    have hcons : ∀ b, (a :: l).countP (fun a => r a b) =
        (if r a b then 1 else 0) + l.countP fun a => r a b := by
      intro b
      rw [List.countP_cons]
      omega
    have hfirst : m.foldl (fun n b => n + if r a b then 1 else 0) 0 = m.countP (r a) := by
      clear ih hcons
      induction m with
      | nil => rfl
      | cons b m ih =>
        rw [List.foldl_cons, foldl_add_eq, ih, List.countP_cons]
        omega
    rw [List.foldl_cons, foldl_add_eq, ih]
    simp only [hcons]
    rw [foldl_add_add, hfirst]
    omega

end Lists

namespace FlowGraph

/-! ### Positions and labels -/

section Segments

variable {named : List Segment}

theorem labelAt?_eq_some {i : Nat} {label : String} :
    labelAt? named i = some label ↔ (named.map (·.label))[i]? = some label := by
  unfold labelAt?
  rw [List.getElem?_map]

/-- Where all labels are distinct, no two positions have the same one. -/
theorem labelAt?_inj (h : (named.map (·.label)).Nodup) {i j : Nat} {label : String}
    (hi : labelAt? named i = some label) (hj : labelAt? named j = some label) : i = j := by
  rw [labelAt?_eq_some] at hi hj
  obtain ⟨hilt, -⟩ := List.getElem?_eq_some_iff.mp hi
  exact (List.getElem?_inj hilt h).mp (hi.trans hj.symm)

/-- The last position with a label has that label. -/
theorem labelAt?_of_lastIndex? {i : Nat} {label : String} (h : lastIndex? named label = some i) :
    labelAt? named i = some label := by
  obtain ⟨e, he, rfl⟩ := Option.map_eq_some_iff.mp h
  have hmem := List.mem_reverse.mp (List.mem_of_find?_eq_some he)
  have hlabel : e.1.label = label := by simpa using List.find?_some he
  unfold labelAt?
  rw [List.mem_zipIdx_iff_getElem?.mp hmem, Option.map_some, hlabel]

theorem exists_lastIndex? {label : String} (h : label ∈ named.map (·.label)) :
    ∃ i, lastIndex? named label = some i := by
  obtain ⟨segment, hsegment, hlabel⟩ := List.mem_map.mp h
  obtain ⟨k, hk⟩ := List.getElem?_of_mem hsegment
  cases hi : lastIndex? named label with
  | some i => exact ⟨i, rfl⟩
  | none =>
    -- the position of the segment itself is one that would be found
    have hmem : (segment, k) ∈ named.zipIdx.reverse :=
      List.mem_reverse.mpr (List.mem_zipIdx_iff_getElem?.mpr hk)
    have hnot := List.find?_eq_none.mp (Option.map_eq_none_iff.mp hi) _ hmem
    simp [hlabel] at hnot

theorem lastIndex?_eq_some_iff (h : (named.map (·.label)).Nodup) {i : Nat}
    {name : String} : lastIndex? named name = some i ↔ labelAt? named i = some name := by
  constructor
  · exact labelAt?_of_lastIndex?
  · intro hat
    obtain ⟨j, hj⟩ := exists_lastIndex? (List.mem_of_getElem? (labelAt?_eq_some.mp hat))
    rw [hj, labelAt?_inj h (labelAt?_of_lastIndex? hj) hat]

/-- Labels that lead to a position and back are those that exist. -/
theorem filterMap_lastIndex? (labels : List String) :
    (labels.filterMap (lastIndex? named)).filterMap (labelAt? named) =
      labels.filter fun label => (named.map (·.label)).contains label := by
  rw [List.filterMap_filterMap, ← List.filterMap_eq_filter]
  refine List.filterMap_congr fun label _ => ?_
  unfold Option.guard
  split_ifs with hmem
  · obtain ⟨i, hi⟩ := exists_lastIndex? (List.contains_iff_mem.mp hmem)
    rw [hi]
    exact labelAt?_of_lastIndex? hi
  · cases hi : lastIndex? named label with
    | none => rfl
    | some i =>
      have hat := labelAt?_eq_some.mp (labelAt?_of_lastIndex? hi)
      exact absurd (List.contains_iff_mem.mpr (List.mem_of_getElem? hat)) hmem

/-! ### What blocks list -/

/-- The successors that the block at a position lists. -/
def successorsOf (named : List Segment) (i : Nat) (segment : Segment) : List String :=
  ((edgesFrom named i segment).filterMap (labelAt? named)).eraseDups

/-- The predecessors that the block at a position lists. -/
def predecessorsOf (named : List Segment) (i : Nat) : List String :=
  (((named.zipIdx.map fun e => (e.1.label, edgesFrom named e.2 e.1)).filter
    fun e => e.2.contains i).map (·.1)).eraseDups

theorem blocks_ofSegments (named : List Segment) :
    (ofSegments named).blocks = named.zipIdx.map fun e =>
      ⟨e.1.label, e.1.start, e.1.body, successorsOf named e.2 e.1, predecessorsOf named e.2⟩ := rfl

theorem getElem?_blocks (named : List Segment) (i : Nat) :
    (ofSegments named).blocks[i]? = named[i]?.map fun segment =>
      ⟨segment.label, segment.start, segment.body, successorsOf named i segment,
        predecessorsOf named i⟩ := by
  unfold ofSegments
  dsimp only
  rw [List.getElem?_map, List.getElem?_zipIdx]
  cases named[i]? with
  | none => rfl
  | some segment => simp [successorsOf, predecessorsOf]

theorem mem_successorsOf {i : Nat} {segment : Segment} {label : String} :
    label ∈ successorsOf named i segment ↔
      ∃ j ∈ edgesFrom named i segment, labelAt? named j = some label := by
  unfold successorsOf
  rw [List.mem_eraseDups, List.mem_filterMap]

theorem map_label_zipIdx (named : List Segment) :
    named.zipIdx.map (·.1.label) = named.map (·.label) := by
  conv_rhs => rw [← List.zipIdx_map_fst 0 named, List.map_map]
  rfl

/-- Where all labels are distinct, nothing is erased from the predecessors. -/
theorem predecessorsOf_eq (h : (named.map (·.label)).Nodup) (i : Nat) :
    predecessorsOf named i =
      (named.zipIdx.filter fun e => (edgesFrom named e.2 e.1).contains i).map (·.1.label) := by
  have hmap : ((named.zipIdx.map fun e => (e.1.label, edgesFrom named e.2 e.1)).filter
      fun e => e.2.contains i).map (·.1) =
      (named.zipIdx.filter fun e => (edgesFrom named e.2 e.1).contains i).map (·.1.label) := by
    rw [List.filter_map, List.map_map]
    rfl
  unfold predecessorsOf
  rw [hmap]
  refine eraseDups_of_nodup (List.Nodup.sublist (List.filter_sublist.map _) ?_)
  rwa [map_label_zipIdx]

/-- Position `j` is led to from position `i` exactly if the block at `j` lists the label at `i`. -/
theorem mem_predecessorsOf (h : (named.map (·.label)).Nodup) {i j : Nat} {segment : Segment}
    (hi : named[i]? = some segment) :
    segment.label ∈ predecessorsOf named j ↔ j ∈ edgesFrom named i segment := by
  rw [predecessorsOf_eq h, List.mem_map]
  constructor
  · rintro ⟨e, he, hlabel⟩
    obtain ⟨hmem, hedge⟩ := List.mem_filter.mp he
    have hat := List.mem_zipIdx_iff_getElem?.mp hmem
    -- the labels are distinct, so it is the same position
    have hindex : e.2 = i := labelAt?_inj h
      (by rw [labelAt?, hat, Option.map_some, hlabel]) (by rw [labelAt?, hi, Option.map_some])
    rw [hindex, hi, Option.some.injEq] at hat
    rw [hindex, ← hat] at hedge
    exact List.contains_iff_mem.mp hedge
  · intro hedge
    refine ⟨(segment, i), List.mem_filter.mpr ⟨List.mem_zipIdx_iff_getElem?.mpr hi, ?_⟩, rfl⟩
    exact List.contains_iff_mem.mpr hedge

/-- The same of the label at `j` among the successors of the block at `i`. -/
theorem label_mem_successorsOf (h : (named.map (·.label)).Nodup) {i j : Nat}
    {segment target : Segment} (hj : named[j]? = some target) :
    target.label ∈ successorsOf named i segment ↔ j ∈ edgesFrom named i segment := by
  have hat : labelAt? named j = some target.label := by
    rw [labelAt?, hj, Option.map_some]
  rw [mem_successorsOf]
  constructor
  · rintro ⟨k, hk, hlabel⟩
    rwa [← labelAt?_inj h hlabel hat]
  · intro hedge
    exact ⟨j, hedge, hat⟩

theorem predecessorsOf_sublist (h : (named.map (·.label)).Nodup) (i : Nat) :
    (predecessorsOf named i).Sublist (named.map (·.label)) := by
  rw [predecessorsOf_eq h, ← map_label_zipIdx]
  exact List.filter_sublist.map _

theorem successorsOf_subset (i : Nat) (segment : Segment) :
    successorsOf named i segment ⊆ named.map (·.label) := by
  intro label hlabel
  obtain ⟨j, -, hj⟩ := mem_successorsOf.mp hlabel
  exact List.mem_of_getElem? (labelAt?_eq_some.mp hj)

end Segments

/-! ### Graphs with distinct labels -/

theorem contains_iff_mem {g : FlowGraph} {label : String} :
    g.contains label = true ↔ label ∈ g.labels := by
  unfold contains labels
  rw [List.any_eq_true, List.mem_map]
  simp only [beq_iff_eq]

/-- Labels of a graph, each listed once, are as many as the blocks that have one of them. -/
theorem length_eq_countP {g : FlowGraph} (h : g.labels.Nodup) {listed : List String}
    (hlisted : listed.Nodup) (hsub : listed ⊆ g.labels) :
    listed.length = g.blocks.countP fun b => listed.contains b.label := by
  have hperm : (g.labels.filter listed.contains).Perm listed := by
    refine (List.perm_ext_iff_of_nodup (h.filter _) hlisted).mpr fun label => ?_
    rw [List.mem_filter, List.contains_iff_mem]
    exact ⟨And.right, fun hmem => ⟨hsub hmem, hmem⟩⟩
  rw [← hperm.length_eq, ← List.countP_eq_length_filter]
  exact List.countP_map

/-- The edges of a graph are those that the last instructions of its blocks ask for, and its
predecessors are the same edges read backwards. -/
structure ExactEdges (g : FlowGraph) : Prop where
  /-- A branch leads to those of its targets that exist, in order, each once. -/
  branches : ∀ b ∈ g.blocks, ∀ last, b.last? = some last →
    last.opcode = .branch ∨ last.opcode = .branchIf →
      b.successors = (last.targets.filter g.contains).eraseDups
  /-- A return or throw leads nowhere. -/
  leaves : ∀ b ∈ g.blocks, ∀ last, b.last? = some last →
    last.opcode = .ret ∨ last.opcode = .throw → b.successors = []
  /-- Anything else, and an empty block, leads to the next block of the listing. -/
  continues : ∀ k b, g.blocks[k]? = some b →
    (∀ last, b.last? = some last → last.opcode.endsBlock = false) →
      b.successors = (g.blocks[k + 1]?.map (·.label)).toList
  /-- Predecessors are successors read backwards. -/
  transposed : ∀ a ∈ g.blocks, ∀ b ∈ g.blocks,
    b.label ∈ a.successors ↔ a.label ∈ b.predecessors
  /-- No label is listed twice. -/
  distinct : ∀ b ∈ g.blocks, b.successors.Nodup ∧ b.predecessors.Nodup
  /-- Predecessors are in the order of the listing. -/
  ordered : ∀ b ∈ g.blocks, b.predecessors.Sublist g.labels
  /-- Only blocks of the graph are listed. -/
  closed : ∀ b ∈ g.blocks, ∀ label ∈ b.successors ++ b.predecessors, g.contains label = true
  /-- Edges are as many from either end. -/
  counted : g.edgeCount = g.blocks.foldl (fun n b => n + b.predecessors.length) 0

section Instructions

variable {insts : List Instruction}

/-- The segments that the blocks of a program are made from. -/
def namedSegments (insts : List Instruction) : List Segment :=
  nameSegments 0 [] (segments insts)

/-- A block and the segment that it is made from. -/
theorem exists_segment_of_mem {b : Block} (hb : b ∈ (ofInstructions insts).blocks) :
    ∃ k segment, (namedSegments insts)[k]? = some segment ∧
      b = ⟨segment.label, segment.start, segment.body, successorsOf (namedSegments insts) k segment,
        predecessorsOf (namedSegments insts) k⟩ := by
  obtain ⟨k, hk⟩ := List.getElem?_of_mem hb
  rw [ofInstructions, getElem?_blocks] at hk
  obtain ⟨segment, hsegment, rfl⟩ := Option.map_eq_some_iff.mp hk
  exact ⟨k, segment, hsegment, rfl⟩

/-- The successors that a branch gives its block. -/
theorem successorsOf_branch {k : Nat} {segment : Segment} {last : Instruction}
    (hlast : segment.body.getLast? = some last)
    (hop : last.opcode = .branch ∨ last.opcode = .branchIf) :
    successorsOf (namedSegments insts) k segment =
      (last.targets.filter (ofInstructions insts).contains).eraseDups := by
  have hedges : edgesFrom (namedSegments insts) k segment =
      last.targets.filterMap (lastIndex? (namedSegments insts)) := by
    unfold edgesFrom
    rw [hlast]
    rcases hop with hop | hop <;> simp only [hop]
  have hcontains : (ofInstructions insts).contains =
      fun label => ((namedSegments insts).map (·.label)).contains label := by
    funext label
    rw [Bool.eq_iff_iff, contains_iff_mem, map_label_blocks, List.contains_iff_mem]
    rfl
  rw [successorsOf, hedges, hcontains]
  exact congrArg List.eraseDups (filterMap_lastIndex? last.targets)

/-- Without an instruction that moves control the next block follows. -/
theorem successorsOf_next {k : Nat} {segment : Segment}
    (hbody : ∀ last, segment.body.getLast? = some last → last.opcode.endsBlock = false) :
    successorsOf (namedSegments insts) k segment =
      ((ofInstructions insts).blocks[k + 1]?.map (·.label)).toList := by
  have hedges : edgesFrom (namedSegments insts) k segment =
      if k + 1 < (namedSegments insts).length then [k + 1] else [] := by
    unfold edgesFrom
    cases hlast : segment.body.getLast? with
    | none => rfl
    | some last =>
      have hmoves := hbody last hlast
      dsimp only
      generalize last.opcode = op at hmoves
      cases op with
      | branch | branchIf | ret | throw => cases hmoves
      | _ => rfl
  have hnext : (ofInstructions insts).blocks[k + 1]?.map (·.label) =
      labelAt? (namedSegments insts) (k + 1) := by
    rw [ofInstructions, getElem?_blocks, Option.map_map]
    rfl
  rw [successorsOf, hedges, hnext]
  split_ifs with hlt
  · obtain ⟨label, hlabel⟩ : ∃ label, labelAt? (namedSegments insts) (k + 1) = some label :=
      ⟨_, congrArg _ (List.getElem?_eq_getElem hlt)⟩
    simp [hlabel, List.eraseDups_cons]
  · have hnone : labelAt? (namedSegments insts) (k + 1) = none :=
      congrArg _ (List.getElem?_eq_none (Nat.le_of_not_lt hlt))
    simp [hnone]

theorem transposed_of_nodup (h : (ofInstructions insts).labels.Nodup) {a b : Block}
    (ha : a ∈ (ofInstructions insts).blocks) (hb : b ∈ (ofInstructions insts).blocks) :
    b.label ∈ a.successors ↔ a.label ∈ b.predecessors := by
  rw [map_label_blocks] at h
  obtain ⟨i, source, hsource, rfl⟩ := exists_segment_of_mem ha
  obtain ⟨j, target, htarget, rfl⟩ := exists_segment_of_mem hb
  exact (label_mem_successorsOf h htarget).trans (mem_predecessorsOf h hsource).symm

theorem predecessors_sublist (h : (ofInstructions insts).labels.Nodup) {b : Block}
    (hb : b ∈ (ofInstructions insts).blocks) :
    b.predecessors.Sublist (ofInstructions insts).labels := by
  rw [map_label_blocks] at h ⊢
  obtain ⟨i, segment, -, rfl⟩ := exists_segment_of_mem hb
  exact predecessorsOf_sublist h i

theorem successors_subset {b : Block} (hb : b ∈ (ofInstructions insts).blocks) :
    b.successors ⊆ (ofInstructions insts).labels := by
  rw [map_label_blocks]
  obtain ⟨i, segment, -, rfl⟩ := exists_segment_of_mem hb
  exact successorsOf_subset i segment

theorem nodup_successors {b : Block} (hb : b ∈ (ofInstructions insts).blocks) :
    b.successors.Nodup := by
  obtain ⟨i, segment, -, rfl⟩ := exists_segment_of_mem hb
  exact nodup_eraseDups _

theorem nodup_predecessors {b : Block} (hb : b ∈ (ofInstructions insts).blocks) :
    b.predecessors.Nodup := by
  obtain ⟨i, segment, -, rfl⟩ := exists_segment_of_mem hb
  exact nodup_eraseDups _

/-- Each edge is listed once at either end, so both ends list equally many. -/
theorem edgeCount_eq (h : (ofInstructions insts).labels.Nodup) :
    (ofInstructions insts).edgeCount =
      (ofInstructions insts).blocks.foldl (fun n b => n + b.predecessors.length) 0 := by
  have hsuccessors : ∀ a ∈ (ofInstructions insts).blocks, a.successors.length =
      (ofInstructions insts).blocks.countP fun b => a.successors.contains b.label := fun a ha =>
    length_eq_countP h (nodup_successors ha) (successors_subset ha)
  have hpredecessors : ∀ b ∈ (ofInstructions insts).blocks, b.predecessors.length =
      (ofInstructions insts).blocks.countP fun a => a.successors.contains b.label := by
    intro b hb
    rw [length_eq_countP h (nodup_predecessors hb) (predecessors_sublist h hb).subset]
    refine List.countP_congr fun a ha => ?_
    rw [List.contains_iff_mem, List.contains_iff_mem, transposed_of_nodup h ha hb]
  calc (ofInstructions insts).edgeCount
    _ = (ofInstructions insts).blocks.foldl (fun n a => n +
          (ofInstructions insts).blocks.countP fun b => a.successors.contains b.label) 0 :=
        List.foldl_ext _ _ 0 fun n a ha => congrArg (n + ·) (hsuccessors a ha)
    _ = (ofInstructions insts).blocks.foldl (fun n b => n +
          (ofInstructions insts).blocks.countP fun a => a.successors.contains b.label) 0 :=
        foldl_countP_comm (fun a b : Block => a.successors.contains b.label) _ _
    _ = (ofInstructions insts).blocks.foldl (fun n b => n + b.predecessors.length) 0 :=
        List.foldl_ext _ _ 0 fun n b hb => congrArg (n + ·) (hpredecessors b hb).symm

/-- **A graph whose labels are distinct has exactly the edges of its program.** Its predecessors are
these edges read backwards. -/
theorem exactEdges_ofInstructions (insts : List Instruction)
    (h : (ofInstructions insts).labels.Nodup) : ExactEdges (ofInstructions insts) where
  branches := by
    intro b hb last hlast hop
    obtain ⟨k, segment, -, rfl⟩ := exists_segment_of_mem hb
    exact successorsOf_branch hlast hop
  leaves := by
    intro b hb last hlast hop
    obtain ⟨k, segment, -, rfl⟩ := exists_segment_of_mem hb
    have hedges : edgesFrom (namedSegments insts) k segment = [] := by
      unfold edgesFrom
      rw [show segment.body.getLast? = some last from hlast]
      rcases hop with hop | hop <;> simp only [hop]
    dsimp only
    rw [successorsOf, hedges]
    rfl
  continues := by
    intro k b hb hbody
    rw [ofInstructions, getElem?_blocks] at hb
    obtain ⟨segment, -, rfl⟩ := Option.map_eq_some_iff.mp hb
    exact successorsOf_next hbody
  transposed _ ha _ hb := transposed_of_nodup h ha hb
  distinct _ hb := ⟨nodup_successors hb, nodup_predecessors hb⟩
  ordered _ hb := predecessors_sublist h hb
  closed := by
    intro b hb label hlabel
    rw [contains_iff_mem]
    rcases List.mem_append.mp hlabel with hlabel | hlabel
    · exact successors_subset hb hlabel
    · exact (predecessors_sublist h hb).subset hlabel
  counted := edgeCount_eq h

end Instructions

/-- A loop whose branch names a block twice and one that does not exist, with an empty block behind
it. -/
def loopingProgram : List Instruction :=
  [{ opcode := .label, label := some "loop" },
    { opcode := .branchIf, operands := [.text "%0"], label := some "exit,loop,exit,nowhere" },
    { opcode := .label, label := some "exit" }, { opcode := .label, label := some "tail" },
    { opcode := .ret }]

/-- The labels of the loop are distinct, and its edges are listed from either end. -/
theorem loopingProgram_edges :
    (ofInstructions loopingProgram).labels.Nodup ∧ ExactEdges (ofInstructions loopingProgram) ∧
    (ofInstructions loopingProgram).blocks.map (fun b => (b.successors, b.predecessors)) =
      [(["exit", "loop"], ["loop"]), (["tail"], ["loop"]), ([], ["exit"])] := by
  have hnodup : (ofInstructions loopingProgram).labels.Nodup := by decide +kernel
  exact ⟨hnodup, exactEdges_ofInstructions loopingProgram hnodup, by decide +kernel⟩

end FlowGraph

end SymbolicVM

import SymbolicVM.Proofs.FlowGraph.Names
import SymbolicVM.Proofs.FlowGraph.Targets

/-!
# The graph of a part of a program

A part of a program that begins with a label and is followed by one, or by nothing, is cut into the
same segments as in the program (`FlowGraph.segments_append`). Its blocks have other positions, and
so other names where they are named after them. Branches out of the part have no target there, and
the last block of the part has no next one. Apart from that its graph is the one that the blocks of
the part induce in the graph of the program (`FlowGraph.moved_ofInstructions`).

The body of a function is such a part (`FlowGraph.function_induced`).
-/

namespace SymbolicVM.FlowGraph

/-! ### Parts of graphs -/

/-- Whether a position is one of those that a part of some length has in the whole. -/
def liesIn (first length p : Nat) : Bool :=
  decide (first ≤ p) && decide (p < first + length)

theorem liesIn_iff {first length p : Nat} :
    liesIn first length p = true ↔ first ≤ p ∧ p < first + length := by
  simp only [liesIn, Bool.and_eq_true, decide_eq_true_eq]

/-- The blocks of a graph that satisfy a condition, with the edges between them. -/
def induced (g : FlowGraph) (keep : Block → Bool) : FlowGraph :=
  let kept := g.blocks.filter keep
  ⟨kept.map fun b =>
    { b with
      successors := b.successors.filter (kept.map (·.label)).contains
      predecessors := b.predecessors.filter (kept.map (·.label)).contains }⟩

/-- What the label of a block becomes when the program is moved: a block that is named after its
position is named after the new one. -/
def movedLabel (offset : Nat) (g : FlowGraph) (label : String) : String :=
  (g.block? label).elim label fun b =>
    if label = positionName b.start then positionName (b.start + offset) else label

/-- The graph of a program that is moved by some positions. -/
def moved (offset : Nat) (g : FlowGraph) : FlowGraph :=
  ⟨g.blocks.map fun b =>
    { label := g.movedLabel offset b.label
      start := b.start + offset
      body := b.body
      successors := b.successors.map (g.movedLabel offset)
      predecessors := b.predecessors.map (g.movedLabel offset) }⟩

/-! ### The segments of a part among those of the whole -/

/-- The segments of a part of a program stand among those of the whole, moved to where the part
begins. -/
structure Window (offset : Nat) (before inner after whole : List Segment) : Prop where
  whole_eq : whole = before ++ (inner.map (Segment.moved offset) ++ after)
  distinct : (whole.map (·.label)).Nodup
  innerDistinct : (inner.map (·.label)).Nodup
  targets : ∀ segment ∈ inner, ∀ last, segment.body.getLast? = some last →
    ∀ name ∈ last.targets, isPositionLike name = false

namespace Window

variable {offset : Nat} {before inner after whole : List Segment}

theorem getElem?_whole (h : Window offset before inner after whole) {j : Nat} {segment : Segment}
    (hj : inner[j]? = some segment) :
    whole[before.length + j]? = some (segment.moved offset) := by
  obtain ⟨hlt, -⟩ := List.getElem?_eq_some_iff.mp hj
  rw [h.whole_eq, List.getElem?_append_right (Nat.le_add_right _ _), Nat.add_sub_cancel_left,
    List.getElem?_append_left (by rwa [List.length_map]), List.getElem?_map, hj, Option.map_some]

theorem labelAt?_whole (h : Window offset before inner after whole) {j : Nat} {segment : Segment}
    (hj : inner[j]? = some segment) :
    labelAt? whole (before.length + j) = some (segment.moved offset).label := by
  rw [labelAt?, h.getElem?_whole hj, Option.map_some]

theorem exists_of_liesIn {i : Nat} (hi : liesIn before.length inner.length i = true) :
    ∃ j segment, i = before.length + j ∧ inner[j]? = some segment := by
  rw [liesIn_iff] at hi
  have hlt : i - before.length < inner.length := by omega
  exact ⟨i - before.length, inner[i - before.length], by omega, List.getElem?_eq_getElem hlt⟩

theorem liesIn_add {j : Nat} {segment : Segment} (hj : inner[j]? = some segment) :
    liesIn before.length inner.length (before.length + j) = true := by
  obtain ⟨hlt, -⟩ := List.getElem?_eq_some_iff.mp hj
  rw [liesIn_iff]
  omega

/-- A branch of the part leads to the same segment of the part in the whole. -/
theorem lastIndex?_whole (h : Window offset before inner after whole) {name : String}
    (hname : isPositionLike name = false) :
    (lastIndex? whole name).filter (liesIn before.length inner.length) =
      (lastIndex? inner name).map (before.length + ·) := by
  ext i
  rw [Option.filter_eq_some_iff, Option.map_eq_some_iff, lastIndex?_eq_some_iff h.distinct]
  constructor
  · rintro ⟨hat, hlies⟩
    obtain ⟨j, segment, rfl, hj⟩ := exists_of_liesIn hlies
    rw [h.labelAt?_whole hj, Option.some.injEq, Segment.label_moved_eq_iff hname] at hat
    refine ⟨j, (lastIndex?_eq_some_iff h.innerDistinct).mpr ?_, rfl⟩
    rw [labelAt?, hj, Option.map_some, hat]
  · rintro ⟨j, hindex, rfl⟩
    obtain ⟨segment, hj, hlabel⟩ := Option.map_eq_some_iff.mp (labelAt?_of_lastIndex? hindex)
    refine ⟨?_, liesIn_add hj⟩
    rw [h.labelAt?_whole hj, (Segment.label_moved_eq_iff hname).mpr hlabel]

/-- The next segment is one of the part, unless it is the last one. -/
theorem next_whole (h : Window offset before inner after whole) {j : Nat} :
    (if before.length + j + 1 < whole.length then [before.length + j + 1] else []).filter
        (liesIn before.length inner.length) =
      (if j + 1 < inner.length then [j + 1] else []).map (before.length + ·) := by
  have hlength : before.length + inner.length ≤ whole.length := by
    rw [h.whole_eq, List.length_append, List.length_append, List.length_map]
    omega
  by_cases hlt : j + 1 < inner.length
  · have hlies : liesIn before.length inner.length (before.length + j + 1) = true := by
      rw [liesIn_iff]
      omega
    rw [if_pos (by omega), if_pos hlt, List.filter_cons_of_pos hlies]
    rfl
  · have houtside : liesIn before.length inner.length (before.length + j + 1) = false := by
      rw [← Bool.not_eq_true, liesIn_iff]
      omega
    rw [if_neg hlt]
    split_ifs
    · rw [List.filter_cons_of_neg (by simp [houtside])]
      rfl
    · rfl

/-- **Edges of a part are the edges of the whole that stay in it.** -/
theorem edgesFrom_whole (h : Window offset before inner after whole) {j : Nat} {segment : Segment}
    (hj : inner[j]? = some segment) :
    (edgesFrom whole (before.length + j) (segment.moved offset)).filter
        (liesIn before.length inner.length) =
      (edgesFrom inner j segment).map (before.length + ·) := by
  unfold edgesFrom
  have hbody : (segment.moved offset).body = segment.body := rfl
  rw [hbody]
  cases hlast : segment.body.getLast? with
  | none => exact h.next_whole
  | some last =>
    have hbranch : (last.targets.filterMap (lastIndex? whole)).filter
          (liesIn before.length inner.length) =
        (last.targets.filterMap (lastIndex? inner)).map (before.length + ·) := by
      rw [List.filter_filterMap, List.map_filterMap]
      refine List.filterMap_congr fun name hname => ?_
      exact h.lastIndex?_whole (h.targets segment (List.mem_of_getElem? hj) last hlast name hname)
    dsimp only
    cases last.opcode with
    | branch | branchIf => exact hbranch
    | ret | throw => rfl
    | _ => exact h.next_whole

theorem exists_of_mem_edgesFrom (h : Window offset before inner after whole) {i j : Nat}
    {segment : Segment} (hj : inner[j]? = some segment) (hi : i ∈ edgesFrom inner j segment) :
    ∃ target, inner[i]? = some target := by
  have hmem := List.mem_map_of_mem (f := (before.length + ·)) hi
  rw [← h.edgesFrom_whole hj] at hmem
  obtain ⟨k, target, hindex, htarget⟩ := exists_of_liesIn (List.mem_filter.mp hmem).2
  rw [Nat.add_left_cancel hindex]
  exact ⟨target, htarget⟩

/-- What the labels of the part become. -/
def innerLabels (offset : Nat) (inner : List Segment) : List String :=
  inner.map fun segment => (segment.moved offset).label

/-- The segments of the part are known by their labels. -/
theorem contains_innerLabels (h : Window offset before inner after whole) {i : Nat}
    {label : String} (hi : labelAt? whole i = some label) :
    (innerLabels offset inner).contains label = liesIn before.length inner.length i := by
  rw [Bool.eq_iff_iff, List.contains_iff_mem, innerLabels, List.mem_map]
  constructor
  · rintro ⟨segment, hsegment, rfl⟩
    obtain ⟨j, hj⟩ := List.getElem?_of_mem hsegment
    rw [labelAt?_inj h.distinct hi (h.labelAt?_whole hj)]
    exact liesIn_add hj
  · intro hlies
    obtain ⟨j, segment, rfl, hj⟩ := exists_of_liesIn hlies
    rw [h.labelAt?_whole hj] at hi
    exact ⟨segment, List.mem_of_getElem? hj, Option.some.inj hi⟩

theorem movedLabel_label (h : Window offset before inner after whole) {segment : Segment}
    (hsegment : segment ∈ inner) :
    (ofSegments inner).movedLabel offset segment.label = (segment.moved offset).label := by
  obtain ⟨j, hj⟩ := List.getElem?_of_mem hsegment
  have hblock := getElem?_blocks inner j
  rw [hj, Option.map_some] at hblock
  have hnodup : (ofSegments inner).labels.Nodup := by
    rw [labels, map_blocks_ofSegments inner (·.label) (·.label) fun _ _ _ => rfl]
    exact h.innerDistinct
  have hfound := block?_label hnodup (List.mem_of_getElem? hblock)
  unfold movedLabel
  rw [show (ofSegments inner).block? segment.label = _ from hfound]
  rfl

/-- Labels of the part that are the same in the whole are the same. -/
theorem movedLabel_inj (h : Window offset before inner after whole) {label label' : String}
    (hlabel : label ∈ inner.map (·.label)) (hlabel' : label' ∈ inner.map (·.label))
    (hsame : (ofSegments inner).movedLabel offset label =
      (ofSegments inner).movedLabel offset label') : label = label' := by
  obtain ⟨segment, hsegment, rfl⟩ := List.mem_map.mp hlabel
  obtain ⟨segment', hsegment', rfl⟩ := List.mem_map.mp hlabel'
  rw [h.movedLabel_label hsegment, h.movedLabel_label hsegment'] at hsame
  obtain ⟨j, hj⟩ := List.getElem?_of_mem hsegment
  obtain ⟨j', hj'⟩ := List.getElem?_of_mem hsegment'
  have hat := h.labelAt?_whole hj
  rw [hsame] at hat
  have hindex : j = j' := by
    have := labelAt?_inj h.distinct hat (h.labelAt?_whole hj')
    omega
  rw [hindex, hj', Option.some.injEq] at hj
  rw [hj]

/-! ### What the blocks of a part list -/

theorem successorsOf_whole (h : Window offset before inner after whole) {j : Nat}
    {segment : Segment} (hj : inner[j]? = some segment) :
    (successorsOf whole (before.length + j) (segment.moved offset)).filter
        (innerLabels offset inner).contains =
      (successorsOf inner j segment).map ((ofSegments inner).movedLabel offset) := by
  have hlabels (i : Nat) : (labelAt? whole i).filter (innerLabels offset inner).contains =
      if liesIn before.length inner.length i then labelAt? whole i else none := by
    cases hi : labelAt? whole i with
    | none => simp
    | some label => rw [Option.filter_some, h.contains_innerLabels hi]
  have hmoved : ∀ i ∈ edgesFrom inner j segment, labelAt? whole (before.length + i) =
      (labelAt? inner i).map ((ofSegments inner).movedLabel offset) := by
    intro i hi
    obtain ⟨target, htarget⟩ := h.exists_of_mem_edgesFrom hj hi
    rw [h.labelAt?_whole htarget, labelAt?, htarget, Option.map_some, Option.map_some,
      h.movedLabel_label (List.mem_of_getElem? htarget)]
  calc (successorsOf whole (before.length + j) (segment.moved offset)).filter
        (innerLabels offset inner).contains
    _ = (((edgesFrom whole (before.length + j) (segment.moved offset)).filter
          (liesIn before.length inner.length)).filterMap (labelAt? whole)).eraseDups := by
        unfold successorsOf
        rw [filter_eraseDups, List.filter_filterMap, List.filterMap_filter]
        simp only [hlabels]
    _ = (((edgesFrom inner j segment).filterMap (labelAt? inner)).map
          ((ofSegments inner).movedLabel offset)).eraseDups := by
        rw [h.edgesFrom_whole hj, List.filterMap_map, List.map_filterMap]
        exact congrArg List.eraseDups (List.filterMap_congr hmoved)
    _ = (successorsOf inner j segment).map ((ofSegments inner).movedLabel offset) := by
        refine eraseDups_map _ _ fun label hlabel label' hlabel' => ?_
        obtain ⟨k, -, hk⟩ := List.mem_filterMap.mp hlabel
        obtain ⟨k', -, hk'⟩ := List.mem_filterMap.mp hlabel'
        exact h.movedLabel_inj (List.mem_of_getElem? (labelAt?_eq_some.mp hk))
          (List.mem_of_getElem? (labelAt?_eq_some.mp hk'))

/-- The positions of the part, among those of the whole. -/
theorem filter_liesIn_zipIdx (h : Window offset before inner after whole) :
    whole.zipIdx.filter (fun e => liesIn before.length inner.length e.2) =
      inner.zipIdx.map fun e => (e.1.moved offset, before.length + e.2) := by
  have hbefore : before.zipIdx.filter (fun e => liesIn before.length inner.length e.2) = [] := by
    refine List.filter_eq_nil_iff.mpr fun e he => ?_
    have hlt := List.snd_lt_of_mem_zipIdx he
    rw [liesIn_iff]
    omega
  have hafter : (after.zipIdx (before.length + inner.length)).filter
      (fun e => liesIn before.length inner.length e.2) = [] := by
    refine List.filter_eq_nil_iff.mpr fun e he => ?_
    have hle := List.le_snd_of_mem_zipIdx he
    rw [liesIn_iff]
    omega
  have hinner : ((inner.map (Segment.moved offset)).zipIdx before.length).filter
      (fun e => liesIn before.length inner.length e.2) =
      (inner.map (Segment.moved offset)).zipIdx before.length := by
    refine List.filter_eq_self.mpr fun e he => ?_
    have hle := List.le_snd_of_mem_zipIdx he
    have hlt := List.snd_lt_add_of_mem_zipIdx he
    rw [List.length_map] at hlt
    rw [liesIn_iff]
    omega
  rw [h.whole_eq, List.zipIdx_append, List.zipIdx_append, Nat.zero_add, List.length_map,
    List.filter_append, List.filter_append, hbefore, hinner, hafter, List.nil_append,
    List.append_nil, List.zipIdx_map, List.zipIdx_eq_map_add, List.map_map]
  rfl

theorem predecessorsOf_whole (h : Window offset before inner after whole) {j : Nat}
    {segment : Segment} (hj : inner[j]? = some segment) :
    (predecessorsOf whole (before.length + j)).filter (innerLabels offset inner).contains =
      (predecessorsOf inner j).map ((ofSegments inner).movedLabel offset) := by
  -- an edge to a segment of the part is one of the part
  have hedge : ∀ e ∈ inner.zipIdx,
      (edgesFrom whole (before.length + e.2) (e.1.moved offset)).contains (before.length + j) =
        (edgesFrom inner e.2 e.1).contains j := by
    intro e he
    have hmem : before.length + j ∈ edgesFrom whole (before.length + e.2) (e.1.moved offset) ↔
        before.length + j ∈ (edgesFrom inner e.2 e.1).map (before.length + ·) := by
      rw [← h.edgesFrom_whole (List.mem_zipIdx_iff_getElem?.mp he), List.mem_filter,
        liesIn_add hj, and_iff_left rfl]
    rw [Bool.eq_iff_iff, List.contains_iff_mem, List.contains_iff_mem, hmem, List.mem_map]
    constructor
    · rintro ⟨i, hi, hsame⟩
      rwa [← Nat.add_left_cancel hsame]
    · exact fun hi => ⟨j, hi, rfl⟩
  calc (predecessorsOf whole (before.length + j)).filter (innerLabels offset inner).contains
    _ = ((whole.zipIdx.filter fun e => liesIn before.length inner.length e.2).filter
          fun e => (edgesFrom whole e.2 e.1).contains (before.length + j)).map (·.1.label) := by
        rw [predecessorsOf_eq h.distinct, List.filter_map, List.filter_filter, List.filter_filter]
        refine congrArg _ (List.filter_congr fun e he => ?_)
        have hat : labelAt? whole e.2 = some e.1.label := by
          rw [labelAt?, List.mem_zipIdx_iff_getElem?.mp he, Option.map_some]
        rw [Function.comp, h.contains_innerLabels hat, Bool.and_comm]
    _ = ((inner.zipIdx.filter fun e => (edgesFrom inner e.2 e.1).contains j).map
          fun e => (e.1.moved offset).label) := by
        rw [h.filter_liesIn_zipIdx, List.filter_map, List.map_map]
        exact congrArg _ (List.filter_congr hedge)
    _ = (predecessorsOf inner j).map ((ofSegments inner).movedLabel offset) := by
        rw [predecessorsOf_eq h.innerDistinct, List.map_map]
        refine List.map_congr_left fun e he => ?_
        have hmem := List.mem_zipIdx_iff_getElem?.mp (List.mem_filter.mp he).1
        exact (h.movedLabel_label (List.mem_of_getElem? hmem)).symm

/-- A condition that the segments of the part satisfy, and no others, says where they stand. -/
theorem keep_eq_liesIn (h : Window offset before inner after whole) {keep : Nat → Bool}
    (hbefore : ∀ segment ∈ before, keep segment.start = false)
    (hinner : ∀ segment ∈ inner, keep (segment.start + offset) = true)
    (hafter : ∀ segment ∈ after, keep segment.start = false) {i : Nat} {segment : Segment}
    (hi : whole[i]? = some segment) : keep segment.start = liesIn before.length inner.length i := by
  cases hlies : liesIn before.length inner.length i with
  | true =>
    obtain ⟨j, source, rfl, hj⟩ := exists_of_liesIn hlies
    rw [h.getElem?_whole hj, Option.some.injEq] at hi
    rw [← hi]
    exact hinner source (List.mem_of_getElem? hj)
  | false =>
    rw [← Bool.not_eq_true, liesIn_iff] at hlies
    rw [h.whole_eq] at hi
    by_cases hlt : i < before.length
    · rw [List.getElem?_append_left hlt] at hi
      exact hbefore segment (List.mem_of_getElem? hi)
    · rw [List.getElem?_append_right (by omega),
        List.getElem?_append_right (by rw [List.length_map]; omega)] at hi
      exact hafter segment (List.mem_of_getElem? hi)

/-- **The graph of a part is the one that its blocks induce in the graph of the whole.** -/
theorem moved_ofSegments (h : Window offset before inner after whole) (keep : Nat → Bool)
    (hbefore : ∀ segment ∈ before, keep segment.start = false)
    (hinner : ∀ segment ∈ inner, keep (segment.start + offset) = true)
    (hafter : ∀ segment ∈ after, keep segment.start = false) :
    (ofSegments inner).moved offset = (ofSegments whole).induced fun b => keep b.start := by
  have hkept : (ofSegments whole).blocks.filter (fun b => keep b.start) =
      inner.zipIdx.map fun e =>
        ⟨(e.1.moved offset).label, e.1.start + offset, e.1.body,
          successorsOf whole (before.length + e.2) (e.1.moved offset),
          predecessorsOf whole (before.length + e.2)⟩ := by
    have hfilter : whole.zipIdx.filter (fun e => keep e.1.start) =
        whole.zipIdx.filter fun e => liesIn before.length inner.length e.2 :=
      List.filter_congr fun e he =>
        h.keep_eq_liesIn hbefore hinner hafter (List.mem_zipIdx_iff_getElem?.mp he)
    rw [blocks_ofSegments, List.filter_map]
    refine (congrArg _ hfilter).trans ?_
    rw [h.filter_liesIn_zipIdx, List.map_map]
    rfl
  have hlabels : ((ofSegments whole).blocks.filter fun b => keep b.start).map (·.label) =
      innerLabels offset inner := by
    rw [hkept, List.map_map, innerLabels]
    conv_rhs => rw [← List.zipIdx_map_fst 0 inner, List.map_map]
    rfl
  unfold moved induced
  dsimp only
  rw [hlabels, hkept, blocks_ofSegments, List.map_map, List.map_map]
  refine congrArg FlowGraph.mk (List.map_congr_left fun e he => ?_)
  have hj := List.mem_zipIdx_iff_getElem?.mp he
  simp only [Function.comp]
  rw [h.successorsOf_whole hj, h.predecessorsOf_whole hj,
    h.movedLabel_label (List.mem_of_getElem? hj)]

end Window

/-! ### Parts of a program -/

section Parts

variable {insts before part after : List Instruction}

/-- The instructions of a segment are instructions of the program. -/
theorem mem_of_mem_segment {segment : Segment} (h : segment ∈ namedSegments insts)
    {inst : Instruction} (hinst : inst ∈ segment.body) : inst ∈ insts := by
  obtain ⟨k, hk⟩ := List.getElem?_of_mem h
  have hblock := getElem?_blocks (namedSegments insts) k
  rw [hk, Option.map_some] at hblock
  exact mem_of_mem_body (List.mem_of_getElem? hblock) hinst

/-- A part that begins with a label and is followed by one is a window. -/
theorem window_of_append (h : PlainLabels (before ++ (part ++ after)))
    (hpart : ∀ inst, part.head? = some inst → inst.isLabel = true)
    (hafter : ∀ inst, after.head? = some inst → inst.isLabel = true) :
    Window before.length (ownSegments 0 (segments before)) (namedSegments part)
      (ownSegments (before.length + part.length) (segments after))
      (namedSegments (before ++ (part ++ after))) := by
  have hplain := h.middle
  have hrest : ∀ inst, (part ++ after).head? = some inst → inst.isLabel = true := by
    intro inst hinst
    cases part with
    | nil => exact hafter inst hinst
    | cons first rest => exact hpart inst hinst
  refine ⟨?_, ?_, ?_, ?_⟩
  · have hlike : ∀ name ∈ wantedLabels (segments part), isPositionLike name = false :=
      fun _ => hplain.isPositionLike_of_mem
    rw [h.namedSegments_eq, hplain.namedSegments_eq, segments_append before hrest,
      segments_append part hafter, ownSegments_append, ownSegments_append, flatten_segments,
      flatten_segments, Nat.zero_add, ← ownSegments_add 0 before.length hlike, Nat.zero_add]
  · rw [namedSegments, ← map_label_blocks]
    exact h.labels_nodup
  · rw [namedSegments, ← map_label_blocks]
    exact hplain.labels_nodup
  · intro segment hsegment last hlast name hname
    have hinst : last ∈ part := mem_of_mem_segment hsegment (List.mem_of_getLast? hlast)
    exact hplain.mentions last hinst name (List.mem_append_right _ hname)

/-- **The graph of a part of a program is induced in that of the program.** -/
theorem moved_ofInstructions (h : PlainLabels (before ++ (part ++ after)))
    (hpart : ∀ inst, part.head? = some inst → inst.isLabel = true)
    (hafter : ∀ inst, after.head? = some inst → inst.isLabel = true) :
    (ofInstructions part).moved before.length =
      (ofInstructions (before ++ (part ++ after))).induced fun b =>
        liesIn before.length part.length b.start := by
  have hne (insts : List Instruction) : ∀ run ∈ segments insts, run ≠ [] := fun run hrun =>
    (uncut_of_mem_segments insts run hrun).nonempty
  refine (window_of_append h hpart hafter).moved_ofSegments
    (liesIn before.length part.length) (fun segment hsegment => ?_) (fun segment hsegment => ?_)
    fun segment hsegment => ?_
  · have hstart := start_of_mem_ownSegments (hne before) hsegment
    rw [flatten_segments] at hstart
    rw [← Bool.not_eq_true, liesIn_iff]
    omega
  · rw [h.middle.namedSegments_eq] at hsegment
    have hstart := start_of_mem_ownSegments (hne part) hsegment
    rw [flatten_segments] at hstart
    rw [liesIn_iff]
    omega
  · have hstart := start_of_mem_ownSegments (hne after) hsegment
    rw [← Bool.not_eq_true, liesIn_iff]
    omega

end Parts

/-! ### The body of a function -/

section Functions

variable {insts : List Instruction} {name : String}

/-- Whether an instruction is the label at which the body of a function begins. -/
def beginsBody (name : String) (inst : Instruction) : Bool :=
  inst.isLabel && (inst.label.map (beginsFunction name)).getD false

/-- The position at which the body of a function begins. -/
def functionStart (name : String) (insts : List Instruction) : Nat :=
  insts.findIdx (beginsBody name)

/-- Whether an instruction is the label at which a body ends that begins with the given one. -/
def endsBody (first inst : Instruction) : Bool :=
  inst.isLabel &&
    inst.label == (first.label.bind (Text.stripHead? functionHead)).map ("end_" ++ ·)

/-- The body of a function is what stands between the two labels. -/
theorem exists_drop_functionStart (h : functionBody name insts ≠ []) :
    ∃ first rest, insts.drop (functionStart name insts) = first :: rest ∧
      functionBody name insts = first :: rest.takeWhile fun inst => !endsBody first inst := by
  have hdrop : insts.dropWhile (fun inst => !beginsBody name inst) =
      insts.drop (functionStart name insts) := by
    rw [List.dropWhile_eq_drop_findIdx_not]
    simp only [Bool.not_not]
    rfl
  unfold beginsBody at hdrop
  unfold functionBody at h ⊢
  dsimp only at h ⊢
  rw [hdrop] at h ⊢
  cases hcons : insts.drop (functionStart name insts) with
  | nil =>
    rw [hcons] at h
    exact absurd rfl h
  | cons first rest => exact ⟨first, rest, rfl, rfl⟩

/-- The body of a function begins with a label, and behind it stands a label or nothing. -/
theorem exists_append_functionBody (h : functionBody name insts ≠ []) :
    ∃ before after, insts = before ++ (functionBody name insts ++ after) ∧
      before.length = functionStart name insts ∧
      (∀ inst, (functionBody name insts).head? = some inst → inst.isLabel = true) ∧
      ∀ inst, after.head? = some inst → inst.isLabel = true := by
  obtain ⟨first, rest, hdrop, hbody⟩ := exists_drop_functionStart h
  have hat : insts[functionStart name insts]? = some first := by
    rw [← List.head?_drop, hdrop, List.head?_cons]
  obtain ⟨hlt, hfirst⟩ := List.getElem?_eq_some_iff.mp hat
  refine ⟨insts.take (functionStart name insts), rest.dropWhile fun inst => !endsBody first inst,
    ?_, ?_, ?_, ?_⟩
  · rw [hbody, List.cons_append, List.takeWhile_append_dropWhile, ← hdrop, List.take_append_drop]
  · rw [List.length_take]
    omega
  · intro inst hinst
    rw [hbody, List.head?_cons, Option.some.injEq] at hinst
    have hbegins : beginsBody name first = true := by
      rw [← hfirst]
      exact List.findIdx_getElem
    rw [← hinst]
    exact (Bool.and_eq_true_iff.mp hbegins).1
  · intro inst hinst
    have hstop := List.head?_dropWhile_not (fun inst => !endsBody first inst) rest
    rw [hinst] at hstop
    have hends : endsBody first inst = true := by simpa using hstop
    exact (Bool.and_eq_true_iff.mp hends).1

/-- **The graph of a function is the one that its blocks induce in the graph of the program.** Its
blocks are those that begin in the body, in order and with the edges between them; they are only
moved to where the body begins, and renamed where they are named after positions. In both graphs
labels stand for blocks. -/
theorem function_induced (h : PlainLabels insts) (hbody : functionBody name insts ≠ []) :
    insts.extract (functionStart name insts)
        (functionStart name insts + (functionBody name insts).length) = functionBody name insts ∧
      (ofInstructions (functionBody name insts)).moved (functionStart name insts) =
        (ofInstructions insts).induced (fun b =>
          liesIn (functionStart name insts) (functionBody name insts).length b.start) ∧
      (ofInstructions (functionBody name insts)).labels.Nodup ∧
      (ofInstructions insts).labels.Nodup := by
  obtain ⟨before, after, hinsts, hlength, hfirst, hafter⟩ := exists_append_functionBody hbody
  rw [← hlength]
  generalize functionBody name insts = part at hinsts hfirst ⊢
  subst hinsts
  refine ⟨?_, moved_ofInstructions h hfirst hafter, h.middle.labels_nodup, h.labels_nodup⟩
  rw [List.extract_eq_take_drop, Nat.add_sub_cancel_left, List.drop_left, List.take_left]

end Functions

/-- A function with a block that has no label, with branches and control that leave it, and with a
jump into it from outside. -/
def enteredProgram : List Instruction :=
  [{ opcode := .branch, label := some "end_f_0" },
    { opcode := .label, label := some "func_f_0" },
    { opcode := .branchIf, operands := [.text "%0"], label := some "inner,end_f_0" },
    { opcode := .const, result := some "%1", operands := [.text "1"] },
    { opcode := .branch, label := some "inner" },
    { opcode := .label, label := some "inner" },
    { opcode := .const, result := some "%2", operands := [.text "2"] },
    { opcode := .label, label := some "end_f_0" },
    { opcode := .branch, label := some "inner" }]

/-- Outside of the function remain the end of its body as a successor, and the jump back as a
predecessor. -/
theorem enteredProgram_function :
    PlainLabels enteredProgram ∧ functionBody "f" enteredProgram ≠ [] ∧
    functionStart "f" enteredProgram = 1 ∧
    (ofInstructions (functionBody "f" enteredProgram)).moved 1 =
      (ofInstructions enteredProgram).induced (fun b => liesIn 1 6 b.start) ∧
    (ofInstructions (functionBody "f" enteredProgram)).blocks.map
        (fun b => (b.label, b.successors, b.predecessors)) =
      [("func_f_0", ["inner"], []), ("__block_2", ["inner"], []),
        ("inner", [], ["func_f_0", "__block_2"])] ∧
    ((ofInstructions enteredProgram).blocks.filter fun b => liesIn 1 6 b.start).map
        (fun b => (b.label, b.successors, b.predecessors)) =
      [("func_f_0", ["inner", "end_f_0"], []), ("__block_3", ["inner"], []),
        ("inner", ["end_f_0"], ["func_f_0", "__block_3", "end_f_0"])] := by
  have hplain : PlainLabels enteredProgram := ⟨by decide +kernel, by decide +kernel⟩
  have hbody : functionBody "f" enteredProgram ≠ [] := by decide +kernel
  exact ⟨hplain, hbody, by decide +kernel, (function_induced hplain hbody).2.1, by decide +kernel,
    by decide +kernel⟩

end SymbolicVM.FlowGraph

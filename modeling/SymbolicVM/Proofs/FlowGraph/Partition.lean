import SymbolicVM.FlowGraph.Basic
import Mathlib.Data.List.Basic
import Mathlib.Tactic.SplitIfs

/-!
# The blocks of a program partition it

A program is cut into segments, and the segments make it up again (`FlowGraph.flatten_segments`). A
segment is never empty, has a label at most at its beginning and an instruction that moves control
at most at its end (`FlowGraph.Uncut`). Segments begin exactly where a block has to begin
(`FlowGraph.mem_startsFrom_segments`).

A block is a segment with its position and without its label. `FlowGraph.partitions_ofInstructions`
says what this means for the blocks of a graph.
-/

namespace SymbolicVM.FlowGraph

/-! ### Cutting -/

/-- A segment with nothing to cut: a label stands at most at the beginning, and an instruction that
moves control at most at the end. -/
structure Uncut (segment : List Instruction) : Prop where
  nonempty : segment ≠ []
  labels : ∀ inst ∈ segment.tail, inst.isLabel = false
  moves : ∀ inst ∈ segment.dropLast, inst.opcode.endsBlock = false

theorem uncut_singleton (inst : Instruction) : Uncut [inst] :=
  ⟨by simp, by simp, by simp⟩

/-- Something else than a label that does not begin a segment may be preceded by an instruction that
does not move control. -/
theorem Uncut.cons {inst next : Instruction} {rest : List Instruction} (h : Uncut (next :: rest))
    (hmoves : inst.opcode.endsBlock = false) (hlabel : next.isLabel = false) :
    Uncut (inst :: next :: rest) where
  nonempty := by simp
  labels := by
    intro other hother
    rcases List.mem_cons.mp hother with rfl | hother
    · exact hlabel
    · exact h.labels other hother
  moves := by
    intro other hother
    rw [List.dropLast_cons_of_ne_nil (by simp)] at hother
    rcases List.mem_cons.mp hother with rfl | hother
    · exact hmoves
    · exact h.moves other hother

/-- The segments of a program that is not empty begin with its first instruction. -/
theorem exists_segments_cons (next : Instruction) (rest : List Instruction) :
    ∃ tail more, segments (next :: rest) = (next :: tail) :: more := by
  cases rest with
  | nil => exact ⟨[], [], rfl⟩
  | cons other rest =>
    rw [segments]
    split_ifs
    · exact ⟨[], _, rfl⟩
    · split
      · exact ⟨[], [], rfl⟩
      · exact ⟨_, _, rfl⟩

/-- An instruction is cut off from the rest, or it joins the first segment of the rest. -/
theorem segments_cons (inst next : Instruction) (rest : List Instruction) :
    ((inst.opcode.endsBlock || next.isLabel) = true ∧
        segments (inst :: next :: rest) = [inst] :: segments (next :: rest)) ∨
      ((inst.opcode.endsBlock || next.isLabel) = false ∧ ∃ tail more,
        segments (next :: rest) = (next :: tail) :: more ∧
          segments (inst :: next :: rest) = (inst :: next :: tail) :: more) := by
  obtain ⟨tail, more, hsegments⟩ := exists_segments_cons next rest
  rw [segments]
  cases hcut : inst.opcode.endsBlock || next.isLabel with
  | true => exact .inl ⟨rfl, rfl⟩
  | false =>
    refine .inr ⟨rfl, tail, more, hsegments, ?_⟩
    rw [hsegments]
    rfl

/-- **Nothing is lost in cutting.** -/
theorem flatten_segments (insts : List Instruction) : (segments insts).flatten = insts := by
  induction insts with
  | nil => rfl
  | cons inst rest ih =>
    cases rest with
    | nil => rfl
    | cons next rest =>
      rcases segments_cons inst next rest with ⟨-, hcons⟩ | ⟨-, tail, more, hrest, hcons⟩
      · rw [hcons, List.flatten_cons, ih]
        rfl
      · rw [hrest, List.flatten_cons] at ih
        rw [hcons, List.flatten_cons, List.cons_append, ih]

/-- **Before a label nothing is cut differently.** -/
theorem segments_append (insts : List Instruction) {rest : List Instruction}
    (h : ∀ inst, rest.head? = some inst → inst.isLabel = true) :
    segments (insts ++ rest) = segments insts ++ segments rest := by
  induction insts with
  | nil => rfl
  | cons inst insts ih =>
    cases insts with
    | nil =>
      cases rest with
      | nil => rfl
      | cons next rest =>
        have hlabel := h next rfl
        rcases segments_cons inst next rest with ⟨-, hcons⟩ | ⟨hcut, -⟩
        · exact hcons
        · simp [hlabel] at hcut
    | cons next insts =>
      -- the first instruction is cut off in both, or joins the same segment in both
      rw [List.cons_append] at ih
      rw [List.cons_append, List.cons_append]
      rcases segments_cons inst next insts with ⟨hcut, hcons⟩ | ⟨hcut, tail, more, hnext, hcons⟩
      · rcases segments_cons inst next (insts ++ rest) with ⟨-, hcons'⟩ | ⟨hcut', -⟩
        · rw [hcons', hcons, ih, List.cons_append]
        · exact Bool.noConfusion (hcut.symm.trans hcut')
      · rcases segments_cons inst next (insts ++ rest) with
          ⟨hcut', -⟩ | ⟨-, tail', more', hnext', hcons'⟩
        · exact Bool.noConfusion (hcut.symm.trans hcut')
        · rw [hnext', hnext, List.cons_append] at ih
          obtain ⟨htail, hmore⟩ := List.cons.inj ih
          rw [hcons', hcons, List.cons_append, hmore, (List.cons.inj htail).2]

theorem uncut_of_mem_segments (insts : List Instruction) :
    ∀ segment ∈ segments insts, Uncut segment := by
  induction insts with
  | nil => simp [segments]
  | cons inst rest ih =>
    cases rest with
    | nil =>
      intro segment hsegment
      rw [List.mem_singleton.mp hsegment]
      exact uncut_singleton inst
    | cons next rest =>
      rcases segments_cons inst next rest with ⟨-, hcons⟩ | ⟨hcut, tail, more, hrest, hcons⟩
      · rw [hcons]
        intro segment hsegment
        rcases List.mem_cons.mp hsegment with rfl | hsegment
        · exact uncut_singleton inst
        · exact ih segment hsegment
      · rw [hrest] at ih
        obtain ⟨hmoves, hlabel⟩ := Bool.or_eq_false_iff.mp hcut
        rw [hcons]
        intro segment hsegment
        rcases List.mem_cons.mp hsegment with rfl | hsegment
        · exact (ih _ List.mem_cons_self).cons hmoves hlabel
        · exact ih segment (List.mem_cons_of_mem _ hsegment)

/-! ### Positions -/

/-- The positions at which segments begin, the first one at `start`. -/
def startsFrom (start : Nat) : List (List Instruction) → List Nat
  | [] => []
  | segment :: more => start :: startsFrom (start + segment.length) more

theorem le_of_mem_startsFrom {start p : Nat} {runs : List (List Instruction)}
    (h : p ∈ startsFrom start runs) : start ≤ p := by
  induction runs generalizing start with
  | nil => simp [startsFrom] at h
  | cons segment more ih =>
    rcases List.mem_cons.mp h with rfl | h
    · exact Nat.le_refl _
    · have := ih h
      omega

theorem pairwise_startsFrom {start : Nat} {runs : List (List Instruction)}
    (h : ∀ segment ∈ runs, segment ≠ []) : (startsFrom start runs).Pairwise (· < ·) := by
  induction runs generalizing start with
  | nil => exact List.Pairwise.nil
  | cons segment more ih =>
    refine List.pairwise_cons.mpr ⟨fun p hp => ?_, ih fun other hother =>
      h other (List.mem_cons_of_mem _ hother)⟩
    have hle := le_of_mem_startsFrom hp
    have hpos := List.length_pos_of_ne_nil (h segment List.mem_cons_self)
    omega

/-- A segment begins where those before it end. -/
theorem getElem?_startsFrom (start k : Nat) (runs : List (List Instruction)) :
    (startsFrom start runs)[k]? =
      (runs[k]?).map fun _ => start + (runs.take k).flatten.length := by
  induction runs generalizing start k with
  | nil => simp [startsFrom]
  | cons segment more ih =>
    cases k with
    | zero => simp [startsFrom]
    | succ k =>
      rw [startsFrom, List.getElem?_cons_succ, ih, List.getElem?_cons_succ]
      simp [Nat.add_assoc]

/-- A block begins at the position: it is the first one of the program, or holds a label, or follows
an instruction that moves control. -/
def BeginsBlock (insts : List Instruction) (p : Nat) : Prop :=
  ∃ inst, insts[p]? = some inst ∧
    (p = 0 ∨ inst.isLabel = true ∨
      ∃ q before, p = q + 1 ∧ insts[q]? = some before ∧ before.opcode.endsBlock = true)

theorem beginsBlock_succ_succ {inst : Instruction} {rest : List Instruction} {p : Nat} :
    BeginsBlock (inst :: rest) (p + 2) ↔ BeginsBlock rest (p + 1) := by
  unfold BeginsBlock
  rw [List.getElem?_cons_succ]
  simp

theorem beginsBlock_one {inst next : Instruction} {rest : List Instruction} :
    BeginsBlock (inst :: next :: rest) 1 ↔ (inst.opcode.endsBlock || next.isLabel) = true := by
  simp [BeginsBlock, or_comm]

/-- **Segments begin exactly where blocks have to begin.** -/
theorem mem_startsFrom_segments (insts : List Instruction) (start p : Nat) :
    start + p ∈ startsFrom start (segments insts) ↔ BeginsBlock insts p := by
  induction insts generalizing start p with
  | nil => simp [segments, startsFrom, BeginsBlock]
  | cons inst rest ih =>
    cases rest with
    | nil => cases p <;> simp [segments, startsFrom, BeginsBlock]
    | cons next rest =>
      -- the first position is always one, the second one exactly where there is a cut, and for all
      -- others it makes no difference whether the first instruction stands alone
      have hshift (q : Nat) : start + (q + 2) = (start + 1) + (q + 1) := by omega
      rcases segments_cons inst next rest with ⟨hcut, hcons⟩ | ⟨hcut, tail, more, hrest, hcons⟩
      · rw [hcons, startsFrom, List.length_singleton, List.mem_cons]
        rcases p with _ | _ | q
        · simp [BeginsBlock]
        · have hfirst := (ih (start + 1) 0).mpr (by simp [BeginsBlock])
          simpa [beginsBlock_one, hcut] using hfirst
        · rw [beginsBlock_succ_succ, ← ih (start + 1), hshift, or_iff_right (by omega)]
      · have hmore := ih (start + 1)
        rw [hrest, startsFrom] at hmore
        have hlength : start + (inst :: next :: tail).length =
            start + 1 + (next :: tail).length := by
          simp only [List.length_cons]
          omega
        rw [hcons, startsFrom, hlength, List.mem_cons]
        rcases p with _ | _ | q
        · simp [BeginsBlock]
        · have hlater : start + 1 ∉ startsFrom (start + 1 + (next :: tail).length) more := by
            intro hmem
            have hle := le_of_mem_startsFrom hmem
            simp only [List.length_cons] at hle
            omega
          simpa [beginsBlock_one, hcut] using hlater
        · rw [beginsBlock_succ_succ, ← hmore, hshift, List.mem_cons, or_iff_right (by omega),
            or_iff_right (by omega)]

/-! ### From segments to blocks -/

theorem map_start_nameSegments (start : Nat) (taken : List String)
    (runs : List (List Instruction)) :
    (nameSegments start taken runs).map (·.start) = startsFrom start runs := by
  induction runs generalizing start taken with
  | nil => rfl
  | cons segment more ih => exact congrArg (start :: ·) (ih _ _)

theorem map_body_nameSegments (start : Nat) (taken : List String)
    (runs : List (List Instruction)) :
    (nameSegments start taken runs).map (·.body) = runs.map fun run => (splitLabel run).2 := by
  induction runs generalizing start taken with
  | nil => rfl
  | cons segment more ih => exact congrArg ((splitLabel segment).2 :: ·) (ih _ _)

/-- The blocks of a graph are its segments, with edges. -/
theorem map_blocks_ofSegments {α : Type} (named : List Segment) (view : Segment → α)
    (view' : Block → α)
    (h : ∀ segment successors predecessors,
      view' ⟨segment.label, segment.start, segment.body, successors, predecessors⟩ =
        view segment) :
    (ofSegments named).blocks.map view' = named.map view := by
  unfold ofSegments
  dsimp only
  rw [List.map_map]
  conv_rhs => rw [← List.zipIdx_map_fst 0 named, List.map_map]
  refine List.map_congr_left fun e _ => ?_
  exact h e.1 _ _

theorem map_start_blocks (insts : List Instruction) :
    (ofInstructions insts).blocks.map (·.start) = startsFrom 0 (segments insts) := by
  unfold ofInstructions
  rw [map_blocks_ofSegments _ (·.start) (·.start) fun _ _ _ => rfl, map_start_nameSegments]

theorem map_body_blocks (insts : List Instruction) :
    (ofInstructions insts).blocks.map (·.body) =
      (segments insts).map fun run => (splitLabel run).2 := by
  unfold ofInstructions
  rw [map_blocks_ofSegments _ (·.body) (·.body) fun _ _ _ => rfl, map_body_nameSegments]

/-- Only a label is split off a segment. -/
theorem splitLabel_cases (segment : List Instruction) :
    (∃ first, first.isLabel = true ∧ segment = first :: (splitLabel segment).2) ∨
      segment = (splitLabel segment).2 := by
  unfold splitLabel
  split
  · rename_i first rest
    split_ifs with hlabel
    · exact .inl ⟨first, hlabel, rfl⟩
    · exact .inr rfl
  · exact .inr rfl

/-- Without its label, a segment has no label. -/
theorem Uncut.splitLabel_eq_filter {segment : List Instruction} (h : Uncut segment) :
    (splitLabel segment).2 = segment.filter fun inst => !inst.isLabel := by
  obtain ⟨first, rest, rfl⟩ := List.exists_cons_of_ne_nil h.nonempty
  have hrest : rest.filter (fun inst => !inst.isLabel) = rest :=
    List.filter_eq_self.mpr fun inst hinst => by rw [h.labels inst hinst, Bool.not_false]
  unfold splitLabel
  dsimp only
  rw [List.filter_cons, hrest]
  cases first.isLabel <;> rfl

/-- Without its label, a segment has an instruction that moves control at most at the end. -/
theorem Uncut.last_of_endsBlock {segment : List Instruction} (h : Uncut segment) {i : Nat}
    {inst : Instruction} (hinst : (splitLabel segment).2[i]? = some inst)
    (hmoves : inst.opcode.endsBlock = true) : i + 1 = (splitLabel segment).2.length := by
  obtain ⟨hlt, -⟩ := List.getElem?_eq_some_iff.mp hinst
  by_contra hne
  have hmem : inst ∈ (splitLabel segment).2.dropLast := by
    refine List.mem_of_getElem? (i := i) ?_
    rw [List.getElem?_dropLast, if_pos (by omega), hinst]
  have hsegment : inst ∈ segment.dropLast := by
    rcases splitLabel_cases segment with ⟨first, -, hcons⟩ | hsame
    · rw [hcons, List.dropLast_cons_of_ne_nil (List.ne_nil_of_mem (List.mem_of_getElem? hinst))]
      exact List.mem_cons_of_mem _ hmem
    · rw [hsame]
      exact hmem
  rw [h.moves inst hsegment] at hmoves
  contradiction

/-- What stands before a segment, the segment, and what stands behind it. -/
theorem flatten_eq_append {runs : List (List Instruction)} {k : Nat} {run : List Instruction}
    (h : runs[k]? = some run) :
    runs.flatten = (runs.take k).flatten ++ (run ++ (runs.drop (k + 1)).flatten) := by
  obtain ⟨hlt, rfl⟩ := List.getElem?_eq_some_iff.mp h
  conv_lhs => rw [← List.take_append_drop k runs, List.drop_eq_getElem_cons hlt]
  rw [List.flatten_append, List.flatten_cons]

/-- A segment is what stands between its beginning and that of the next one. -/
theorem extract_flatten {runs : List (List Instruction)} {k : Nat} {run : List Instruction}
    (h : runs[k]? = some run) :
    runs.flatten.extract (runs.take k).flatten.length (runs.take (k + 1)).flatten.length = run := by
  have hnext : (runs.take (k + 1)).flatten.length =
      (runs.take k).flatten.length + run.length := by
    rw [List.take_add_one, h, List.flatten_append, List.length_append]
    simp
  rw [List.extract_eq_take_drop, hnext, Nat.add_sub_cancel_left, flatten_eq_append h,
    List.drop_left, List.take_left]

/-- The block at a position is made from the segment at that position. -/
theorem exists_segment_of_getElem? {insts : List Instruction} {k : Nat} {b : Block}
    (h : (ofInstructions insts).blocks[k]? = some b) :
    ∃ run, (segments insts)[k]? = some run ∧ Uncut run ∧ b.body = (splitLabel run).2 ∧
      b.start = ((segments insts).take k).flatten.length := by
  have hbody := congrArg (·[k]?) (map_body_blocks insts)
  have hstart := congrArg (·[k]?) (map_start_blocks insts)
  simp only [List.getElem?_map, h, getElem?_startsFrom, Option.map_some] at hbody hstart
  obtain ⟨run, hrun, hsplit⟩ := Option.map_eq_some_iff.mp hbody.symm
  rw [hrun] at hstart
  refine ⟨run, hrun, uncut_of_mem_segments insts run (List.mem_of_getElem? hrun), hsplit.symm, ?_⟩
  simpa using hstart

/-! ### The blocks of a program -/

/-- Blocks begin where they have to, and nowhere else. -/
theorem mem_start_blocks (insts : List Instruction) (p : Nat) :
    p ∈ (ofInstructions insts).blocks.map (·.start) ↔ BeginsBlock insts p := by
  rw [map_start_blocks, ← mem_startsFrom_segments insts 0 p, Nat.zero_add]

theorem pairwise_start_blocks (insts : List Instruction) :
    ((ofInstructions insts).blocks.map (·.start)).Pairwise (· < ·) := by
  rw [map_start_blocks]
  exact pairwise_startsFrom fun run hrun => (uncut_of_mem_segments insts run hrun).nonempty

theorem start_lt_start {insts : List Instruction} {i j : Nat} {a b : Block}
    (ha : (ofInstructions insts).blocks[i]? = some a)
    (hb : (ofInstructions insts).blocks[j]? = some b) (hij : i < j) : a.start < b.start := by
  obtain ⟨hi, rfl⟩ := List.getElem?_eq_some_iff.mp ha
  obtain ⟨hj, rfl⟩ := List.getElem?_eq_some_iff.mp hb
  have hpairwise := List.pairwise_map.mp (pairwise_start_blocks insts)
  exact List.pairwise_iff_getElem.mp hpairwise i j hi hj hij

theorem start_le_start {insts : List Instruction} {i j : Nat} {a b : Block}
    (ha : (ofInstructions insts).blocks[i]? = some a)
    (hb : (ofInstructions insts).blocks[j]? = some b) (hij : i ≤ j) : a.start ≤ b.start := by
  rcases Nat.lt_or_eq_of_le hij with hlt | rfl
  · exact Nat.le_of_lt (start_lt_start ha hb hlt)
  · exact Nat.le_of_eq (congrArg Block.start (Option.some.inj (ha.symm.trans hb)))

/-- No block holds a label. -/
theorem isLabel_of_mem_body {insts : List Instruction} {b : Block}
    (hb : b ∈ (ofInstructions insts).blocks) {inst : Instruction} (hinst : inst ∈ b.body) :
    inst.isLabel = false := by
  obtain ⟨k, hk⟩ := List.getElem?_of_mem hb
  obtain ⟨run, -, huncut, hbody, -⟩ := exists_segment_of_getElem? hk
  rw [hbody, huncut.splitLabel_eq_filter] at hinst
  simpa using (List.mem_filter.mp hinst).2

/-- Only the last instruction of a block moves control. -/
theorem last_of_endsBlock {insts : List Instruction} {b : Block}
    (hb : b ∈ (ofInstructions insts).blocks) {i : Nat} {inst : Instruction}
    (hinst : b.body[i]? = some inst) (hmoves : inst.opcode.endsBlock = true) :
    i + 1 = b.body.length := by
  obtain ⟨k, hk⟩ := List.getElem?_of_mem hb
  obtain ⟨run, -, huncut, hbody, -⟩ := exists_segment_of_getElem? hk
  rw [hbody] at hinst ⊢
  exact huncut.last_of_endsBlock hinst hmoves

/-- The blocks together hold every instruction that is no label, each once and in order. -/
theorem flatMap_body_blocks (insts : List Instruction) :
    (ofInstructions insts).blocks.flatMap (·.body) = insts.filter fun inst => !inst.isLabel := by
  rw [List.flatMap_def, map_body_blocks]
  have hfilter : (segments insts).map (fun run => (splitLabel run).2) =
      (segments insts).map (List.filter fun inst => !inst.isLabel) :=
    List.map_congr_left fun run hrun =>
      (uncut_of_mem_segments insts run hrun).splitLabel_eq_filter
  rw [hfilter, ← List.filter_flatten, flatten_segments]

theorem blocks_eq_nil_iff (insts : List Instruction) :
    (ofInstructions insts).blocks = [] ↔ insts = [] := by
  have hlength := congrArg List.length (map_body_blocks insts)
  rw [List.length_map, List.length_map] at hlength
  rw [← List.length_eq_zero_iff, hlength, List.length_eq_zero_iff]
  constructor
  · intro hnil
    rw [← flatten_segments insts, hnil, List.flatten_nil]
  · rintro rfl
    rfl

/-- Where the block at a position of the list ends: the next one begins there, or the program is
over. -/
def blockEnd (insts : List Instruction) (blocks : List Block) (k : Nat) : Nat :=
  (blocks[k + 1]?.map (·.start)).getD insts.length

theorem blockEnd_ofInstructions (insts : List Instruction) (k : Nat) :
    blockEnd insts (ofInstructions insts).blocks k =
      ((segments insts).take (k + 1)).flatten.length := by
  unfold blockEnd
  rw [← List.getElem?_map, map_start_blocks, getElem?_startsFrom]
  cases hnext : (segments insts)[k + 1]? with
  | some run => simp
  | none =>
    have hlast := List.getElem?_eq_none_iff.mp hnext
    rw [List.take_of_length_le hlast, flatten_segments]
    rfl

/-- A block holds the instructions from its beginning to its end, but for a label with which they
begin. -/
theorem extract_block {insts : List Instruction} {k : Nat} {b : Block}
    (h : (ofInstructions insts).blocks[k]? = some b) :
    insts.extract b.start (blockEnd insts (ofInstructions insts).blocks k) = b.body ∨
      ∃ first, first.isLabel = true ∧
        insts.extract b.start (blockEnd insts (ofInstructions insts).blocks k) =
          first :: b.body := by
  obtain ⟨run, hrun, -, hbody, hstart⟩ := exists_segment_of_getElem? h
  have hextract := extract_flatten hrun
  rw [flatten_segments, ← hstart, ← blockEnd_ofInstructions insts k] at hextract
  rw [hextract, hbody]
  rcases splitLabel_cases run with hlabel | hsame
  · exact .inr hlabel
  · exact .inl hsame

/-- The blocks are the program cut into pieces. -/
structure Partitions (insts : List Instruction) (blocks : List Block) : Prop where
  /-- Each block begins behind the one before it. -/
  increasing : (blocks.map (·.start)).Pairwise (· < ·)
  /-- The first block begins at the first instruction. -/
  first : ∀ b, blocks.head? = some b → b.start = 0
  /-- Only the empty program has no blocks. -/
  empty : blocks = [] ↔ insts = []
  /-- Blocks begin where they have to, and nowhere else. -/
  starts : ∀ p, p ∈ blocks.map (·.start) ↔ BeginsBlock insts p
  /-- A block holds the instructions from its beginning to its end, but for a label with which they
  begin. -/
  bodies : ∀ (k : Nat) b, blocks[k]? = some b →
    insts.extract b.start (blockEnd insts blocks k) = b.body ∨
      ∃ first, first.isLabel = true ∧
        insts.extract b.start (blockEnd insts blocks k) = first :: b.body
  /-- No block holds a label. -/
  labels : ∀ b ∈ blocks, ∀ inst ∈ b.body, inst.isLabel = false
  /-- Only the last instruction of a block moves control. -/
  moves : ∀ b ∈ blocks, ∀ (i : Nat) inst, b.body[i]? = some inst →
    inst.opcode ∈ [Opcode.branch, .branchIf, .ret, .throw] → i + 1 = b.body.length
  /-- The blocks together hold every instruction that is no label, each once and in order. -/
  concatenation : blocks.flatMap (·.body) = insts.filter fun inst => !inst.isLabel

theorem endsBlock_iff (op : Opcode) :
    op.endsBlock = true ↔ op ∈ [Opcode.branch, .branchIf, .ret, .throw] := by
  cases op <;> decide

/-- **The blocks of a program partition it.** -/
theorem partitions_ofInstructions (insts : List Instruction) :
    Partitions insts (ofInstructions insts).blocks where
  increasing := pairwise_start_blocks insts
  first b hb := by
    rw [List.head?_eq_getElem?] at hb
    obtain ⟨run, -, -, -, hstart⟩ := exists_segment_of_getElem? hb
    exact hstart
  empty := blocks_eq_nil_iff insts
  starts := mem_start_blocks insts
  bodies _ _ := extract_block
  labels _ hb _ := isLabel_of_mem_body hb
  moves _ hb _ inst hinst hmoves :=
    last_of_endsBlock hb hinst ((endsBlock_iff inst.opcode).mpr hmoves)
  concatenation := flatMap_body_blocks insts

end SymbolicVM.FlowGraph

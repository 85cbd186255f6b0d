import SymbolicVM.Proofs.FlowGraph.Partition
import Mathlib.Data.List.Nodup

/-!
# When the labels of blocks are distinct

A block takes the label that stands at its beginning unless an earlier block has it already;
otherwise it is named after its position. Whether an earlier block has that name is not asked. So
two blocks have one label exactly if a label of the program has the name of a later position at
which a block begins that is named so (`FlowGraph.labels_distinct_iff`), and then a look-up by this
label finds the later block only.
-/

namespace SymbolicVM.FlowGraph

/-! ### Names -/

/-- Different positions have different names. -/
theorem positionName_injective {m n : Nat} (h : positionName m = positionName n) : m = n := by
  have htext : toString m = toString n := (String.append_right_inj positionHead).mp h
  have hdigits : Nat.toDigits 10 m = Nat.toDigits 10 n := by
    simpa using congrArg String.toList htext
  have hnumber := congrArg (fun cs => Nat.ofDigitChars 10 cs 0) hdigits
  simpa only [Nat.ofDigitChars_ten_toDigits] using hnumber

/-- The name of a block that begins at a position with the given instructions. -/
def nameFor (start : Nat) (taken : List String) (run : List Instruction) : String :=
  match (splitLabel run).1 with
  | some name => if taken.contains name then positionName start else name
  | none => positionName start

theorem nameSegments_cons (start : Nat) (taken : List String) (run : List Instruction)
    (more : List (List Instruction)) :
    nameSegments start taken (run :: more) =
      ⟨nameFor start taken run, start, (splitLabel run).2⟩ ::
        nameSegments (start + run.length) (nameFor start taken run :: taken) more := rfl

/-- A block is named after its position, or it has its own label and that is not taken. -/
theorem nameFor_cases (start : Nat) (taken : List String) (run : List Instruction) :
    nameFor start taken run = positionName start ∨
      ((splitLabel run).1 = some (nameFor start taken run) ∧ nameFor start taken run ∉ taken) := by
  unfold nameFor
  split
  · rename_i name hname
    split_ifs with htaken
    · exact .inl rfl
    · exact .inr ⟨hname, fun hmem => htaken (List.contains_iff_mem.mpr hmem)⟩
  · exact .inl rfl

/-- A label that a block wants is taken then. -/
theorem mem_nameFor_cons {start : Nat} {taken : List String} {run : List Instruction}
    {name : String} (h : (splitLabel run).1 = some name) :
    name ∈ nameFor start taken run :: taken := by
  unfold nameFor
  rw [h]
  dsimp only
  split_ifs with htaken
  · exact List.mem_cons_of_mem _ (List.contains_iff_mem.mp htaken)
  · exact List.mem_cons_self

/-- A segment that is not named after its position has the label that stands at its beginning, and
no segment before it has the same name. -/
theorem label_of_nameSegments {start : Nat} {taken : List String} {runs : List (List Instruction)}
    {k : Nat} {segment : Segment} (h : (nameSegments start taken runs)[k]? = some segment)
    (hown : segment.label ≠ positionName segment.start) :
    (∃ run, runs[k]? = some run ∧ (splitLabel run).1 = some segment.label) ∧
      segment.label ∉ taken ∧
      segment.label ∉ ((nameSegments start taken runs).take k).map (·.label) := by
  induction runs generalizing start taken k with
  | nil => simp [nameSegments] at h
  | cons run more ih =>
    rw [nameSegments_cons] at h ⊢
    cases k with
    | zero =>
      obtain rfl := Option.some.inj h
      obtain ⟨hlabel, hfree⟩ := (nameFor_cases start taken run).resolve_left hown
      exact ⟨⟨run, rfl, hlabel⟩, hfree, by simp⟩
    | succ k =>
      rw [List.getElem?_cons_succ] at h
      obtain ⟨hlabel, hfree, hearlier⟩ := ih h
      rw [List.mem_cons, not_or] at hfree
      refine ⟨hlabel, hfree.2, ?_⟩
      rw [List.take_succ_cons, List.map_cons, List.mem_cons, not_or]
      exact ⟨hfree.1, hearlier⟩

/-- The label that stands at the beginning of a segment is the name of this segment or of one
before. -/
theorem mem_label_nameSegments {start : Nat} {taken : List String}
    {runs : List (List Instruction)} {k : Nat} {run : List Instruction} {name : String}
    (hrun : runs[k]? = some run) (hname : (splitLabel run).1 = some name) :
    name ∈ taken ∨ name ∈ ((nameSegments start taken runs).take (k + 1)).map (·.label) := by
  induction runs generalizing start taken k with
  | nil => simp at hrun
  | cons first more ih =>
    rw [nameSegments_cons, List.take_succ_cons, List.map_cons, List.mem_cons]
    cases k with
    | zero =>
      obtain rfl := Option.some.inj hrun
      rcases List.mem_cons.mp (@mem_nameFor_cons start taken _ _ hname) with h | h
      · exact .inr (.inl h)
      · exact .inl h
    | succ k =>
      rw [List.getElem?_cons_succ] at hrun
      rcases @ih (start + first.length) (nameFor start taken first :: taken) _ hrun with h | h
      · rcases List.mem_cons.mp h with h | h
        · exact .inr (.inl h)
        · exact .inl h
      · exact .inr (.inr h)

/-! ### Labels of a program and labels of its blocks -/

/-- The name of an instruction that is a label. -/
def labelName? (inst : Instruction) : Option String :=
  if inst.isLabel then inst.label else none

/-- A label with the name stands before the position. -/
def NamedBefore (insts : List Instruction) (name : String) (p : Nat) : Prop :=
  ∃ q inst, q < p ∧ insts[q]? = some inst ∧ inst.isLabel = true ∧ inst.label = some name

/-- The label that a segment begins with is that of its first instruction. -/
theorem splitLabel_eq_some {run : List Instruction} {name : String} :
    (splitLabel run).1 = some name ↔
      ∃ inst, run.head? = some inst ∧ inst.isLabel = true ∧ inst.label = some name := by
  unfold splitLabel
  cases run with
  | nil => simp
  | cons first rest =>
    dsimp only
    split_ifs with hlabel
    · simp [hlabel]
    · simp [hlabel]

/-- The first instruction of a segment stands where the segment begins. -/
theorem getElem?_start {insts run : List Instruction} {k : Nat}
    (h : (segments insts)[k]? = some run) :
    insts[((segments insts).take k).flatten.length]? = run.head? := by
  have hne := (uncut_of_mem_segments insts run (List.mem_of_getElem? h)).nonempty
  have hsplit := congrArg (·[((segments insts).take k).flatten.length]?) (flatten_eq_append h)
  rw [flatten_segments] at hsplit
  rw [hsplit, List.getElem?_append_right (Nat.le_refl _), Nat.sub_self, ← List.head?_eq_getElem?,
    List.head?_append_of_ne_nil _ hne]

theorem map_label_blocks (insts : List Instruction) :
    (ofInstructions insts).labels = (nameSegments 0 [] (segments insts)).map (·.label) := by
  unfold labels ofInstructions
  exact map_blocks_ofSegments _ _ _ fun _ _ _ => rfl

/-- The segment that a block is made from. -/
theorem exists_named_of_getElem? {insts : List Instruction} {k : Nat} {b : Block}
    (h : (ofInstructions insts).blocks[k]? = some b) :
    ∃ segment, (nameSegments 0 [] (segments insts))[k]? = some segment ∧
      segment.label = b.label ∧ segment.start = b.start := by
  have hmap := map_blocks_ofSegments (nameSegments 0 [] (segments insts))
    (fun segment => (segment.label, segment.start)) (fun b => (b.label, b.start)) fun _ _ _ => rfl
  have hk := congrArg (·[k]?) hmap
  have hblock : (ofSegments (nameSegments 0 [] (segments insts))).blocks[k]? = some b := h
  simp only [List.getElem?_map, hblock, Option.map_some] at hk
  obtain ⟨segment, hsegment, hviews⟩ := Option.map_eq_some_iff.mp hk.symm
  obtain ⟨hlabel, hstart⟩ := Prod.mk.inj hviews
  exact ⟨segment, hsegment, hlabel, hstart⟩

/-- A block that is not named after its position has the label that stands at its beginning, and no
block before it has the same name. -/
theorem own_label {insts : List Instruction} {k : Nat} {b : Block}
    (h : (ofInstructions insts).blocks[k]? = some b) (hown : b.label ≠ positionName b.start) :
    (∃ inst, insts[b.start]? = some inst ∧ inst.isLabel = true ∧ inst.label = some b.label) ∧
      b.label ∉ (ofInstructions insts).labels.take k := by
  obtain ⟨segment, hsegment, hlabel, hstart⟩ := exists_named_of_getElem? h
  obtain ⟨run, hrun, -, -, hposition⟩ := exists_segment_of_getElem? h
  rw [← hlabel, ← hstart] at hown
  obtain ⟨⟨run', hrun', hsplit⟩, -, hearlier⟩ := label_of_nameSegments hsegment hown
  obtain rfl := Option.some.inj (hrun.symm.trans hrun')
  obtain ⟨inst, hinst, hisLabel, hname⟩ := splitLabel_eq_some.mp hsplit
  rw [hlabel] at hname hearlier
  refine ⟨⟨inst, ?_, hisLabel, hname⟩, ?_⟩
  · rw [hposition, getElem?_start hrun, hinst]
  · rwa [map_label_blocks, ← List.map_take]

/-- Every label of a program is the name of a block that does not begin behind it. -/
theorem exists_block_of_label {insts : List Instruction} {q : Nat} {inst : Instruction}
    {name : String} (hinst : insts[q]? = some inst) (hisLabel : inst.isLabel = true)
    (hname : inst.label = some name) :
    ∃ b ∈ (ofInstructions insts).blocks, b.start ≤ q ∧ b.label = name := by
  -- a block begins at the label
  have hmem := (mem_start_blocks insts q).mpr ⟨inst, hinst, .inr (.inl hisLabel)⟩
  obtain ⟨k, hk⟩ := List.getElem?_of_mem hmem
  rw [List.getElem?_map] at hk
  obtain ⟨b, hb, hstart⟩ := Option.map_eq_some_iff.mp hk
  obtain ⟨run, hrun, -, -, hposition⟩ := exists_segment_of_getElem? hb
  have hhead : run.head? = some inst := by
    rw [← getElem?_start hrun, ← hposition, hstart, hinst]
  have hsplit : (splitLabel run).1 = some name :=
    splitLabel_eq_some.mpr ⟨inst, hhead, hisLabel, hname⟩
  -- the block itself or one before it has the name
  have htaken := (@mem_label_nameSegments 0 [] _ _ _ _ hrun hsplit).resolve_left (by simp)
  rw [List.map_take, ← map_label_blocks, labels, ← List.map_take] at htaken
  obtain ⟨c, hc, hlabel⟩ := List.mem_map.mp htaken
  obtain ⟨j, hj⟩ := List.getElem?_of_mem hc
  rw [List.getElem?_take] at hj
  split_ifs at hj with hjk
  have hle := start_le_start hj hb (by omega)
  exact ⟨c, List.mem_of_mem_take hc, hstart ▸ hle, hlabel⟩

/-! ### Look-ups -/

/-- A block with a label that no other block has is found by it. -/
theorem block?_label {g : FlowGraph} (h : g.labels.Nodup) {b : Block} (hb : b ∈ g.blocks) :
    g.block? b.label = some b := by
  unfold block?
  cases hfind : g.blocks.reverse.find? fun c => c.label == b.label with
  | none =>
    have hnone := List.find?_eq_none.mp hfind b (List.mem_reverse.mpr hb)
    simp at hnone
  | some c =>
    have hc : c ∈ g.blocks := List.mem_reverse.mp (List.mem_of_find?_eq_some hfind)
    have hlabel : c.label = b.label := by simpa using List.find?_some hfind
    rw [List.inj_on_of_nodup_map h hc hb hlabel]

/-- No block that is named after its position comes behind a label with that name. -/
def PositionNamesFree (insts : List Instruction) : Prop :=
  ∀ b ∈ (ofInstructions insts).blocks, b.label = positionName b.start →
    ¬ NamedBefore insts b.label b.start

/-- If no position name is used by an earlier label, all labels are distinct. -/
theorem labels_nodup_of_positionNamesFree {insts : List Instruction}
    (h : PositionNamesFree insts) : (ofInstructions insts).labels.Nodup := by
  rw [List.nodup_iff_getElem?_ne_getElem?]
  intro i j hij hj heq
  rw [labels, List.length_map] at hj
  have hbj := List.getElem?_eq_getElem hj
  have hbi := List.getElem?_eq_getElem (Nat.lt_trans hij hj)
  set b := (ofInstructions insts).blocks[j]
  set a := (ofInstructions insts).blocks[i]
  have hlabel : a.label = b.label := by
    simpa [labels, List.getElem?_map, hbi, hbj] using heq
  have hlt := start_lt_start hbi hbj hij
  -- the later block is named after its position, as its own label would not be taken again
  have hposition : b.label = positionName b.start := by
    by_contra hown
    refine (own_label hbj hown).2 (List.mem_of_getElem? (i := i) ?_)
    rw [List.getElem?_take, if_pos hij, labels, List.getElem?_map, hbi, ← hlabel]
    rfl
  -- the earlier one is not, as its position is another
  have hown : a.label ≠ positionName a.start := by
    rw [hlabel, hposition]
    intro hsame
    have := positionName_injective hsame
    omega
  obtain ⟨inst, hinst, hisLabel, hname⟩ := (own_label hbi hown).1
  refine h b (List.mem_of_getElem? hbj) hposition ⟨a.start, inst, hlt, hinst, hisLabel, ?_⟩
  rw [hname, hlabel]

/-- If every block is found by its label, then no position name is used by an earlier label. -/
theorem positionNamesFree_of_block? {insts : List Instruction}
    (h : ∀ b ∈ (ofInstructions insts).blocks, (ofInstructions insts).block? b.label = some b) :
    PositionNamesFree insts := by
  rintro b hb - ⟨q, inst, hq, hinst, hisLabel, hname⟩
  obtain ⟨c, hc, hle, hlabel⟩ := exists_block_of_label hinst hisLabel hname
  have hsame : c = b := by
    have hfound := h c hc
    rw [hlabel, h b hb] at hfound
    exact (Option.some.inj hfound).symm
  rw [hsame] at hle
  omega

/-- **The labels of the blocks are distinct exactly if no position name is used by an earlier
label**, and exactly then every block is found by its label. -/
theorem labels_distinct_iff (insts : List Instruction) :
    ((ofInstructions insts).labels.Nodup ↔ PositionNamesFree insts) ∧
      ((∀ b ∈ (ofInstructions insts).blocks, (ofInstructions insts).block? b.label = some b) ↔
        PositionNamesFree insts) := by
  have hfound : PositionNamesFree insts →
      ∀ b ∈ (ofInstructions insts).blocks, (ofInstructions insts).block? b.label = some b :=
    fun h _ hb => block?_label (labels_nodup_of_positionNamesFree h) hb
  refine ⟨⟨fun h => ?_, labels_nodup_of_positionNamesFree⟩, positionNamesFree_of_block?, hfound⟩
  exact positionNamesFree_of_block? fun _ hb => block?_label h hb

/-- A program whose label is the name of the position after its first block. -/
def clashingProgram : List Instruction :=
  [{ opcode := .label, label := some "__block_3" },
    { opcode := .const, result := some "%0", operands := [.text "1"] },
    { opcode := .ret, operands := [.text "%0"] },
    { opcode := .const, result := some "%0", operands := [.text "2"] },
    { opcode := .ret, operands := [.text "%0"] }]

/-- Both blocks of this program have the same label, so the first one is not found by it. -/
theorem clashingProgram_labels :
    (ofInstructions clashingProgram).labels = ["__block_3", "__block_3"] ∧
      ¬ (ofInstructions clashingProgram).labels.Nodup ∧
      ¬ ∀ b ∈ (ofInstructions clashingProgram).blocks,
        (ofInstructions clashingProgram).block? b.label = some b := by
  decide

end SymbolicVM.FlowGraph

import SymbolicVM.Proofs.FlowGraph.Edges

/-!
# Programs whose labels do not clash

If the labels of a program are distinct and none looks like the name of a position, every block has
the label that stands at its beginning, or is named after its position if there is none
(`FlowGraph.PlainLabels.namedSegments_eq`). What name a block has is then a matter of the block
alone. So segments are named alike in a program and in a part of it
(`FlowGraph.ownSegments_append`), and moving a program changes the names of positions only
(`FlowGraph.ownSegments_add`).
-/

namespace SymbolicVM.FlowGraph

/-! ### Names without clashes -/

/-- Whether a name begins like that of a position. -/
def isPositionLike (name : String) : Bool :=
  Text.startsWith positionHead name

theorem isPositionLike_positionName (start : Nat) : isPositionLike (positionName start) = true := by
  unfold isPositionLike Text.startsWith positionName
  rw [String.toList_append, List.isPrefixOf_iff_prefix]
  exact List.prefix_append _ _

theorem ne_positionName {name : String} (h : isPositionLike name = false) (start : Nat) :
    name ≠ positionName start := by
  rintro rfl
  rw [isPositionLike_positionName] at h
  cases h

/-- The names of labels are distinct, and neither labels nor branches mention a name that begins
like that of a position. -/
structure PlainLabels (insts : List Instruction) : Prop where
  distinct : (insts.filterMap labelName?).Nodup
  mentions : ∀ inst ∈ insts, ∀ name ∈ (labelName? inst).toList ++ inst.targets,
    isPositionLike name = false

/-- The same holds of a part of the program. -/
theorem PlainLabels.sublist {insts part : List Instruction} (h : PlainLabels insts)
    (hpart : part.Sublist insts) : PlainLabels part where
  distinct := h.distinct.sublist (hpart.filterMap _)
  mentions inst hinst := h.mentions inst (hpart.subset hinst)

theorem PlainLabels.middle {before part after : List Instruction}
    (h : PlainLabels (before ++ (part ++ after))) : PlainLabels part :=
  h.sublist ((List.sublist_append_left _ _).trans (List.sublist_append_right _ _))

/-- The labels that stand at the beginning of segments. -/
def wantedLabels (runs : List (List Instruction)) : List String :=
  runs.filterMap fun run => (splitLabel run).1

theorem wantedLabels_cons (run : List Instruction) (more : List (List Instruction)) :
    wantedLabels (run :: more) = (splitLabel run).1.toList ++ wantedLabels more := by
  unfold wantedLabels
  rw [List.filterMap_cons]
  cases (splitLabel run).1 <;> rfl

theorem Uncut.filterMap_labelName? {run : List Instruction} (h : Uncut run) :
    run.filterMap labelName? = (splitLabel run).1.toList := by
  obtain ⟨first, rest, rfl⟩ := List.exists_cons_of_ne_nil h.nonempty
  have hrest : rest.filterMap labelName? = [] := by
    refine List.filterMap_eq_nil_iff.mpr fun inst hinst => ?_
    rw [labelName?, h.labels inst hinst]
    rfl
  unfold splitLabel
  dsimp only
  rw [List.filterMap_cons, hrest, labelName?]
  cases first.isLabel with
  | false => rfl
  | true => cases first.label <;> simp

/-- All labels of a program stand at the beginning of segments. -/
theorem wantedLabels_segments (insts : List Instruction) :
    wantedLabels (segments insts) = insts.filterMap labelName? := by
  have hruns : ∀ runs : List (List Instruction), (∀ run ∈ runs, Uncut run) →
      wantedLabels runs = runs.flatten.filterMap labelName? := by
    intro runs huncut
    induction runs with
    | nil => rfl
    | cons run more ih =>
      rw [wantedLabels_cons, List.flatten_cons, List.filterMap_append,
        (huncut run List.mem_cons_self).filterMap_labelName?,
        ih fun other hother => huncut other (List.mem_cons_of_mem _ hother)]
  rw [hruns _ (uncut_of_mem_segments insts), flatten_segments]

/-- The name of a block that has its own label or none. -/
def ownName (start : Nat) (run : List Instruction) : String :=
  (splitLabel run).1.getD (positionName start)

/-- The segments from a position on, each with its own label as far as it has one. -/
def ownSegments (start : Nat) : List (List Instruction) → List Segment
  | [] => []
  | run :: more =>
    ⟨ownName start run, start, (splitLabel run).2⟩ :: ownSegments (start + run.length) more

/-- Distinct labels are all taken. -/
theorem nameSegments_eq_ownSegments {start : Nat} {taken : List String}
    {runs : List (List Instruction)} (hdistinct : (wantedLabels runs).Nodup)
    (hlike : ∀ name ∈ wantedLabels runs, isPositionLike name = false)
    (hfree : ∀ name ∈ wantedLabels runs, name ∉ taken) :
    nameSegments start taken runs = ownSegments start runs := by
  induction runs generalizing start taken with
  | nil => rfl
  | cons run more ih =>
    rw [wantedLabels_cons] at hdistinct hlike hfree
    obtain ⟨-, hmore, hapart⟩ := List.nodup_append.mp hdistinct
    have hname : nameFor start taken run = ownName start run := by
      unfold nameFor ownName
      cases hwanted : (splitLabel run).1 with
      | none => rfl
      | some name =>
        have hnot : name ∉ taken := hfree name (by simp [hwanted])
        simp [hnot]
    rw [nameSegments_cons, ownSegments, hname]
    refine congrArg _ (ih hmore (fun name hmem => hlike name (List.mem_append_right _ hmem)) ?_)
    intro name hmem htaken
    rcases List.mem_cons.mp htaken with hsame | htaken
    · -- the name just given is a label of its own or no label at all
      unfold ownName at hsame
      cases hwanted : (splitLabel run).1 with
      | none =>
        rw [hwanted] at hsame
        exact ne_positionName (hlike name (List.mem_append_right _ hmem)) start hsame
      | some own =>
        rw [hwanted] at hsame
        exact hapart own (by simp [hwanted]) name hmem hsame.symm
    · exact hfree name (List.mem_append_right _ hmem) htaken

theorem PlainLabels.isPositionLike_of_mem {insts : List Instruction} (h : PlainLabels insts)
    {name : String} (hname : name ∈ wantedLabels (segments insts)) :
    isPositionLike name = false := by
  rw [wantedLabels_segments] at hname
  obtain ⟨inst, hinst, hlabel⟩ := List.mem_filterMap.mp hname
  exact h.mentions inst hinst name (List.mem_append_left _ (by simp [hlabel]))

theorem PlainLabels.namedSegments_eq {insts : List Instruction} (h : PlainLabels insts) :
    namedSegments insts = ownSegments 0 (segments insts) := by
  refine nameSegments_eq_ownSegments ?_ (fun _ => h.isPositionLike_of_mem)
    fun _ _ hmem => absurd hmem List.not_mem_nil
  rw [wantedLabels_segments]
  exact h.distinct

/-- Labels stand for blocks then. -/
theorem PlainLabels.labels_nodup {insts : List Instruction} (h : PlainLabels insts) :
    (ofInstructions insts).labels.Nodup := by
  refine labels_nodup_of_positionNamesFree fun b _ hposition => ?_
  rintro ⟨q, inst, -, hinst, hisLabel, hname⟩
  have hlabel : b.label ∈ (labelName? inst).toList := by simp [labelName?, hisLabel, hname]
  have hlike := h.mentions inst (List.mem_of_getElem? hinst) _ (List.mem_append_left _ hlabel)
  exact ne_positionName hlike b.start hposition

theorem ownSegments_append (start : Nat) (runs more : List (List Instruction)) :
    ownSegments start (runs ++ more) =
      ownSegments start runs ++ ownSegments (start + runs.flatten.length) more := by
  induction runs generalizing start with
  | nil => rfl
  | cons run runs ih =>
    rw [List.cons_append, ownSegments, ownSegments, ih, List.flatten_cons, List.length_append,
      Nat.add_assoc, List.cons_append]

/-- A segment of a program that is moved by some positions. -/
def Segment.moved (offset : Nat) (segment : Segment) : Segment where
  label := if segment.label = positionName segment.start then positionName (segment.start + offset)
    else segment.label
  start := segment.start + offset
  body := segment.body

/-- Moving a segment changes nothing about which names it has, names of positions apart. -/
theorem Segment.label_moved_eq_iff {offset : Nat} {segment : Segment} {name : String}
    (hname : isPositionLike name = false) :
    (segment.moved offset).label = name ↔ segment.label = name := by
  unfold Segment.moved
  dsimp only
  split_ifs with hposition
  · rw [hposition]
    exact iff_of_false (ne_positionName hname _).symm (ne_positionName hname _).symm
  · rfl

/-- Moving a program moves its segments. -/
theorem ownSegments_add (start offset : Nat) {runs : List (List Instruction)}
    (hlike : ∀ name ∈ wantedLabels runs, isPositionLike name = false) :
    ownSegments (start + offset) runs = (ownSegments start runs).map (Segment.moved offset) := by
  induction runs generalizing start with
  | nil => rfl
  | cons run more ih =>
    rw [wantedLabels_cons] at hlike
    have hname : ownName (start + offset) run = if ownName start run = positionName start then
        positionName (start + offset) else ownName start run := by
      unfold ownName
      cases hwanted : (splitLabel run).1 with
      | none => simp
      | some name =>
        have hne := ne_positionName (hlike name (by simp [hwanted])) start
        simp [hne]
    rw [ownSegments, ownSegments, List.map_cons, hname, Nat.add_right_comm,
      ih _ fun name hmem => hlike name (List.mem_append_right _ hmem)]
    rfl

/-- Segments begin between the beginning of the first and the end of the last one. -/
theorem start_of_mem_ownSegments {start : Nat} {runs : List (List Instruction)} {segment : Segment}
    (hruns : ∀ run ∈ runs, run ≠ []) (h : segment ∈ ownSegments start runs) :
    start ≤ segment.start ∧ segment.start < start + runs.flatten.length := by
  induction runs generalizing start with
  | nil => exact absurd h List.not_mem_nil
  | cons run more ih =>
    have hpos := List.length_pos_of_ne_nil (hruns run List.mem_cons_self)
    rw [List.flatten_cons, List.length_append]
    rcases List.mem_cons.mp h with rfl | h
    · constructor
      · exact Nat.le_refl _
      · dsimp only
        omega
    · have := ih (fun other hother => hruns other (List.mem_cons_of_mem _ hother)) h
      omega

end SymbolicVM.FlowGraph

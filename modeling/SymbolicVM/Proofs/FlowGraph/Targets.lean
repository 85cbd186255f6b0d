import SymbolicVM.Proofs.FlowGraph.Edges
import SymbolicVM.Proofs.Text.Split

/-!
# Targets of branches

The label of a branch is read in two ways. The graph cuts it at every comma (`Instruction.targets`);
a conditional branch that is decided must have exactly two names in it
(`Instruction.branchTargets?`). The two readings agree
(`Instruction.targets_of_branchTargets?`), so the blocks that a branch may lead to are successors of
its block (`FlowGraph.successors_of_branch`).
-/

namespace SymbolicVM

namespace Instruction

variable {inst : Instruction} {onTrue onFalse : String}

theorem opcode_of_branchTargets? (h : inst.branchTargets? = some (onTrue, onFalse)) :
    inst.opcode = .branchIf := by
  unfold branchTargets? at h
  split_ifs at h with hop
  exact hop

/-- The two targets of a conditional branch are all of its targets. -/
theorem targets_of_branchTargets? (h : inst.branchTargets? = some (onTrue, onFalse)) :
    inst.targets = [onTrue, onFalse] := by
  have hop := opcode_of_branchTargets? h
  unfold branchTargets? at h
  rw [if_pos hop] at h
  obtain ⟨label, hlabel, h⟩ := Option.bind_eq_some_iff.mp h
  obtain ⟨⟨before, after⟩, hsplit, h⟩ := Option.bind_eq_some_iff.mp h
  dsimp only at h
  split_ifs at h with hbad
  obtain ⟨rfl, rfl⟩ := Prod.mk.inj (Option.some.inj h)
  simp only [Bool.or_eq_true, not_or] at hbad
  obtain ⟨⟨htrue, hfalse⟩, hcomma⟩ := hbad
  have hbefore : ∀ c ∈ before, (c == ',') = false := by
    intro c hc
    simpa using Text.ne_of_mem_splitOnce hsplit c hc
  -- a comma behind the first one would survive the trimming
  have hafter : ∀ c ∈ after, (c == ',') = false := by
    intro c hc
    rw [beq_eq_false_iff_ne]
    rintro rfl
    exact hcomma (List.contains_iff_mem.mpr (Text.mem_trimChars hc (by decide)))
  have hpieces : Text.splitWhere (fun c => c == ',') label.toList = [before, after] := by
    rw [Text.splitOnce_eq_some hsplit, Text.splitWhere_append_cons hbefore (by decide),
      Text.splitWhere_of_forall hafter]
  unfold targets
  rw [hop, hlabel]
  dsimp only
  rw [hpieces]
  simp [htrue, hfalse]

/-- A jump without blanks around its label has that label as its target. -/
theorem targets_of_branch {label : String} (hop : inst.opcode = .branch)
    (hlabel : inst.label = some label) (htrim : Text.trim label = label) :
    inst.targets = [label] := by
  unfold targets
  rw [hop, hlabel]
  exact congrArg (fun target => [target]) htrim

end Instruction

/-- No jump of the program has blanks around its label. -/
def TrimmedJumps (insts : List Instruction) : Prop :=
  ∀ inst ∈ insts, inst.opcode = .branch → ∀ label, inst.label = some label →
    Text.trim label = label

namespace FlowGraph

variable {insts : List Instruction} {b : Block} {inst : Instruction}

/-- The instructions of the blocks are those of the program. -/
theorem mem_of_mem_body (hb : b ∈ (ofInstructions insts).blocks) (hinst : inst ∈ b.body) :
    inst ∈ insts := by
  have hmem : inst ∈ (ofInstructions insts).blocks.flatMap (·.body) :=
    List.mem_flatMap.mpr ⟨b, hb, hinst⟩
  rw [flatMap_body_blocks] at hmem
  exact (List.mem_filter.mp hmem).1

theorem mem_of_block? {g : FlowGraph} {label : String} (h : g.block? label = some b) :
    b ∈ g.blocks :=
  List.mem_reverse.mp (List.mem_of_find?_eq_some h)

/-- An instruction that moves control is the last one of its block. -/
theorem last?_of_endsBlock (hb : b ∈ (ofInstructions insts).blocks) {i : Nat}
    (hinst : b.body[i]? = some inst) (hmoves : inst.opcode.endsBlock = true) :
    b.last? = some inst ∧ b.body[i + 1]? = none := by
  have hlength := last_of_endsBlock hb hinst hmoves
  constructor
  · unfold Block.last?
    rw [List.getLast?_eq_getElem?, ← hlength, Nat.add_sub_cancel, hinst]
  · exact List.getElem?_eq_none (Nat.le_of_eq hlength.symm)

/-- A block with a branch leads to those of its targets that exist. -/
theorem successors_of_branch (hb : b ∈ (ofInstructions insts).blocks) {i : Nat}
    (hinst : b.body[i]? = some inst) (hop : inst.opcode = .branch ∨ inst.opcode = .branchIf) :
    b.successors = (inst.targets.filter (ofInstructions insts).contains).eraseDups := by
  have hmoves : inst.opcode.endsBlock = true := by
    rcases hop with hop | hop <;> rw [hop] <;> rfl
  obtain ⟨hlast, -⟩ := last?_of_endsBlock hb hinst hmoves
  obtain ⟨k, segment, -, rfl⟩ := exists_segment_of_mem hb
  exact successorsOf_branch hlast hop

theorem mem_successors_of_branch (hb : b ∈ (ofInstructions insts).blocks) {i : Nat}
    (hinst : b.body[i]? = some inst) (hop : inst.opcode = .branch ∨ inst.opcode = .branchIf)
    {label : String} (htarget : label ∈ inst.targets)
    (hcontains : (ofInstructions insts).contains label = true) : label ∈ b.successors := by
  rw [successors_of_branch hb hinst hop, List.mem_eraseDups, List.mem_filter]
  exact ⟨htarget, hcontains⟩

end FlowGraph

end SymbolicVM

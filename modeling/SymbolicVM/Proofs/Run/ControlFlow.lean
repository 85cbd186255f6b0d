import SymbolicVM.Proofs.Engine.Steering
import SymbolicVM.Proofs.Listing.Words
import SymbolicVM.Proofs.Run.CallBracket

/-!
# Runs follow the graph

A step that does not end the run passes a label, leaves a block at its end, or performs an
instruction (`Run.Moves`). For a run with the symbolic oracle this leaves four ways for control to
move: to the next instruction, along an edge of the graph, into a callee, or back to where a frame
was called from (`Run.Transition`). A block that a branch leads to is a successor of the branch's
block because the graph and the engine read the branch's label alike.
-/

namespace SymbolicVM.Run

section Steps

variable {σ : Type} {g : FlowGraph} {registry : Registry} {oracle : Oracle σ} {keepTrace : Bool}
  {p q : Progress σ}

variable (g registry oracle) in
/-- What a step from `p` did that leads to `q`. -/
inductive Moves (p q : Progress σ) : Prop where
  /-- It passed a label. -/
  | passed (inst : Instruction) (located : instruction? g p.control = some inst)
      (label : inst.isLabel = true) (state : q.state = p.state)
      (control : q.control = ⟨p.control.label, p.control.offset + 1⟩)
  /-- It left a block at its end for the first successor. -/
  | left (block : Block) (next : String) (found : g.block? p.control.label = some block)
      (atEnd : block.body[p.control.offset]? = none) (first : block.successors.head? = some next)
      (state : q.state = p.state) (control : q.control = ⟨next, 0⟩)
  /-- It performed an instruction. -/
  | performed (inst : Instruction) (d : Delta) (applied : State.Applied)
      (performs : Performs g registry oracle p inst d) (apply : p.state.apply d = .ok applied)
      (advance : advance g inst p.control d p.state.depth applied = (q.state, .goto q.control))

theorem moves_of_step (h : step g registry oracle keepTrace p = .next q) :
    Moves g registry oracle p q := by
  have houtcome : StepOutcome g registry oracle p q (.goto q.control) :=
    stepOutcome_of_reaches (.inl ⟨h, rfl⟩)
  unfold step at h
  dsimp only at h
  split at h
  · contradiction
  · rename_i block hblock
    have hlocated : instruction? g p.control = block.body[p.control.offset]? := by
      unfold instruction?
      rw [hblock]
      rfl
    split at h
    · rename_i hend
      split at h
      · rename_i next hnext
        obtain rfl := StepResult.next.inj h
        exact .left block next hblock hend hnext rfl rfl
      · contradiction
    · rename_i inst hinst
      rw [hinst] at hlocated
      split_ifs at h with hlabel
      · obtain rfl := StepResult.next.inj h
        exact .passed inst hlocated hlabel rfl rfl
      · cases houtcome with
        | moved state idle ends => exact absurd (idle inst hlocated) hlabel
        | performed inst d applied located decided apply advance =>
          exact .performed inst d applied ⟨located, decided⟩ apply advance

variable (g registry oracle) in
/-- How control moves with a step from `p` to `q`. -/
inductive Transition (p q : Progress σ) : Prop where
  /-- To the next instruction of the block. -/
  | continues (control : q.control = ⟨p.control.label, p.control.offset + 1⟩)
  /-- To the beginning of a block that the graph has as a successor. -/
  | follows (block : Block) (found : g.block? p.control.label = some block)
      (edge : q.control.label ∈ block.successors) (start : q.control.offset = 0)
  /-- To the beginning of the block that a call names, in a new frame. -/
  | enters (inst : Instruction) (d : Delta) (push : CallPush)
      (performs : Performs g registry oracle p inst d) (pushed : d.callPush = some push)
      (deeper : q.state.depth = p.state.depth + 1) (next : d.nextLabel = some q.control.label)
      (start : q.control.offset = 0)
  /-- To the point that the frame which returns or throws was stamped with. -/
  | returns (inst : Instruction) (d : Delta) (f : Frame)
      (performs : Performs g registry oracle p inst d)
      (opcode : inst.opcode = .ret ∨ inst.opcode = .throw) (current : p.state.current? = some f)
      (deep : 1 < p.state.depth) (popped : q.state.depth + 1 = p.state.depth)
      (label : f.returnLabel = some q.control.label)
      (offset : f.returnOffset = some q.control.offset)

end Steps

/-! ### Branches -/

variable {insts : List Instruction} {registry : Registry} {options : RunOptions}
  {p q : Progress Unit} {inst : Instruction} {d : Delta} {label : String}

/-- A label that a decision names without calling is a target of the instruction. -/
theorem mem_targets_of_decision (htrim : TrimmedJumps insts) (hinst : inst ∈ insts)
    (hdecided : decision? registry SymbolicOracle.oracle inst p = some d)
    (hpush : d.callPush = none) (hnext : d.nextLabel = some label) :
    (inst.opcode = .branch ∨ inst.opcode = .branchIf) ∧ label ∈ inst.targets := by
  rcases decision?_cases hdecided with hengine | horacle
  · cases Engine.decide_steers hengine with
    | steady quiet =>
      rw [quiet.next] at hnext
      contradiction
    | jumps opcode next push =>
      rw [next] at hnext
      rw [Instruction.targets_of_branch opcode hnext (htrim inst hinst opcode label hnext)]
      exact ⟨.inl opcode, List.mem_singleton_self label⟩
    | branches onTrue onFalse condition v taken targets operand resolved truth next push path =>
      rw [next] at hnext
      obtain rfl := Option.some.inj hnext
      rw [Instruction.targets_of_branchTargets? targets]
      refine ⟨.inr (Instruction.opcode_of_branchTargets? targets), ?_⟩
      cases taken <;> simp
    | returns opcode next push =>
      rw [next] at hnext
      contradiction
    | calls f params known push next =>
      rw [push] at hpush
      contradiction
    | constructs c name label known push next =>
      rw [push] at hpush
      contradiction
  · obtain ⟨-, hlabel⟩ := SymbolicOracle.nextLabel_of_answer horacle
    obtain ⟨onFalse, htargets⟩ := hlabel label hnext
    rw [Instruction.targets_of_branchTargets? htargets]
    exact ⟨.inr (Instruction.opcode_of_branchTargets? htargets), List.mem_cons_self⟩

/-! ### Performed instructions -/

section Performed

variable {applied : State.Applied} {f : Frame} {callers : List Frame}

/-- An instruction that leaves the stack alone moves control by an edge, if at all. -/
theorem transition_of_keeps (htrim : TrimmedJumps insts) (hf : p.state.frames = f :: callers)
    (hperforms : Performs (.ofInstructions insts) registry SymbolicOracle.oracle p inst d)
    (hstack : d.KeepsStack) (hop : ¬ inst.Unwinds) (happly : p.state.apply d = .ok applied)
    (hadvance : advance (.ofInstructions insts) inst p.control d p.state.depth applied =
      (q.state, .goto q.control)) :
    Transition (.ofInstructions insts) registry SymbolicOracle.oracle p q := by
  obtain ⟨-, hflow⟩ := advance_of_keeps hf hstack hop happly hadvance
  have hcontrol := Flow.goto.inj hflow
  rcases nextControl_cases (.ofInstructions insts) p.control d with
    ⟨hnext, -⟩ | ⟨label, hlabel, hcontains, hnext⟩
  · exact .continues (hcontrol.trans hnext)
  · obtain ⟨block, hblock, hinst⟩ := Option.bind_eq_some_iff.mp hperforms.1
    have hb := FlowGraph.mem_of_block? hblock
    have hmem := FlowGraph.mem_of_mem_body hb (List.mem_of_getElem? hinst)
    obtain ⟨hbranch, htarget⟩ :=
      mem_targets_of_decision htrim hmem hperforms.2 hstack.push hlabel
    rw [hnext] at hcontrol
    refine .follows block hblock ?_ ?_
    · rw [hcontrol]
      exact FlowGraph.mem_successors_of_branch hb hinst hbranch htarget hcontains
    · rw [hcontrol]

/-- A call enters the block that it names or, if there is none, goes on behind itself. -/
theorem transition_of_pushes {g : FlowGraph} {push : CallPush}
    (hf : p.state.frames = f :: callers)
    (hperforms : Performs g registry SymbolicOracle.oracle p inst d)
    (hpush : d.callPush = some push) (hpop : d.callPop = false) (hop : ¬ inst.Unwinds)
    (hlabel : d.nextLabel.isSome = true) (happly : p.state.apply d = .ok applied)
    (hadvance : advance g inst p.control d p.state.depth applied = (q.state, .goto q.control)) :
    Transition g registry SymbolicOracle.oracle p q := by
  obtain ⟨⟨f', callee, hafter, -⟩, hflow⟩ :=
    advance_of_pushes hf hpush hpop hop hlabel happly hadvance
  have hcontrol := Flow.goto.inj hflow
  rcases nextControl_cases g p.control d with ⟨hnext, -⟩ | ⟨label, hlabel, -, hnext⟩
  · exact .continues (hcontrol.trans hnext)
  · rw [hnext] at hcontrol
    have hdepth : q.state.depth = p.state.depth + 1 := by
      unfold State.depth
      rw [hf, hafter]
      rfl
    refine .enters inst d push hperforms hpush hdepth ?_ ?_
    · rw [hcontrol, hlabel]
    · rw [hcontrol]

/-- A frame returns to the point that it is stamped with. -/
theorem transition_of_pops {g : FlowGraph} {v : Value} (hlinked : Linked g p.state.frames)
    (hf : p.state.frames = f :: callers)
    (hperforms : Performs g registry SymbolicOracle.oracle p inst d) (hpush : d.callPush = none)
    (hpop : d.callPop = true) (hop : inst.Unwinds) (hvalue : d.returnValue = some v)
    (happly : p.state.apply d = .ok applied)
    (hadvance : advance g inst p.control d p.state.depth applied = (q.state, .goto q.control)) :
    Transition g registry SymbolicOracle.oracle p q := by
  rcases advance_of_pops hf hpush hpop hop hvalue happly hadvance with
    ⟨-, -, hflow⟩ | ⟨hcallers, hafter, hflow⟩
  · contradiction
  · rw [hf] at hlinked
    obtain ⟨label, offset, block, hlabel, hoffset, hblock, -⟩ := (hlinked.tail hcallers).1
    rw [returnFlow_of_returnsInto hlabel hoffset hblock] at hflow
    have hcontrol := Flow.goto.inj hflow
    have hlength := List.length_pos_of_ne_nil hcallers
    refine .returns inst d f hperforms hop ?_ ?_ ?_ ?_ ?_
    · unfold State.current?
      rw [hf]
      rfl
    · unfold State.depth
      rw [hf, List.length_cons]
      omega
    · unfold State.depth
      rw [hf, hafter, length_deliver, List.length_cons]
    · rw [hlabel, hcontrol]
    · rw [hoffset, hcontrol]

end Performed

/-- **Every run follows the graph.** In a program in which no jump has blanks around its label, such
as any that is read from a listing, each step of a run with the symbolic oracle that is followed by
another one

* goes on to the next instruction of the block, or
* goes to the beginning of a successor of the block, or
* pushes a frame and goes to the beginning of the block that its delta names, or
* returns or throws from a frame that is not the outermost one, and goes to the point that this
  frame was stamped with. -/
theorem steps_follow_graph :
    (∀ text insts, Listing.parse text = .ok insts → TrimmedJumps insts) ∧
    ∀ (insts : List Instruction) (registry : Registry) (options : RunOptions),
      TrimmedJumps insts →
      ∀ p ∈ history (.ofInstructions insts) registry SymbolicOracle.oracle () options, ∀ q,
        step (.ofInstructions insts) registry SymbolicOracle.oracle options.trace p = .next q →
        Transition (.ofInstructions insts) registry SymbolicOracle.oracle p q := by
  refine ⟨fun _ _ => Listing.trimmedJumps_of_parse, ?_⟩
  intro insts registry options htrim p hp q hstep
  have hlinked := linked_of_history p hp
  cases moves_of_step hstep with
  | passed inst located label state control => exact .continues control
  | left block next found atEnd first state control =>
    refine .follows block found ?_ ?_
    · rw [control]
      exact List.mem_of_mem_head? first
    · rw [control]
  | performed inst d applied performs apply advance =>
    obtain ⟨f, callers, hf⟩ := List.exists_cons_of_ne_nil hlinked.ne_nil
    -- one case for each effect that a delta of such a run may have on the stack
    cases (decision?_symbolic performs.2).1 with
    | keeps stack opcode =>
      exact transition_of_keeps htrim hf performs stack opcode apply advance
    | pushes push pushed pop opcode label constructs =>
      exact transition_of_pushes hf performs pushed pop opcode label apply advance
    | pops v push pop opcode value =>
      exact transition_of_pops hlinked hf performs push pop opcode value apply advance

/-- A loop with a call in it. -/
def loopingCalls : String :=
  "branch main\nfunc_f_0:\n%0 = const 1\nreturn %0\nmain:\n" ++
    "%0 = const <function:f@func_f_0>\nstore_var f %0\n%1 = call_function f\n" ++
    "branch_if %1 main,done\ndone:\nreturn\n"

/-- Its instructions. -/
def loopingInstructions : List Instruction :=
  [{ opcode := .branch, label := some "main" }, { opcode := .label, label := some "func_f_0" },
    { opcode := .const, result := some "%0", operands := [.text "1"] },
    { opcode := .ret, operands := [.text "%0"] }, { opcode := .label, label := some "main" },
    { opcode := .const, result := some "%0", operands := [.text "<function:f@func_f_0>"] },
    { opcode := .storeVar, operands := [.text "f", .text "%0"] },
    { opcode := .callFunction, result := some "%1", operands := [.text "f"] },
    { opcode := .branchIf, operands := [.text "%1"], label := some "main,done" },
    { opcode := .label, label := some "done" }, { opcode := .ret }]

/-- A run of the loop up to its second round. -/
def loopingRun : List (Progress Unit) :=
  history (.ofInstructions loopingInstructions)
    (.build loopingInstructions (.ofInstructions loopingInstructions)) SymbolicOracle.oracle ()
    { maxSteps := 8 }

/-- Control moves in all four ways: along the edges from the first block to `main` and from there
back to `main`, into the function and back behind the call, and from one instruction to the next. -/
theorem loopingRun_follows :
    Listing.parse loopingCalls = .ok loopingInstructions ∧
    loopingRun.map (fun p => (p.control, p.state.depth)) =
      [(⟨"__block_0", 0⟩, 1), (⟨"main", 0⟩, 1), (⟨"main", 1⟩, 1), (⟨"main", 2⟩, 1),
        (⟨"func_f_0", 0⟩, 2), (⟨"func_f_0", 1⟩, 2), (⟨"main", 3⟩, 1), (⟨"main", 0⟩, 1),
        (⟨"main", 1⟩, 1)] ∧
    ∀ p ∈ loopingRun, ∀ q,
      step (.ofInstructions loopingInstructions)
        (.build loopingInstructions (.ofInstructions loopingInstructions)) SymbolicOracle.oracle
        false p = .next q →
      Transition (.ofInstructions loopingInstructions)
        (.build loopingInstructions (.ofInstructions loopingInstructions)) SymbolicOracle.oracle
        p q := by
  have hparse : Listing.parse loopingCalls = .ok loopingInstructions :=
    toOption_eq_some (by decide +kernel)
  obtain ⟨hlisting, hfollow⟩ := steps_follow_graph
  exact ⟨hparse, by decide +kernel, hfollow _ _ { maxSteps := 8 } (hlisting _ _ hparse)⟩

end SymbolicVM.Run

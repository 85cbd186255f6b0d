import SymbolicVM.Proofs.Run.Stack
import SymbolicVM.Proofs.Oracle.Symbolic
import Mathlib.Data.Nat.Init

/-!
# Calls are bracketed

A call and its return enclose a part of a run in which the callers' frames stand still. When the
stack is back at the depth that it had before the call, the caller's frame is as the call left it
but for the result register, and control is at the point after the call.

Two invariants carry this. All frames but the outermost are stamped with a point of the graph
(`Run.Linked`), so every return finds its way. And from a call to its return the stack is that of
the caller with the callee and whatever it has called above it (`Run.InCall`); the only step that
leads out is the callee's own return.
-/

namespace SymbolicVM

/-- The lowest frames of the stack, `d` of them. -/
def State.bottom (s : State) (d : Nat) : List Frame :=
  s.frames.drop (s.depth - d)

/-- The frame is stamped with a point of the graph. -/
def Frame.ReturnsInto (g : FlowGraph) (f : Frame) : Prop :=
  ∃ label offset block, f.returnLabel = some label ∧ f.returnOffset = some offset ∧
    g.block? label = some block ∧ offset ≤ block.body.length

theorem Frame.Evolves.returnsInto {g : FlowGraph} {f f' : Frame} (h : f.Evolves f')
    (hf : f.ReturnsInto g) : f'.ReturnsInto g := by
  obtain ⟨label, offset, block, hlabel, hoffset, hblock⟩ := hf
  exact ⟨label, offset, block, h.returnLabel.trans hlabel, h.returnOffset.trans hoffset, hblock⟩

theorem FlowGraph.contains_of_block? {g : FlowGraph} {label : String} {block : Block}
    (h : g.block? label = some block) : g.contains label = true := by
  unfold block? at h
  unfold contains
  rw [List.any_eq_true]
  refine ⟨block, List.mem_reverse.mp (List.mem_of_find?_eq_some h), ?_⟩
  simpa using List.find?_some h

namespace Run

variable {g : FlowGraph} {registry : Registry} {control : Control} {inst : Instruction} {d : Delta}
  {fs fs' : List Frame} {flow : Flow}

/-! ### Every return finds its way -/

/-- All frames but the outermost are stamped with a point of the graph. -/
def Linked (g : FlowGraph) : List Frame → Prop
  | [] => False
  | [_] => True
  | f :: caller :: callers => f.ReturnsInto g ∧ Linked g (caller :: callers)

theorem Linked.ne_nil (h : Linked g fs) : fs ≠ [] := by
  rintro rfl
  exact h

theorem Linked.evolve {f f' : Frame} {callers : List Frame} (h : Linked g (f :: callers))
    (hf : f.Evolves f') : Linked g (f' :: callers) := by
  cases callers with
  | nil => trivial
  | cons caller callers => exact ⟨hf.returnsInto h.1, h.2⟩

theorem Linked.tail {f : Frame} {callers : List Frame} (h : Linked g (f :: callers))
    (hne : callers ≠ []) : f.ReturnsInto g ∧ Linked g callers := by
  obtain ⟨caller, rest, rfl⟩ := List.exists_cons_of_ne_nil hne
  exact h

/-- The point after an instruction is in the instruction's block. -/
theorem exists_block_of_instruction? (h : instruction? g control = some inst) :
    ∃ block, g.block? control.label = some block ∧ control.offset + 1 ≤ block.body.length := by
  obtain ⟨block, hblock, hinst⟩ := Option.bind_eq_some_iff.mp h
  exact ⟨block, hblock, (List.getElem?_eq_some_iff.mp hinst).1⟩

theorem Linked.step (h : Linked g fs) (hlocated : instruction? g control = some inst)
    (hstep : StackStep g control inst d fs fs' flow) : Linked g fs' := by
  cases hstep with
  | runs f f' callers before after evolves goes =>
    rw [before] at h
    rw [after]
    exact h.evolve evolves
  | calls push f f' callee callers before after evolves pushed label offset register constructs
      goes =>
    obtain ⟨block, hblock, hbound⟩ := exists_block_of_instruction? hlocated
    rw [before] at h
    rw [after]
    exact ⟨⟨_, _, block, label, offset, hblock, hbound⟩, h.evolve evolves⟩
  | finishes f f' before after halts =>
    rw [after]
    trivial
  | returns v f callers before nonempty after value goes =>
    rw [before] at h
    obtain ⟨caller, rest, rfl⟩ := List.exists_cons_of_ne_nil nonempty
    rw [after]
    exact h.2.evolve (Frame.evolves_receive caller _ _)

theorem returnFlow_of_returnsInto {f : Frame} {label : String} {offset : Nat} {block : Block}
    (hlabel : f.returnLabel = some label) (hoffset : f.returnOffset = some offset)
    (hblock : g.block? label = some block) : returnFlow g f = .goto ⟨label, offset⟩ := by
  unfold returnFlow
  rw [hlabel, hoffset, Option.filter_some, FlowGraph.contains_of_block? hblock]
  rfl

/-- A step never halts the run for want of a point to return to. -/
theorem Linked.flow_ne (h : Linked g fs) (hstep : StackStep g control inst d fs fs' flow) :
    flow ≠ .halt .unresolvableReturn := by
  cases hstep with
  | runs f f' callers before after evolves goes =>
    obtain ⟨c, rfl⟩ := goes
    simp
  | calls push f f' callee callers before after evolves pushed label offset register constructs
      goes =>
    obtain ⟨c, rfl⟩ := goes
    simp
  | finishes f f' before after halts => simp [halts]
  | returns v f callers before nonempty after value goes =>
    rw [before] at h
    obtain ⟨label, offset, block, hlabel, hoffset, hblock, -⟩ := (h.tail nonempty).1
    rw [goes, returnFlow_of_returnsInto hlabel hoffset hblock]
    simp

/-! ### Inside a call -/

/-- The stack is `base` with a frame above it that returns to `back` and hands its result to
`register`, and above that what this frame has called. -/
def InCall (base : List Frame) (back : Control) (register : Option String) (fs : List Frame) :
    Prop :=
  ∃ upper callee, fs = upper ++ callee :: base ∧ callee.returnLabel = some back.label ∧
    callee.returnOffset = some back.offset ∧ callee.resultRegister = register

section

variable {base : List Frame} {back : Control} {register : Option String}

theorem InCall.length_lt (h : InCall base back register fs) : base.length < fs.length := by
  obtain ⟨upper, callee, rfl, -⟩ := h
  rw [List.length_append, List.length_cons]
  omega

theorem InCall.drop (h : InCall base back register fs) :
    fs.drop (fs.length - base.length) = base := by
  obtain ⟨upper, callee, rfl, -⟩ := h
  have hlength : (upper ++ callee :: base).length - base.length = (upper ++ [callee]).length := by
    simp only [List.length_append, List.length_cons, List.length_nil]
    omega
  rw [hlength, List.append_cons upper callee base, List.drop_left]

/-- The current frame of a call may run on, whether it is the callee or above it. -/
theorem InCall.evolve {f f' : Frame} {callers : List Frame}
    (h : InCall base back register (f :: callers)) (hf : f.Evolves f') :
    InCall base back register (f' :: callers) := by
  obtain ⟨upper, callee, heq, hlabel, hoffset, hregister⟩ := h
  cases upper with
  | nil =>
    obtain ⟨rfl, rfl⟩ := List.cons.inj heq
    exact ⟨[], f', rfl, hf.returnLabel.trans hlabel, hf.returnOffset.trans hoffset,
      hf.resultRegister.trans hregister⟩
  | cons u upper =>
    obtain ⟨rfl, rfl⟩ := List.cons.inj heq
    exact ⟨f' :: upper, callee, rfl, hlabel, hoffset, hregister⟩

/-- **The way out of a call.** A step stays in the call, or it is the callee's return. -/
theorem InCall.step (hbase : base ≠ []) (h : InCall base back register fs)
    (hstep : StackStep g control inst d fs fs' flow) :
    InCall base back register fs' ∨
      ∃ v callee, d.returnValue = some v ∧ fs' = deliver register v base ∧
        flow = returnFlow g callee ∧ callee.returnLabel = some back.label ∧
        callee.returnOffset = some back.offset := by
  cases hstep with
  | runs f f' callers before after evolves goes =>
    rw [before] at h
    rw [after]
    exact .inl (h.evolve evolves)
  | calls push f f' callee callers before after evolves pushed label offset register constructs
      goes =>
    rw [before] at h
    obtain ⟨upper, bottom, heq, hstamp⟩ := h.evolve evolves
    exact .inl ⟨callee :: upper, bottom, by rw [after, heq]; rfl, hstamp⟩
  | finishes f f' before after halts =>
    -- the outermost frame is below the callee
    have hlength := h.length_lt
    rw [before, List.length_singleton] at hlength
    exact absurd (List.length_pos_of_ne_nil hbase) (by omega)
  | returns v f callers before nonempty after value goes =>
    obtain ⟨upper, callee, heq, hlabel, hoffset, hregister⟩ := h
    rw [before] at heq
    cases upper with
    | nil =>
      obtain ⟨rfl, rfl⟩ := List.cons.inj heq
      exact .inr ⟨v, f, value, hregister ▸ after, goes, hlabel, hoffset⟩
    | cons u upper =>
      obtain ⟨rfl, rfl⟩ := List.cons.inj heq
      refine .inl ?_
      obtain ⟨caller, rest, hcallers⟩ := List.exists_cons_of_ne_nil nonempty
      have hinner : InCall base back register (caller :: rest) :=
        ⟨upper, callee, hcallers.symm, hlabel, hoffset, hregister⟩
      rw [after, hcallers]
      exact hinner.evolve (Frame.evolves_receive caller _ _)

end

/-! ### Calls of a run -/

/-- In a list of points of a run, the step from position `i` pushes a frame, and the step from
position `j` is the first later one after which the stack is as deep as before. -/
structure CallSpan {σ : Type} (points : List (Progress σ)) (i j : Nat)
    (before entered leaving after : Progress σ) : Prop where
  beforeAt : points[i]? = some before
  enteredAt : points[i + 1]? = some entered
  pushes : entered.state.depth = before.state.depth + 1
  later : i < j
  leavingAt : points[j]? = some leaving
  afterAt : points[j + 1]? = some after
  pops : after.state.depth = before.state.depth
  first : ∀ k p, i < k → k ≤ j → points[k]? = some p → p.state.depth ≠ before.state.depth

variable {options : RunOptions} {p q : Progress Unit}

/-- A step of a run with the symbolic oracle leaves state and stack alone, or it performs an
instruction with one of the four effects on the stack. -/
theorem stackStep_of_outcome (hne : p.state.frames ≠ [])
    (h : StepOutcome g registry SymbolicOracle.oracle p q flow) :
    (q.state = p.state ∧ flow ≠ .halt .unresolvableReturn) ∨
      ∃ inst d, Performs g registry SymbolicOracle.oracle p inst d ∧
        StackStep g p.control inst d p.state.frames q.state.frames flow := by
  cases h with
  | moved state idle ends =>
    refine .inl ⟨state, fun hflow => ?_⟩
    have := ends _ hflow
    contradiction
  | performed inst d applied located decided apply advance =>
    obtain ⟨hstack, -⟩ := decision?_symbolic decided
    exact .inr ⟨inst, d, ⟨located, decided⟩, stackStep_of_advance hne hstack apply advance⟩

/-- All frames but the outermost are stamped with a point of the graph, throughout a run. -/
theorem linked_of_history :
    ∀ p ∈ history g registry SymbolicOracle.oracle () options, Linked g p.state.frames := by
  apply history_induction
  · intro label
    trivial
  · intro k p q flow _ _ hp houtcome
    rcases stackStep_of_outcome hp.ne_nil houtcome with ⟨hstate, -⟩ | ⟨inst, d, hperforms, hstep⟩
    · rwa [hstate]
    · exact hp.step hperforms.1 hstep

/-- A run never halts for want of a point to return to. -/
theorem halt_ne_unresolvableReturn {outcome : Outcome}
    (h : (run g registry SymbolicOracle.oracle () options).1 = .ok outcome) :
    outcome.halt ≠ .unresolvableReturn := by
  rcases run_eq_ok h with ⟨hempty, -⟩ | ⟨q, hq, -, hbudget | ⟨p, hp, hreaches⟩⟩
  · simp [hempty]
  · simp [hbudget]
  · have hlinked := linked_of_history p hp
    intro hhalt
    rw [hhalt] at hreaches
    rcases stackStep_of_outcome hlinked.ne_nil (stepOutcome_of_reaches hreaches) with
      ⟨-, hflow⟩ | ⟨inst, d, -, hstep⟩
    · exact hflow rfl
    · exact hlinked.flow_ne hstep rfl

/-- A step that pushes a frame is a call. -/
theorem inCall_of_push (hlinked : Linked g p.state.frames)
    (h : StepOutcome g registry SymbolicOracle.oracle p q flow)
    (hdepth : q.state.depth = p.state.depth + 1) :
    ∃ inst d push caller callers,
      Performs g registry SymbolicOracle.oracle p inst d ∧ d.callPush = some push ∧
      callers.length + 1 = p.state.depth ∧ q.state.bottom p.state.depth = caller :: callers ∧
      InCall (caller :: callers) ⟨p.control.label, p.control.offset + 1⟩
        (if push.isConstructor then none else inst.result) q.state.frames ∧
      (push.isConstructor = true → ∃ obj, d.newObjects = [obj] ∧
        ∀ reg, inst.result = some reg → caller.registers.get? reg = some (.str obj.address)) := by
  unfold State.depth at hdepth
  rcases stackStep_of_outcome hlinked.ne_nil h with ⟨hstate, -⟩ | ⟨inst, d, hperforms, hstep⟩
  · rw [hstate] at hdepth
    omega
  · cases hstep with
    | runs f f' callers before after evolves goes =>
      rw [before, after, List.length_cons, List.length_cons] at hdepth
      omega
    | calls push f f' callee callers before after evolves pushed label offset register constructs
        goes =>
      refine ⟨inst, d, push, f', callers, hperforms, pushed, ?_, ?_, ?_, constructs⟩
      · unfold State.depth
        rw [before, List.length_cons]
      · unfold State.bottom State.depth
        rw [hdepth, Nat.add_sub_cancel_left, after]
        rfl
      · exact ⟨[], callee, after, label, offset, register⟩
    | finishes f f' before after halts =>
      rw [before, after] at hdepth
      simp at hdepth
    | returns v f callers before nonempty after value goes =>
      rw [before, after, length_deliver, List.length_cons] at hdepth
      omega

variable {i j : Nat} {before entered leaving after : Progress Unit}

/-- From the push to the last step of a span the run is inside the call. -/
theorem CallSpan.inCall
    (hspan : CallSpan (history g registry SymbolicOracle.oracle () options) i j before entered
      leaving after) {base : List Frame} {back : Control} {register : Option String}
    (hne : base ≠ []) (hbase : base.length = before.state.depth)
    (hentered : InCall base back register entered.state.frames) {k : Nat} (hk : i < k) (hkj : k ≤ j)
    {p : Progress Unit} (hp : (history g registry SymbolicOracle.oracle () options)[k]? = some p) :
    InCall base back register p.state.frames := by
  induction k, hk using Nat.le_induction generalizing p with
  | base =>
    rw [hspan.enteredAt] at hp
    obtain rfl := Option.some.inj hp
    exact hentered
  | succ k hk ih =>
    -- the step before, which is still inside the call
    obtain ⟨m, hm⟩ := exists_earlier (Nat.le_succ k) hp
    have hinside := ih (by omega) hm
    have hlinked := linked_of_history m (List.mem_of_getElem? hm)
    obtain ⟨flow, hreaches⟩ := reaches_of_history hm hp
    rcases stackStep_of_outcome hlinked.ne_nil (stepOutcome_of_reaches hreaches) with
      ⟨hstate, -⟩ | ⟨inst, d, -, hstep⟩
    · rwa [hstate]
    · rcases hinside.step hne hstep with hstays | ⟨v, callee, -, hleaves, -⟩
      · exact hstays
      · -- leaving now would bring the depth back before the last step
        refine absurd ?_ (hspan.first (k + 1) p (by omega) hkj hp)
        unfold State.depth
        rw [hleaves, length_deliver]
        exact hbase

/-- The last step of a span is the callee's return. -/
theorem CallSpan.returns
    (hspan : CallSpan (history g registry SymbolicOracle.oracle () options) i j before entered
      leaving after) {base : List Frame} {back : Control} {register : Option String} {block : Block}
    (hne : base ≠ []) (hbase : base.length = before.state.depth)
    (hinside : InCall base back register leaving.state.frames)
    (hblock : g.block? back.label = some block) :
    ∃ inst d v, Performs g registry SymbolicOracle.oracle leaving inst d ∧ d.returnValue = some v ∧
      after.state.frames = deliver register v base ∧
      step g registry SymbolicOracle.oracle options.trace leaving = .next after ∧
      after.control = back := by
  have hlinked := linked_of_history leaving (List.mem_of_getElem? hspan.leavingAt)
  have hdepth : after.state.frames.length = base.length := hspan.pops.trans hbase.symm
  obtain ⟨flow, hreaches⟩ := reaches_of_history hspan.leavingAt hspan.afterAt
  rcases stackStep_of_outcome hlinked.ne_nil (stepOutcome_of_reaches hreaches) with
    ⟨hstate, -⟩ | ⟨inst, d, hperforms, hstep⟩
  · have := hinside.length_lt
    rw [← hstate] at this
    omega
  · rcases hinside.step hne hstep with hstays | ⟨v, callee, hvalue, hframes, hflow, hlabel, hoffset⟩
    · have := hstays.length_lt
      omega
    · rw [returnFlow_of_returnsInto hlabel hoffset hblock] at hflow
      rcases hreaches with ⟨hnext, hgoto⟩ | ⟨reason, -, hhalt⟩
      · rw [hgoto] at hflow
        exact ⟨inst, d, v, hperforms, hvalue, hframes, hnext, Flow.goto.inj hflow⟩
      · rw [hhalt] at hflow
        contradiction

/-- **Calls are bracketed and callers are isolated.** In a run with the symbolic oracle, let a step
perform a call of some depth `d`, and let another step be the first one that brings the stack back
to that depth. Then

* in between, the lowest `d` frames are those that the call left;
* the last step returns a value, and the stack after it is that of the call with this value in the
  call's result register; it is exactly that of the call if there is no such register or the call
  runs a constructor, so that the register still holds the address of the new object;
* the last step goes to the point after the call, which is a point of the call's block.

And no run halts for want of a point to return to. -/
theorem call_bracketed (g : FlowGraph) (registry : Registry) (options : RunOptions) :
    (∀ i j before entered leaving after,
      CallSpan (history g registry SymbolicOracle.oracle () options) i j before entered leaving
        after →
      ∃ call d push last dlast v block,
        Performs g registry SymbolicOracle.oracle before call d ∧ d.callPush = some push ∧
        Performs g registry SymbolicOracle.oracle leaving last dlast ∧ dlast.returnValue = some v ∧
        (∀ k p, i < k → k ≤ j →
          (history g registry SymbolicOracle.oracle () options)[k]? = some p →
          p.state.bottom before.state.depth = entered.state.bottom before.state.depth) ∧
        after.state.frames =
          deliver (if push.isConstructor then none else call.result) v
            (entered.state.bottom before.state.depth) ∧
        (push.isConstructor = true → ∃ obj, d.newObjects = [obj] ∧
          ∀ reg, call.result = some reg → after.state.register? reg = some (.str obj.address)) ∧
        step g registry SymbolicOracle.oracle options.trace leaving = .next after ∧
        after.control = ⟨before.control.label, before.control.offset + 1⟩ ∧
        g.block? before.control.label = some block ∧
        before.control.offset + 1 ≤ block.body.length) ∧
    ∀ outcome, (run g registry SymbolicOracle.oracle () options).1 = .ok outcome →
      outcome.halt ≠ .unresolvableReturn := by
  refine ⟨fun i j before entered leaving after hspan => ?_,
    fun _ => halt_ne_unresolvableReturn⟩
  have hlinked := linked_of_history before (List.mem_of_getElem? hspan.beforeAt)
  obtain ⟨flow, hreaches⟩ := reaches_of_history hspan.beforeAt hspan.enteredAt
  obtain ⟨call, d, push, caller, callers, hperforms, hpush, hlength, hbottom, hentered, hobject⟩ :=
    inCall_of_push hlinked (stepOutcome_of_reaches hreaches) hspan.pushes
  obtain ⟨block, hblock, hbound⟩ := exists_block_of_instruction? hperforms.1
  have hne : caller :: callers ≠ [] := by simp
  have hbase : (caller :: callers).length = before.state.depth := hlength
  have hinside : ∀ k p, i < k → k ≤ j →
      (history g registry SymbolicOracle.oracle () options)[k]? = some p →
      InCall (caller :: callers) ⟨before.control.label, before.control.offset + 1⟩
        (if push.isConstructor then none else call.result) p.state.frames :=
    fun k p hk hkj hp => hspan.inCall hne hbase hentered hk hkj hp
  have hleaving := hinside j leaving hspan.later (Nat.le_refl j) hspan.leavingAt
  obtain ⟨last, dlast, v, hlast, hvalue, hframes, hnext, hcontrol⟩ :=
    hspan.returns hne hbase hleaving hblock
  refine ⟨call, d, push, last, dlast, v, block, hperforms, hpush, hlast, hvalue, ?_, ?_, ?_, hnext,
    hcontrol, hblock, hbound⟩
  · intro k p hk hkj hp
    rw [hbottom]
    unfold State.bottom State.depth
    rw [show before.state.frames.length = (caller :: callers).length from hbase.symm]
    exact (hinside k p hk hkj hp).drop
  · rw [hbottom]
    exact hframes
  · intro hconstructor
    obtain ⟨obj, hobj, hreg⟩ := hobject hconstructor
    refine ⟨obj, hobj, fun reg hresult => ?_⟩
    rw [hconstructor] at hframes
    unfold State.register? State.current?
    rw [hframes]
    exact hreg reg hresult

/-- A program that calls a function for its result. -/
def callingProgram : List Instruction :=
  [{ opcode := .const, result := some "%0", operands := [.text "<function:f@func_f>"] },
    { opcode := .storeVar, operands := [.text "f", .text "%0"] },
    { opcode := .callFunction, result := some "%1", operands := [.text "f"] },
    { opcode := .ret },
    { opcode := .label, label := some "func_f" },
    { opcode := .const, result := some "%0", operands := [.int 7] },
    { opcode := .ret, operands := [.text "%0"] }]

/-- The call in the program's first block takes the third step to the fifth, and control comes back
to the point after it. -/
theorem callingProgram_bracketed :
    ∃ before entered leaving after,
      CallSpan (history (.ofInstructions callingProgram)
        (.build callingProgram (.ofInstructions callingProgram)) SymbolicOracle.oracle () {}) 2 4
        before entered leaving after ∧
      before.control = ⟨"__block_0", 2⟩ ∧ after.control = ⟨"__block_0", 3⟩ := by
  obtain ⟨points, hpoints⟩ : ∃ points, points = history (.ofInstructions callingProgram)
    (.build callingProgram (.ofInstructions callingProgram)) SymbolicOracle.oracle () {} :=
    ⟨_, rfl⟩
  -- depth and control at all points of the run
  have hview : points.map (fun p => (p.state.depth, p.control)) =
      [(1, ⟨"__block_0", 0⟩), (1, ⟨"__block_0", 1⟩), (1, ⟨"__block_0", 2⟩), (2, ⟨"func_f", 0⟩),
        (2, ⟨"func_f", 1⟩), (1, ⟨"__block_0", 3⟩), (1, ⟨"__block_0", 3⟩)] := by
    rw [hpoints]
    decide +kernel
  have hat {k : Nat} {x : Nat × Control}
      (hx : (points.map fun p => (p.state.depth, p.control))[k]? = some x) :
      ∃ p, points[k]? = some p ∧ p.state.depth = x.1 ∧ p.control = x.2 := by
    rw [List.getElem?_map] at hx
    obtain ⟨p, hp, rfl⟩ := Option.map_eq_some_iff.mp hx
    exact ⟨p, hp, rfl, rfl⟩
  rw [hview] at hat
  obtain ⟨before, hbefore, hdepth, hcontrol⟩ := @hat 2 _ rfl
  obtain ⟨entered, hentered, hdeeper, -⟩ := @hat 3 _ rfl
  obtain ⟨leaving, hleaving, hdeep, -⟩ := @hat 4 _ rfl
  obtain ⟨after, hafter, hback, -⟩ := @hat 5 _ rfl
  have hspan : CallSpan points 2 4 before entered leaving after := by
    refine ⟨hbefore, hentered, ?_, by omega, hleaving, hafter, ?_, fun k p hk hk' hp => ?_⟩
    · rw [hdepth, hdeeper]
    · rw [hdepth, hback]
    · rw [hdepth]
      obtain rfl | rfl : k = 3 ∨ k = 4 := by omega
      · obtain rfl := Option.some.inj (hentered.symm.trans hp)
        rw [hdeeper]
        decide
      · obtain rfl := Option.some.inj (hleaving.symm.trans hp)
        rw [hdeep]
        decide
  rw [hpoints] at hspan
  obtain ⟨call, d, push, last, dlast, v, block, -, -, -, -, -, -, -, -, hreturn, -⟩ :=
    (call_bracketed _ _ {}).1 2 4 before entered leaving after hspan
  refine ⟨before, entered, leaving, after, hspan, hcontrol, ?_⟩
  rw [hreturn, hcontrol]

end Run

end SymbolicVM

import SymbolicVM.Proofs.Engine.Steering
import SymbolicVM.Proofs.Registry
import SymbolicVM.Proofs.Run.Consultation
import SymbolicVM.Proofs.Run.Freshness
import SymbolicVM.Proofs.Run.ReturnStamps

/-!
# Where calls lead

A call that the engine decides always goes through: its delta can be applied, and the callee's frame
is on top of the stack afterwards (`Run.step_of_call`). Control is then at the first instruction of
the callee if the label of the callee is that of a block.

Functions and methods are looked up among the blocks, so their labels are labels of blocks. The
constructor of a class is looked up among the literals of the program only. If its label is that of
no block, then control goes on behind the call, in the caller's code but with the constructor's
frame on top. `Run.call_enters_iff` says that nothing else can go wrong, and that calls always enter
their callee exactly if all constructors have a block.
-/

namespace SymbolicVM

/-- The label of every constructor is that of a block. -/
def Registry.ConstructorsPlaced (r : Registry) (g : FlowGraph) : Prop :=
  ∀ cls name label, r.constructor? cls = some (name, label) → g.contains label = true

namespace Engine

variable {registry : Registry} {inst : Instruction} {s : State} {d : Delta} {push : CallPush}

/-! ### Which label a call names -/

theorem isLabel_eq_false_of_push (h : decide registry inst s = .ok d)
    (hpush : d.callPush = some push) : inst.isLabel = false := by
  by_contra hlabel
  have hopcode : inst.opcode = .label := by simpa [Instruction.isLabel] using hlabel
  unfold decide at h
  rw [hopcode] at h
  obtain rfl := Except.ok.inj h
  contradiction

/-- A call names a label: that of a function with known parameters, or that of the constructor of a
class. -/
theorem label_of_push (h : decide registry inst s = .ok d) (hpush : d.callPush = some push) :
    ∃ label, d.nextLabel = some label ∧
      ((registry.parameters? label).isSome = true ∨
        (push.isConstructor = true ∧
          ∃ cls, registry.constructor? cls = some (push.function, label))) := by
  cases decide_steers h with
  | steady quiet => exact absurd (quiet.push.symm.trans hpush) nofun
  | jumps opcode next unpushed => exact absurd (unpushed.symm.trans hpush) nofun
  | branches onTrue onFalse condition v taken targets operand resolved truth next unpushed path =>
    exact absurd (unpushed.symm.trans hpush) nofun
  | returns opcode next unpushed => exact absurd (unpushed.symm.trans hpush) nofun
  | calls f params known _ next =>
    exact ⟨f.label, next, .inl (by rw [known]; rfl)⟩
  | constructs c name label known pushed next =>
    obtain rfl := Option.some.inj (pushed.symm.trans hpush)
    exact ⟨label, next, .inr ⟨rfl, c.name, known⟩⟩

/-- In a program's own registry, only the label of a constructor may be that of no block. -/
theorem entry_of_push {insts : List Instruction} {g : FlowGraph}
    (h : decide (.build insts g) inst s = .ok d) (hpush : d.callPush = some push) :
    ∃ label, d.nextLabel = some label ∧
      (g.contains label = false → push.isConstructor = true ∧
        ∃ cls, (Registry.build insts g).constructor? cls = some (push.function, label)) := by
  obtain ⟨label, hnext, hknown⟩ := label_of_push h hpush
  refine ⟨label, hnext, fun hmissing => hknown.resolve_left fun hparams => ?_⟩
  obtain ⟨params, hparams⟩ := Option.isSome_iff_exists.mp hparams
  have hcontains := Registry.contains_of_parameters? hparams
  exact Bool.noConfusion (hcontains.symm.trans hmissing)

/-! ### Every constructor can be called -/

/-- A call of the class that a variable refers to. -/
def callOfMake : Instruction where
  opcode := .callFunction
  operands := [.text "make"]

/-- A state with a variable that refers to a class. -/
def stateWithClass (c : ClassRef) : State where
  frames := [{ function := mainFrameName, locals := Dict.empty.insert "make" (.str c.render) }]

theorem decide_callOfMake {c : ClassRef} (hclass : ClassRef.parse? c.render = some c)
    (hfunction : FunctionRef.parse? c.render = none) :
    decide registry callOfMake (stateWithClass c) =
      construct registry c [] callOfMake (stateWithClass c) := by
  have hlookup : (stateWithClass c).lookup? "make" = some (.str c.render) := by
    simp [State.lookup?, stateWithClass, State.lookupIn?, State.ownedEnvironment?]
  have hbuiltin : Builtin.ofName? "make" = none := by decide
  have htext : text callOfMake 0 = .ok "make" := rfl
  have hargs : resolveAll (stateWithClass c) (callOfMake.operands.drop 1) = .ok [] := rfl
  show decideCallFunction registry callOfMake (stateWithClass c) = _
  unfold decideCallFunction
  rw [htext, ok_bind, hargs, ok_bind, hbuiltin, hlookup]
  simp only [Option.bind_some, Value.str?, orRefuse, ok_bind, hfunction, hclass]

/-- A class with a constructor is called with the label of the constructor. -/
theorem exists_call_of_constructor? {c : ClassRef} {name label : String}
    (hclass : ClassRef.parse? c.render = some c) (hfunction : FunctionRef.parse? c.render = none)
    (hknown : registry.constructor? c.name = some (name, label)) :
    ∃ d push, decide registry callOfMake (stateWithClass c) = .ok d ∧ d.callPush = some push ∧
      d.nextLabel = some label := by
  rw [decide_callOfMake hclass hfunction]
  have hfresh : fresh (stateWithClass c) .object = .ok (IdKind.object.name 0) := rfl
  unfold construct
  rw [hfresh, ok_bind]
  dsimp only
  rw [hknown]
  dsimp only
  refine ⟨_, { function := name, isConstructor := true }, rfl, ?_⟩
  obtain ⟨vars, heq⟩ := bindArguments_eq ((registry.parameters? label).getD [])
    [.str (IdKind.object.name 0)] _
  rw [heq]
  exact ⟨rfl, rfl⟩

end Engine

namespace Run

variable {σ : Type} {g : FlowGraph} {registry : Registry} {oracle : Oracle σ} {keepTrace : Bool}
  {inst : Instruction} {d : Delta} {push : CallPush} {p : Progress σ}

/-! ### The step that calls -/

/-- The stack after a call: the frame of the called function is on top, and the caller below it. -/
inductive Pushed (push : CallPush) (fs fs' : List Frame) : Prop where
  | intro (caller caller' callee : Frame) (callers : List Frame) (before : fs = caller :: callers)
      (after : fs' = callee :: caller' :: callers) (evolves : caller.Evolves caller')
      (function : callee.function = push.function)

/-- A step at an instruction that the engine decides. -/
theorem step_of_advance {applied : State.Applied} {s : State} {control : Control}
    (hlocated : instruction? g p.control = some inst) (hlabel : inst.isLabel = false)
    (hdecide : Engine.decide registry inst p.state = .ok d)
    (happly : p.state.apply d = .ok applied)
    (hadvance : advance g inst p.control d p.state.depth applied = (s, .goto control)) :
    ∃ q, step g registry oracle keepTrace p = .next q ∧ q.state = s ∧ q.control = control := by
  rw [step_eq_execute hlocated hlabel]
  unfold execute
  dsimp only
  rw [hdecide]
  dsimp only
  unfold perform
  dsimp only
  rw [happly]
  dsimp only
  rw [hadvance]
  exact ⟨_, rfl, rfl, rfl⟩

/-- **A call goes through.** The callee's frame is pushed, and control goes to the label that the
call names if that is the label of a block, and otherwise behind the call. -/
theorem step_of_call {label : String} (hreserved : p.state.Reserved) (hne : p.state.frames ≠ [])
    (hlocated : instruction? g p.control = some inst)
    (hdecide : Engine.decide registry inst p.state = .ok d) (hpush : d.callPush = some push)
    (hnext : d.nextLabel = some label) :
    ∃ q, step g registry oracle keepTrace p = .next q ∧ Pushed push p.state.frames q.state.frames ∧
      q.control = if g.contains label then ⟨label, 0⟩
        else ⟨p.control.label, p.control.offset + 1⟩ := by
  obtain ⟨hstack, hfoot⟩ := Engine.decide_eq_ok hdecide
  obtain ⟨applied, happly⟩ := hreserved.exists_apply hfoot
  obtain ⟨caller, callers, hframes⟩ := List.exists_cons_of_ne_nil hne
  cases hstack with
  | keeps stack opcode => exact absurd (stack.push.symm.trans hpush) nofun
  | pops v unpushed pop opcode value => exact absurd (unpushed.symm.trans hpush) nofun
  | pushes push' pushed pop opcode label' constructs =>
    obtain ⟨⟨s, flow⟩, hadvance⟩ :
        ∃ after, advance g inst p.control d p.state.depth applied = after := ⟨_, rfl⟩
    obtain ⟨⟨caller', callee, hafter, hevolves, hfunction, -⟩, rfl⟩ :=
      advance_of_pushes hframes hpush pop opcode label' happly hadvance
    have hlabel := Engine.isLabel_eq_false_of_push hdecide hpush
    obtain ⟨q, hstep, rfl, hcontrol⟩ : ∃ q, step g registry oracle keepTrace p = .next q ∧
        q.state = s ∧ q.control = nextControl g p.control d :=
      step_of_advance hlocated hlabel hdecide happly hadvance
    refine ⟨q, hstep, .intro caller caller' callee callers hframes hafter hevolves hfunction, ?_⟩
    rw [hcontrol, nextControl_of_next hnext]

variable (g oracle) in
/-- **Calls enter their callees exactly if all constructors have a block.** In every run of a
program, with whatever oracle, a call that the engine decides names a label and goes through. If the
label is that of a block, then control is at the start of this block, in the callee's frame. If not,
then the callee is a constructor, and control goes on behind the call. -/
theorem call_enters_iff (insts : List Instruction) (oracleState : σ) (options : RunOptions) :
    (∀ p ∈ history g (.build insts g) oracle oracleState options, ∀ inst d push,
      Engine.decide (.build insts g) inst p.state = .ok d → d.callPush = some push →
      ∃ label, d.nextLabel = some label ∧
        (g.contains label = false → push.isConstructor = true ∧
          ∃ cls, (Registry.build insts g).constructor? cls = some (push.function, label)) ∧
        (instruction? g p.control = some inst →
          ∃ q, step g (.build insts g) oracle options.trace p = .next q ∧
            Pushed push p.state.frames q.state.frames ∧
            q.control = if g.contains label then ⟨label, 0⟩
              else ⟨p.control.label, p.control.offset + 1⟩)) ∧
    ((∀ inst s d push, Engine.decide (.build insts g) inst s = .ok d → d.callPush = some push →
      ∃ label, d.nextLabel = some label ∧ g.contains label = true) ↔
      (Registry.build insts g).ConstructorsPlaced g) := by
  refine ⟨fun p hp inst d push hdecide hpush => ?_, fun hcalls cls name label hknown => ?_,
    fun hplaced inst s d push hdecide hpush => ?_⟩
  · obtain ⟨label, hnext, hmissing⟩ := Engine.entry_of_push hdecide hpush
    refine ⟨label, hnext, hmissing, fun hlocated => ?_⟩
    exact step_of_call (reserved_of_history p hp) (frames_ne_nil_of_history p hp) hlocated hdecide
      hpush hnext
  · -- a variable that refers to the class is enough to have the constructor called
    obtain ⟨c, rfl, hclass, hfunction⟩ := Registry.exists_classRef_of_constructor? hknown
    obtain ⟨d, push, hdecide, hpush, hnext⟩ :=
      Engine.exists_call_of_constructor? hclass hfunction hknown
    obtain ⟨named, hnamed, hcontains⟩ := hcalls _ _ d push hdecide hpush
    obtain rfl := Option.some.inj (hnext.symm.trans hnamed)
    exact hcontains
  · obtain ⟨label, hnext, hmissing⟩ := Engine.entry_of_push hdecide hpush
    refine ⟨label, hnext, ?_⟩
    by_contra hcontains
    obtain ⟨-, cls, hknown⟩ := hmissing (by simpa using hcontains)
    exact hcontains (hplaced cls _ _ hknown)

/-- A program that makes an object of a class with a constructor. -/
def constructingProgram (behind : List Instruction) : List Instruction :=
  [{ opcode := .branch, label := some "end_class_A_0" },
    { opcode := .label, label := some "class_A_0" },
    { opcode := .const, result := some "%0", operands := [.text "<function:__init__@func_init>"] },
    { opcode := .label, label := some "end_class_A_0" },
    { opcode := .const, result := some "%1", operands := [.text "<class:A@class_A_0>"] },
    { opcode := .storeVar, operands := [.text "A", .text "%1"] },
    { opcode := .callFunction, result := some "%2", operands := [.text "A"] },
    { opcode := .const, result := some "%3", operands := [.text "7"] },
    { opcode := .ret, operands := [.text "%3"] }] ++ behind

/-- The graph of the program. -/
def constructingGraph (behind : List Instruction) : FlowGraph :=
  .ofInstructions (constructingProgram behind)

/-- The registry of the program. -/
def constructingRegistry (behind : List Instruction) : Registry :=
  .build (constructingProgram behind) (constructingGraph behind)

/-- The run of the program. -/
def constructingRun (behind : List Instruction) : List (Progress Unit) :=
  history (constructingGraph behind) (constructingRegistry behind) SymbolicOracle.oracle () {}

/-- The call that the engine decides at a point, and the label that it names. -/
def callAt? (behind : List Instruction) (p : Progress Unit) : Option (CallPush × Option String) :=
  (instruction? (constructingGraph behind) p.control).bind fun inst =>
    (Engine.decide (constructingRegistry behind) inst p.state).toOption.bind fun d =>
      d.callPush.map fun push => (push, d.nextLabel)

theorem exists_decide_of_callAt? {behind : List Instruction} {p : Progress Unit} {push : CallPush}
    {next : Option String} (h : callAt? behind p = some (push, next)) :
    ∃ inst d, instruction? (constructingGraph behind) p.control = some inst ∧
      Engine.decide (constructingRegistry behind) inst p.state = .ok d ∧
      d.callPush = some push ∧ d.nextLabel = next := by
  obtain ⟨inst, hlocated, h⟩ := Option.bind_eq_some_iff.mp h
  obtain ⟨d, hdecide, h⟩ := Option.bind_eq_some_iff.mp h
  obtain ⟨pushed, hpush, heq⟩ := Option.map_eq_some_iff.mp h
  obtain ⟨rfl, rfl⟩ := Prod.mk.inj heq
  exact ⟨inst, d, hlocated, toOption_eq_some hdecide, hpush, rfl⟩

/-- The block of the constructor. -/
def constructorBlock : List Instruction :=
  [{ opcode := .label, label := some "func_init" }, { opcode := .ret }]

/-- Where the constructor has a block, the call enters it. -/
theorem constructingRun_enters :
    ∃ p ∈ constructingRun constructorBlock, ∃ inst d push,
      instruction? (constructingGraph constructorBlock) p.control = some inst ∧
      Engine.decide (constructingRegistry constructorBlock) inst p.state = .ok d ∧
      d.callPush = some push ∧ push.isConstructor = true ∧
      ∃ q, step (constructingGraph constructorBlock) (constructingRegistry constructorBlock)
          SymbolicOracle.oracle false p = .next q ∧
        Pushed push p.state.frames q.state.frames ∧ q.control = ⟨"func_init", 0⟩ := by
  have hview : (constructingRun constructorBlock)[3]?.bind (callAt? constructorBlock) =
      some ({ function := "__init__", isConstructor := true }, some "func_init") := by
    decide +kernel
  have hcontains : (constructingGraph constructorBlock).contains "func_init" = true := by
    decide +kernel
  obtain ⟨p, hp, hcall⟩ := Option.bind_eq_some_iff.mp hview
  obtain ⟨inst, d, hlocated, hdecide, hpush, hnext⟩ := exists_decide_of_callAt? hcall
  have hmem := List.mem_of_getElem? hp
  refine ⟨p, hmem, inst, d, _, hlocated, hdecide, hpush, rfl, ?_⟩
  unfold constructingRun constructingRegistry at hmem
  obtain ⟨label, hlabel, -, hsteps⟩ := (call_enters_iff (constructingGraph constructorBlock)
    SymbolicOracle.oracle (constructingProgram constructorBlock) () {}).1 p hmem inst d _ hdecide
    hpush
  obtain rfl := Option.some.inj (hnext.symm.trans hlabel)
  obtain ⟨q, hstep, hpushed, hcontrol⟩ := hsteps hlocated
  rw [hcontains, if_pos rfl] at hcontrol
  exact ⟨q, hstep, hpushed, hcontrol⟩

/-- Without that block, the code behind the call runs in the frame of the constructor, and then once
more in its own. -/
theorem constructingRun_strays :
    (constructingGraph []).contains "func_init" = false ∧
    (∃ p inst d push, (constructingRun [])[3]? = some p ∧
      instruction? (constructingGraph []) p.control = some inst ∧
      Engine.decide (constructingRegistry []) inst p.state = .ok d ∧ d.callPush = some push ∧
      d.nextLabel = some "func_init") ∧
    (constructingRun []).map (fun p => (p.control, p.state.frames.map (·.function))) =
      [(⟨"__block_0", 0⟩, ["<main>"]), (⟨"end_class_A_0", 0⟩, ["<main>"]),
        (⟨"end_class_A_0", 1⟩, ["<main>"]), (⟨"end_class_A_0", 2⟩, ["<main>"]),
        (⟨"end_class_A_0", 3⟩, ["__init__", "<main>"]),
        (⟨"end_class_A_0", 4⟩, ["__init__", "<main>"]), (⟨"end_class_A_0", 3⟩, ["<main>"]),
        (⟨"end_class_A_0", 4⟩, ["<main>"]), (⟨"end_class_A_0", 4⟩, ["<main>"])] := by
  have hview : (constructingRun [])[3]?.bind (callAt? []) =
      some ({ function := "__init__", isConstructor := true }, some "func_init") := by
    decide +kernel
  refine ⟨by decide +kernel, ?_, by decide +kernel⟩
  obtain ⟨p, hp, hcall⟩ := Option.bind_eq_some_iff.mp hview
  obtain ⟨inst, d, hlocated, hdecide, hpush, hnext⟩ := exists_decide_of_callAt? hcall
  exact ⟨p, inst, d, _, hp, hlocated, hdecide, hpush, hnext⟩

end Run

end SymbolicVM

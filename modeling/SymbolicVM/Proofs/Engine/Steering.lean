import SymbolicVM.Proofs.Engine.Footprint
import SymbolicVM.Proofs.Oracle.Symbolic

/-!
# What decisions ask of control

Most decisions only write data (`Delta.Steady`). The engine asks for another block when it decides a
branch or a call, and `Engine.Steering` says which block that is and how it was found;
`Engine.decide_steers` derives this for every decision. The symbolic oracle asks for a block only
where it answers for a conditional branch (`SymbolicOracle.nextLabel_of_answer`).
-/

namespace SymbolicVM

namespace Delta

variable {d : Delta}

/-- A delta that leaves control and the stack alone and assumes nothing. -/
structure Steady (d : Delta) : Prop where
  next : d.nextLabel = none
  push : d.callPush = none
  pop : d.callPop = false
  value : d.returnValue = none
  path : d.pathCondition = none

end Delta

namespace Engine

/-- What the engine asks of control with a decision. -/
inductive Steering (registry : Registry) (inst : Instruction) (s : State) (d : Delta) : Prop where
  /-- Nothing: the next instruction follows. -/
  | steady (quiet : d.Steady)
  /-- A jump to the label of the instruction. -/
  | jumps (opcode : inst.opcode = .branch) (next : d.nextLabel = inst.label)
      (push : d.callPush = none)
  /-- A jump to the target that a condition with a known truth value picks. -/
  | branches (onTrue onFalse : String) (condition : Operand) (v : Value) (taken : Bool)
      (targets : inst.branchTargets? = some (onTrue, onFalse))
      (operand : inst.operand? 0 = some condition) (resolved : resolve s condition = .ok v)
      (truth : v.truthy? = some taken)
      (next : d.nextLabel = some (if taken then onTrue else onFalse))
      (push : d.callPush = none)
      (path : d.pathCondition =
        some (condition.render ++ " is " ++ (Value.bool taken).render))
  /-- The end of the current frame. -/
  | returns (opcode : inst.opcode = .ret) (next : d.nextLabel = none) (push : d.callPush = none)
  /-- A call of a function whose parameters are known. -/
  | calls (f : FunctionRef) (params : List String)
      (known : registry.parameters? f.label = some params)
      (push : d.callPush = some { function := f.name, closureEnv := f.env })
      (next : d.nextLabel = some f.label)
  /-- A call of the constructor of a class. -/
  | constructs (c : ClassRef) (name label : String)
      (known : registry.constructor? c.name = some (name, label))
      (push : d.callPush = some { function := name, isConstructor := true })
      (next : d.nextLabel = some label)

variable {s : State} {inst : Instruction} {d : Delta} {registry : Registry}

/-- **What the engine's decisions ask of control.** -/
theorem decide_steers (h : decide registry inst s = .ok d) : Steering registry inst s d := by
  cases decide_form h with
  | jumps opcode => exact .jumps opcode rfl rfl
  | branches _ targets operand resolved truth =>
    exact .branches _ _ _ _ _ targets operand resolved truth rfl rfl rfl
  | returns opcode _ => exact .returns opcode rfl rfl
  | calls _ entry _ => exact .calls _ _ entry rfl rfl
  | constructs _ entry _ _ => exact .constructs _ _ _ entry rfl rfl
  | _ => exact .steady ⟨rfl, rfl, rfl, rfl, rfl⟩

end Engine

namespace SymbolicOracle

variable {s : State} {inst : Instruction} {d : Delta}

/-- The symbolic oracle never calls, and control goes to the first target of a conditional branch or
on to the next instruction. -/
theorem nextLabel_of_answer (h : answer inst s = .ok d) :
    d.callPush = none ∧
      ∀ label, d.nextLabel = some label →
        ∃ onFalse, inst.branchTargets? = some (label, onFalse) := by
  obtain ⟨⟨e, number⟩, heffects, h⟩ := bind_eq_ok.mp h
  have hpush := (effects_eq_ok heffects).2.1
  have hnext : ∀ label, e.nextLabel = some label →
      ∃ onFalse, inst.branchTargets? = some (label, onFalse) := by
    intro label hlabel
    unfold effects at heffects
    split at heffects
    case h_1 =>
      split at heffects
      · contradiction
      · rename_i onTrue onFalse htargets
        obtain ⟨rfl, rfl⟩ := Prod.mk.inj (Except.ok.inj heffects)
        obtain rfl := Option.some.inj hlabel
        exact ⟨onFalse, htargets⟩
    case h_4 =>
      dsimp only at heffects
      split at heffects
      · obtain ⟨rfl, rfl⟩ := Prod.mk.inj (Except.ok.inj heffects)
        contradiction
      · split at heffects
        · obtain ⟨minted, -, h⟩ := map_eq_ok.mp heffects
          obtain ⟨rfl, rfl⟩ := Prod.mk.inj h
          contradiction
        · obtain ⟨rfl, rfl⟩ := Prod.mk.inj (Except.ok.inj heffects)
          contradiction
    all_goals
      obtain ⟨rfl, rfl⟩ := Prod.mk.inj (Except.ok.inj heffects)
      contradiction
  dsimp only [withResult] at h
  split at h
  · obtain rfl := Except.ok.inj h
    exact ⟨hpush, hnext⟩
  · obtain ⟨minted, -, h⟩ := bind_eq_ok.mp h
    obtain rfl := Except.ok.inj h
    exact ⟨hpush, hnext⟩

end SymbolicOracle

end SymbolicVM

import SymbolicVM.Proofs.Engine.Footprint
import SymbolicVM.Proofs.Run.History
import SymbolicVM.Oracle.Symbolic

/-!
# The footprint of the symbolic oracle's answers

The symbolic oracle stays within the bounds that hold for the engine: its unknowns are numbered from
the counter on, it creates nothing else, and it pops a frame exactly where the engine would. So in a
run with it these bounds hold of every delta (`Run.decision?_symbolic`).
-/

namespace SymbolicVM

namespace SymbolicOracle

variable {s : State} {inst : Instruction} {d : Delta} {number : Nat}

theorem known_valueOf (op : Option Operand) : (valueOf s op).Known s := by
  unfold valueOf
  split
  · exact .scalar rfl
  · split
    · rename_i reg _
      cases hreg : s.register? reg with
      | none => exact .scalar rfl
      | some v => exact .given (State.mem_values_of_register? hreg)
    · exact .scalar (Operand.isScalar_literal _)

theorem within_valueOf (op : Option Operand) : (valueOf s op).Within s :=
  (known_valueOf op).within

theorem mint_eq_ok {constraint : String} {x : Symbolic} {next : Nat}
    (h : mint number constraint = .ok (x, next)) :
    x.name = IdKind.symbol.name number ∧ number + 1 < counterBound ∧ next = number + 1 := by
  unfold mint at h
  split at h
  · rename_i n hn
    obtain ⟨rfl, hroom⟩ := State.nextNumber_eq_ok hn
    obtain ⟨rfl, rfl⟩ := Prod.mk.inj (Except.ok.inj h)
    exact ⟨rfl, hroom, rfl⟩
  · contradiction

theorem within_of_mint {constraint : String} {x : Symbolic} {next : Nat}
    (hle : s.counter ≤ number) (h : mint number constraint = .ok (x, next)) :
    (Value.symbolic x).Within s := by
  obtain ⟨hname, hroom, -⟩ := mint_eq_ok h
  exact .symbolic ⟨number, hle, hroom, hname⟩

/-- The effects apart from the result register. They never push a frame, and the number that they
leave for the result is not below the counter. -/
theorem effects_eq_ok (h : effects inst s = .ok (d, number)) :
    s.counter ≤ number ∧ d.callPush = none ∧ d.StackEffect inst ∧ d.Footprint s := by
  have hplain (reasoning : String) (hopcode : ¬ inst.Unwinds) :
      ({ reasoning } : Delta).callPush = none ∧ ({ reasoning } : Delta).StackEffect inst ∧
        ({ reasoning } : Delta).Footprint s :=
    ⟨rfl, .keeps ⟨rfl, rfl⟩ hopcode, Engine.footprint_reasoning reasoning⟩
  have hpops (hop : inst.Unwinds)
      (h : (Except.ok ({ returnValue := some (valueOf s (inst.operand? 0))
                         callPop := true
                         reasoning := inst.opcode.name ++ " unwinds the frame" }, s.counter) :
        Except OracleError (Delta × Nat)) = .ok (d, number)) :
      s.counter ≤ number ∧ d.callPush = none ∧ d.StackEffect inst ∧ d.Footprint s := by
    obtain ⟨rfl, rfl⟩ := Prod.mk.inj (Except.ok.inj h)
    refine ⟨Nat.le_refl _, rfl, .pops _ rfl rfl hop rfl, .of_empty rfl rfl rfl ?_⟩
    simpa [Delta.mem_writtenValues] using within_valueOf (inst.operand? 0)
  unfold effects at h
  split at h
  case h_1 hop =>
    have hopcode : ¬ inst.Unwinds := by simp [Instruction.Unwinds, hop]
    split at h
    · contradiction
    · obtain ⟨rfl, rfl⟩ := Prod.mk.inj (Except.ok.inj h)
      exact ⟨Nat.le_refl _, rfl, .keeps ⟨rfl, rfl⟩ hopcode,
        .of_empty rfl rfl rfl (by simp [Delta.mem_writtenValues])⟩
  case h_2 hop => exact hpops (.inl hop) h
  case h_3 hop => exact hpops (.inr hop) h
  case h_4 hop =>
    have hopcode : ¬ inst.Unwinds := by simp [Instruction.Unwinds, hop]
    dsimp only at h
    split at h
    · obtain ⟨rfl, rfl⟩ := Prod.mk.inj (Except.ok.inj h)
      exact ⟨Nat.le_refl _, hplain _ hopcode⟩
    · split at h
      · obtain ⟨⟨x, next⟩, hmint, h⟩ := map_eq_ok.mp h
        obtain ⟨rfl, rfl⟩ := Prod.mk.inj h
        obtain ⟨-, -, hnext⟩ := mint_eq_ok hmint
        refine ⟨by omega, rfl, .keeps ⟨rfl, rfl⟩ hopcode, ?_⟩
        exact (Engine.footprint_reasoning _).writeVar (within_of_mint (Nat.le_refl _) hmint) _
      · obtain ⟨rfl, rfl⟩ := Prod.mk.inj (Except.ok.inj h)
        refine ⟨Nat.le_refl _, rfl, .keeps ⟨rfl, rfl⟩ hopcode, ?_⟩
        exact (Engine.footprint_reasoning _).writeVar (within_valueOf _) _
  case h_5 hnotBranch hnotRet hnotThrow hnotStore =>
    obtain ⟨rfl, rfl⟩ := Prod.mk.inj (Except.ok.inj h)
    exact ⟨Nat.le_refl _, hplain "" (by rintro (hop | hop) <;> contradiction)⟩

/-- **What the symbolic oracle's answers may touch.** -/
theorem answer_eq_ok (h : answer inst s = .ok d) : d.StackEffect inst ∧ d.Footprint s := by
  obtain ⟨⟨e, number⟩, heffects, h⟩ := bind_eq_ok.mp h
  obtain ⟨hle, hpush, hstack, hfoot⟩ := effects_eq_ok heffects
  dsimp only [withResult] at h
  split at h
  · obtain rfl := Except.ok.inj h
    exact ⟨hstack, hfoot⟩
  · obtain ⟨⟨x, next⟩, hmint, h⟩ := bind_eq_ok.mp h
    obtain rfl := Except.ok.inj h
    constructor
    · cases hstack with
      | keeps stack opcode => exact .keeps ⟨stack.push, stack.pop⟩ opcode
      | pushes push pushed =>
        rw [hpush] at pushed
        contradiction
      | pops v push pop opcode value => exact .pops v push pop opcode value
    · apply Delta.Footprint.writeRegister
      · exact ⟨hfoot.objects, hfoot.closure, hfoot.writes, hfoot.values⟩
      · exact within_of_mint hle hmint

end SymbolicOracle

namespace Run

/-- **What the deltas of a run with the symbolic oracle may touch.** -/
theorem decision?_symbolic {registry : Registry} {inst : Instruction} {p : Progress Unit}
    {d : Delta} (h : decision? registry SymbolicOracle.oracle inst p = some d) :
    d.StackEffect inst ∧ d.Footprint p.state := by
  rcases decision?_cases h with hengine | horacle
  · exact Engine.decide_eq_ok hengine
  · exact SymbolicOracle.answer_eq_ok horacle

end Run

end SymbolicVM

import SymbolicVM.Proofs.Engine.Footprint
import SymbolicVM.Proofs.Machine.Ownership
import SymbolicVM.Proofs.Oracle.Symbolic

/-!
# Which decisions create environments

Only the decision for a constant creates an environment, and only for a function literal in a frame
that owns none and is not the outermost one (`Engine.captures_of_decide`). The symbolic oracle
creates none. So in a run with it every delta captures as `Delta.Captures` says
(`Run.captures_of_decision?`).
-/

namespace SymbolicVM

namespace Delta

/-- The delta creates no environment. -/
def CapturesNothing (d : Delta) : Prop :=
  d.newClosure = none

namespace CapturesNothing

variable {d : Delta}

theorem captures (h : d.CapturesNothing) (s : State) : d.Captures s := by
  intro c hc
  rw [h] at hc
  contradiction

end CapturesNothing

end Delta

namespace Engine

variable {s : State} {inst : Instruction} {d : Delta} {registry : Registry}

/-- **Which environments the engine creates.** -/
theorem captures_of_decide (h : decide registry inst s = .ok d) : d.Captures s := by
  intro c hc
  cases decide_form h with
  | captures _ _ frames owned _ =>
    exact ⟨_, _, _, frames, owned, (Option.some.inj hc).symm⟩
  | _ => contradiction

end Engine

namespace SymbolicOracle

variable {s : State} {inst : Instruction}

theorem capturesNothing_effects :
    Yields (fun e : Delta × Nat => e.1.CapturesNothing) (effects inst s) := by
  unfold effects
  split
  · split
    · exact .error _
    · exact .ok rfl
  · exact .ok rfl
  · exact .ok rfl
  · dsimp only
    split
    · exact .ok rfl
    · split
      · intro e he
        obtain ⟨-, -, rfl⟩ := map_eq_ok.mp he
        rfl
      · exact .ok rfl
  · exact .ok rfl

/-- The symbolic oracle creates no environment. -/
theorem capturesNothing_of_answer {d : Delta} (h : answer inst s = .ok d) : d.CapturesNothing := by
  obtain ⟨e, heffects, h⟩ := bind_eq_ok.mp h
  have hcaptures := capturesNothing_effects e heffects
  dsimp only [withResult] at h
  split at h
  · obtain rfl := Except.ok.inj h
    exact hcaptures
  · obtain ⟨minted, -, h⟩ := bind_eq_ok.mp h
    obtain rfl := Except.ok.inj h
    exact hcaptures

end SymbolicOracle

namespace Run

/-- **Which environments the deltas of a run with the symbolic oracle create.** -/
theorem captures_of_decision? {registry : Registry} {inst : Instruction} {p : Progress Unit}
    {d : Delta} (h : decision? registry SymbolicOracle.oracle inst p = some d) :
    d.Captures p.state := by
  rcases decision?_cases h with hengine | horacle
  · exact Engine.captures_of_decide hengine
  · exact (SymbolicOracle.capturesNothing_of_answer horacle).captures p.state

end Run

end SymbolicVM

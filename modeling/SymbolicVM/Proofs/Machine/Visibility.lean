import SymbolicVM.Oracle.Request
import SymbolicVM.Proofs.Machine.Variables

/-!
# What a frame is shown and what it reads

A frame reads a variable by a search: the environment that it owns, its locals, the chain of
environments that it was called with, and the first hit counts. The variables that go into a
question to an oracle are collected the other way round: the chain from its far end, the locals, the
owned environment, and the last write counts. Both give the same
(`State.visibleVars_exact`), for chains of any length, also where the parents run in a
circle and a chain passes an environment more than once.
-/

namespace SymbolicVM

namespace State

variable {s : State} {frame : Frame}

/-- **A chain put together from its far end shows what a search from its near end finds**, and
behind the chain what was there before. -/
theorem get?_foldl_bindings (chain : List (String × Environment)) (d : Dict Value)
    (name : String) :
    (chain.reverse.foldl (fun vars e => vars.insertAll e.2.bindings) d).get? name =
      (chainLookup? chain name).or (d.get? name) := by
  rw [List.foldl_reverse]
  -- the nearest environment is the last one that is put in
  induction chain with
  | nil => rfl
  | cons e chain ih =>
    have hlookup : chainLookup? (e :: chain) name =
        (e.2.bindings.get? name).or (chainLookup? chain name) := by
      rw [chainLookup?_eq, chainLookup?_eq, List.findSome?_cons]
      cases e.2.bindings.get? name with
      | none => rfl
      | some v => rfl
    rw [List.foldr_cons, Dict.get?_insertAll, ih, hlookup, Option.or_assoc]

/-- The current frame is shown each name as it reads it. -/
theorem get?_visibleVars (hframe : s.current? = some frame) (name : String) :
    s.visibleVars.get? name = s.lookupIn? frame name := by
  have hchain := get?_foldl_bindings (s.envChain frame.closureEnv) .empty name
  rw [Dict.get?_empty, Option.or_none] at hchain
  unfold visibleVars lookupIn?
  rw [hframe]
  dsimp only
  cases s.ownedEnvironment? frame with
  | none =>
    rw [Dict.get?_insertAll, hchain]
    rfl
  | some env =>
    rw [Dict.get?_insertAll, Dict.get?_insertAll, hchain, Option.bind_some, Option.or_assoc]

/-- What the current frame reads, the machine reads. -/
theorem lookup?_of_lookupIn? (hframe : s.current? = some frame) {name : String} {v : Value}
    (h : s.lookupIn? frame name = some v) : s.lookup? name = some v := by
  obtain ⟨callers, hframes⟩ := List.head?_eq_some_iff.mp hframe
  rw [lookup?_eq_of_frames hframes, h]
  rfl

/-- **A frame is shown exactly what it reads.** The variables that are visible from the current
frame are those that the frame resolves, with the same values; a variable that is visible is read as
it is shown; and every question to an oracle shows them. -/
theorem visibleVars_exact (hframe : s.current? = some frame) (name : String) :
    (∀ v, s.visibleVars.get? name = some v ↔ s.lookupIn? frame name = some v) ∧
      (∀ v, s.visibleVars.get? name = some v → s.lookup? name = some v) ∧
      ∀ inst v, (Request.ofState inst s).vars.get? name = some v ↔
        s.lookupIn? frame name = some v := by
  have hshown (v : Value) :
      s.visibleVars.get? name = some v ↔ s.lookupIn? frame name = some v := by
    rw [get?_visibleVars hframe]
  refine ⟨hshown, fun v hvisible => ?_, fun inst v => hshown v⟩
  exact lookup?_of_lookupIn? hframe ((hshown v).mp hvisible)

/-- A frame with an environment of its own, called with an environment that has itself as
grandparent. -/
def shadowingFrame : Frame where
  function := "f"
  locals := .ofList [("x", .int 1), ("y", .int 2)]
  closureEnv := some "env_0"
  ownedEnv := some "env_2"

/-- The frame and its caller over an arena with a circle. -/
def shadowingState : State where
  frames := [shadowingFrame, { function := mainFrameName, locals := .ofList [("w", .int 9)] }]
  counter := 3
  closures := .ofList
    [("env_0", ⟨.ofList [("z", .int 5)], some "env_1"⟩),
      ("env_1", ⟨.ofList [("y", .int 6), ("z", .int 7)], some "env_0"⟩),
      ("env_2", ⟨.ofList [("x", .int 3)], some "env_0"⟩)]

/-- The owned environment comes before the locals, these before the chain, and the near end of the
chain before the far one. A variable of the caller is read but not shown. -/
theorem shadowingState_visible :
    shadowingState.current? = some shadowingFrame ∧
      shadowingState.visibleVars.get? "x" = some (.int 3) ∧
      shadowingState.lookup? "y" = some (.int 2) ∧
      shadowingState.lookup? "z" = some (.int 5) ∧
      shadowingState.visibleVars.get? "w" = none ∧
      (shadowingState.lookup? "w").isSome = true := by
  have hframe : shadowingState.current? = some shadowingFrame := rfl
  have hx := (visibleVars_exact hframe "x").1 (.int 3)
  have hy := (visibleVars_exact hframe "y").2.1 (.int 2)
  have hz := (visibleVars_exact hframe "z").2.1 (.int 5)
  exact ⟨hframe, hx.mpr rfl, hy rfl, hz rfl, rfl, rfl⟩

end State

end SymbolicVM

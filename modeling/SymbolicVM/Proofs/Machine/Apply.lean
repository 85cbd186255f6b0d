import SymbolicVM.Machine.Delta
import SymbolicVM.Proofs.Except
import SymbolicVM.Proofs.Value.Unknowns
import Mathlib.Data.List.Basic

/-!
# Applying a delta, in two parts

A delta does two things to a state that do not touch each other: it raises the counter above the
identifiers that it reserves, and it changes everything else. `Delta.reservations` lists the
identifiers in the order in which they are reserved, `State.reserveNumber` is what one of them does
to the counter, and `State.effect` is the change of everything else, which cannot fail.

`State.apply_eq` says that applying a delta is just these two side by side. What follows about heap,
stack and arena is then a fact about `effect`, and what follows about the counter a fact about a
fold over a list of names.
-/

namespace SymbolicVM

/-- The number of an identifier of any kind. -/
def IdKind.anyNumber? (name : String) : Option Nat :=
  IdKind.all.findSome? fun kind => kind.number? name

namespace Delta

/-- The addresses of the new objects of a delta, and the name of its new environment. -/
def allocations (d : Delta) : List String :=
  d.newObjects.map (·.address) ++ d.newClosure.toList.map (·.id)

/-- The names of the symbolic values that a delta writes, at any depth. -/
def symbolNames (d : Delta) : List String :=
  d.writtenValues.flatMap fun v => v.unknowns.map (·.name)

/-- The identifiers that a delta reserves, in the order in which it does. -/
def reservations (d : Delta) : List String :=
  d.allocations ++ d.symbolNames

end Delta

namespace State

/-- The state with another counter. -/
def withCounter (s : State) (c : Nat) : State :=
  { s with counter := c }

/-- The counter after an identifier is reserved. -/
def reserveNumber (counter : Nat) (name : String) : Except Overflow Nat :=
  match IdKind.anyNumber? name with
  | some n => if counter ≤ n then nextNumber n else .ok counter
  | none => .ok counter

/-- Adds an object, without reserving its address. -/
def installObject (s : State) (obj : NewObject) : State :=
  let old := (s.heap.get? obj.address).getD {}
  { s with heap := s.heap.insert obj.address { old with hint := obj.hint.or old.hint } }

/-- Adds an environment that the current frame then owns, without reserving its name. -/
def installClosure (s : State) (c : NewClosure) : State :=
  { s with closures := s.closures.insert c.id ⟨c.bindings, c.parent⟩ }.modifyCurrent
    fun frame => { frame with ownedEnv := some c.id }

/-- Puts the new objects and the new environment of a delta in place. -/
def install (s : State) (d : Delta) : State :=
  let s := d.newObjects.foldl installObject s
  d.newClosure.elim s s.installClosure

/-- Writes the registers, the fields and the path condition of a delta. -/
def record (s : State) (d : Delta) : State :=
  let s := d.registerWrites.entries.foldl (fun s e => s.writeRegister e.1 e.2) s
  let s := d.heapWrites.foldl writeField s
  d.pathCondition.elim s fun cond => { s with pathConditions := s.pathConditions ++ [cond] }

/-- Pushes a frame, writes the variables and pops a frame, as a delta says. Returns the frame that
was removed, too. -/
def moveStack (s : State) (d : Delta) : State × Option Frame :=
  let s := d.callPush.elim s s.pushFrame
  let s := s.writeVars d.callPush.isSome d.varWrites
  if d.callPop then s.popFrame else (s, none)

/-- The state after a delta, the counter apart, and the frame that the delta removed. -/
def effect (s : State) (d : Delta) : State × Option Frame :=
  ((s.install d).record d).moveStack d

/-- What no change of a fold touches is as before. -/
theorem foldl_untouched {α β : Type} (view : State → β) {step : State → α → State}
    (h : ∀ s a, view (step s a) = view s) (l : List α) (s : State) :
    view (l.foldl step s) = view s := by
  induction l generalizing s with
  | nil => rfl
  | cons a l ih => rw [List.foldl_cons, ih, h]

/-! ### Nothing but reserving moves or reads the counter -/

section Counter

variable (s : State) (c : Nat)

@[simp] theorem withCounter_self : s.withCounter s.counter = s := rfl

@[simp] theorem withCounter_withCounter (c' : Nat) :
    (s.withCounter c).withCounter c' = s.withCounter c' := rfl

@[simp] theorem counter_withCounter : (s.withCounter c).counter = c := rfl

@[simp] theorem heap_withCounter : (s.withCounter c).heap = s.heap := rfl

@[simp] theorem frames_withCounter : (s.withCounter c).frames = s.frames := rfl

@[simp] theorem closures_withCounter : (s.withCounter c).closures = s.closures := rfl

@[simp] theorem pathConditions_withCounter :
    (s.withCounter c).pathConditions = s.pathConditions := rfl

theorem modifyCurrent_withCounter (f : Frame → Frame) :
    (s.withCounter c).modifyCurrent f = (s.modifyCurrent f).withCounter c := by
  unfold modifyCurrent
  cases hf : s.frames with
  | nil => rw [frames_withCounter, hf]
  | cons frame callers =>
    rw [frames_withCounter, hf]
    rfl

theorem installObject_withCounter (obj : NewObject) :
    (s.withCounter c).installObject obj = (s.installObject obj).withCounter c := rfl

theorem installClosure_withCounter (e : NewClosure) :
    (s.withCounter c).installClosure e = (s.installClosure e).withCounter c :=
  modifyCurrent_withCounter { s with closures := s.closures.insert e.id ⟨e.bindings, e.parent⟩ } c _

theorem writeRegister_withCounter (reg : String) (v : Value) :
    (s.withCounter c).writeRegister reg v = (s.writeRegister reg v).withCounter c :=
  modifyCurrent_withCounter s c _

theorem store_withCounter (name : String) (v : Value) :
    (s.withCounter c).store name v = (s.store name v).withCounter c := by
  unfold store
  have hcurrent : (s.withCounter c).current? = s.current? := rfl
  rw [hcurrent]
  cases s.current? with
  | none => rfl
  | some frame =>
    dsimp only
    have hchain : (s.withCounter c).envChain frame.closureEnv = s.envChain frame.closureEnv := rfl
    rw [hchain]
    split
    · rfl
    · -- a local, which is copied to the environment that the frame owns
      rw [← modifyCurrent_withCounter]
      congr 1
      cases frame.ownedEnv with
      | none => rfl
      | some id =>
        dsimp only
        rw [closures_withCounter]
        cases s.closures.get? id <;> rfl

theorem popFrame_withCounter :
    (s.withCounter c).popFrame = (s.popFrame.1.withCounter c, s.popFrame.2) := by
  unfold popFrame
  rw [frames_withCounter]
  match s.frames with
  | [] | [_] => rfl
  | _ :: _ :: _ => rfl

/-- A fold of changes that leave the counter alone leaves it alone. -/
theorem foldl_withCounter {α : Type} (f : State → α → State)
    (hf : ∀ (s : State) (c : Nat) (a : α), f (s.withCounter c) a = (f s a).withCounter c)
    (l : List α) : l.foldl f (s.withCounter c) = (l.foldl f s).withCounter c := by
  induction l generalizing s with
  | nil => rfl
  | cons a l ih => rw [List.foldl_cons, List.foldl_cons, hf, ih]

theorem writeVars_withCounter (pushed : Bool) (vars : Dict Value) :
    (s.withCounter c).writeVars pushed vars = (s.writeVars pushed vars).withCounter c := by
  unfold writeVars
  apply foldl_withCounter
  intro s c e
  cases pushed with
  | true => exact modifyCurrent_withCounter s c _
  | false => exact store_withCounter s c e.1 e.2

end Counter

/-! ### Reserving is a computation on the counter alone -/

theorem reserve_eq (s : State) (name : String) :
    s.reserve name = (reserveNumber s.counter name).map s.withCounter := by
  unfold reserve reserveNumber
  change (match IdKind.anyNumber? name with | some n => _ | none => _) = _
  cases IdKind.anyNumber? name with
  | none => rfl
  | some n =>
    dsimp only
    split_ifs
    · rfl
    · rfl

/-- A fold of steps that each reserve something and change the state besides is the fold of the
reservations next to the fold of the changes. -/
theorem foldlM_eq_map_withCounter {α : Type} (run : State → α → Except Overflow State)
    (f : State → α → State) (g : Nat → α → Except Overflow Nat)
    (hf : ∀ (s : State) (c : Nat) (a : α), f (s.withCounter c) a = (f s a).withCounter c)
    (hrun : ∀ s a, run s a = (g s.counter a).map (f s a).withCounter) (s : State) (l : List α) :
    l.foldlM run s = (l.foldlM g s.counter).map (l.foldl f s).withCounter := by
  induction l generalizing s with
  | nil => rfl
  | cons a l ih =>
    rw [List.foldlM_cons, List.foldlM_cons, List.foldl_cons, hrun]
    cases g s.counter a with
    | error e => rfl
    | ok c =>
      show l.foldlM run ((f s a).withCounter c) = (l.foldlM g c).map _
      rw [ih, foldl_withCounter _ _ f hf]
      rfl

theorem addObject_eq (s : State) (obj : NewObject) :
    s.addObject obj =
      (reserveNumber s.counter obj.address).map (s.installObject obj).withCounter := by
  unfold addObject
  rw [reserve_eq]
  cases reserveNumber s.counter obj.address with
  | error e => rfl
  | ok c =>
    refine congrArg Except.ok ?_
    unfold installObject
    cases obj.hint <;> rfl

theorem addClosure_eq (s : State) (c : NewClosure) :
    s.addClosure c = (reserveNumber s.counter c.id).map (s.installClosure c).withCounter := by
  unfold addClosure
  rw [reserve_eq]
  cases reserveNumber s.counter c.id with
  | error e => rfl
  | ok n => exact congrArg Except.ok (installClosure_withCounter s n c)

theorem reserveValue_eq (s : State) (v : Value) :
    s.reserveValue v =
      ((v.unknowns.map (·.name)).foldlM reserveNumber s.counter).map s.withCounter := by
  unfold reserveValue
  rw [Value.symbolicNames_eq, foldlM_eq_map_withCounter reserve (fun s _ => s) reserveNumber
    (fun _ _ _ => rfl) reserve_eq, List.foldl_fixed]

/-- Folding over all names is folding over the names of one value after another. -/
theorem foldlM_flatMap {α β κ : Type} (g : κ → β → Except Overflow κ) (names : α → List β)
    (l : List α) (c : κ) :
    (l.flatMap names).foldlM g c = l.foldlM (fun c a => (names a).foldlM g c) c := by
  induction l generalizing c with
  | nil => rfl
  | cons a l ih =>
    rw [List.flatMap_cons, List.foldlM_append, List.foldlM_cons]
    exact congrArg _ (funext ih)

theorem foldlM_reserveValue_eq (s : State) (vs : List Value) :
    vs.foldlM reserveValue s =
      ((vs.flatMap fun v => v.unknowns.map (·.name)).foldlM reserveNumber s.counter).map
        s.withCounter := by
  rw [foldlM_eq_map_withCounter reserveValue (fun s _ => s)
    (fun c v => (v.unknowns.map (·.name)).foldlM reserveNumber c) (fun _ _ _ => rfl)
    reserveValue_eq, List.foldl_fixed, foldlM_flatMap]

/-! ### The two parts of applying a delta -/

/-- The objects and the environment of a delta, and what they reserve. -/
theorem foldlM_addObject_addClosure_eq (s : State) (d : Delta) :
    (d.newObjects.foldlM addObject s >>= fun s => d.newClosure.elim (.ok s) s.addClosure) =
      (d.allocations.foldlM reserveNumber s.counter).map (s.install d).withCounter := by
  unfold install Delta.allocations
  rw [foldlM_eq_map_withCounter addObject installObject (fun c o => reserveNumber c o.address)
    installObject_withCounter addObject_eq, List.foldlM_append, List.foldlM_map]
  cases d.newObjects.foldlM (fun c o => reserveNumber c o.address) s.counter with
  | error e => rfl
  | ok c =>
    cases d.newClosure with
    | none => rfl
    | some e =>
      show (State.withCounter _ c).addClosure e = (reserveNumber c e.id >>= pure).map _
      rw [addClosure_eq, installClosure_withCounter, counter_withCounter]
      cases reserveNumber c e.id <;> rfl

theorem record_withCounter (s : State) (c : Nat) (d : Delta) :
    (s.withCounter c).record d = (s.record d).withCounter c := by
  unfold record
  rw [foldl_withCounter _ _ _ fun s c e => writeRegister_withCounter s c e.1 e.2]
  dsimp only
  rw [foldl_withCounter _ _ writeField fun _ _ _ => rfl]
  cases d.pathCondition <;> rfl

theorem moveStack_withCounter (s : State) (c : Nat) (d : Delta) :
    (s.withCounter c).moveStack d = ((s.moveStack d).1.withCounter c, (s.moveStack d).2) := by
  unfold moveStack
  have hpush : d.callPush.elim (s.withCounter c) (s.withCounter c).pushFrame =
      (d.callPush.elim s s.pushFrame).withCounter c := by
    cases d.callPush <;> rfl
  rw [hpush]
  dsimp only
  rw [writeVars_withCounter]
  split_ifs
  · exact popFrame_withCounter _ _
  · rfl

/-- Applying a delta in three stages: what comes into being, what is written and moved, and the
names that enter with the written values. -/
theorem apply_eq_bind (s : State) (d : Delta) :
    s.apply d =
      ((d.newObjects.foldlM addObject s >>= fun s => d.newClosure.elim (.ok s) s.addClosure) >>=
        fun s =>
          let moved := (s.record d).moveStack d
          (d.writtenValues.foldlM reserveValue moved.1).map
            fun s => ⟨s, d.callPush.isSome, moved.2⟩) := by
  -- the two sides are the same steps as soon as it is known which optional parts there are
  obtain ⟨_, _, _, objects, closure, _, push, pop, _, condition, _⟩ := d
  unfold apply
  cases objects.foldlM addObject s with
  | error e => rfl
  | ok s =>
    cases closure with
    | none => cases condition <;> cases push <;> cases pop <;> rfl
    | some c =>
      show (s.addClosure c >>= _) = (s.addClosure c >>= _)
      cases s.addClosure c with
      | error e => rfl
      | ok s => cases condition <;> cases push <;> cases pop <;> rfl

/-- **A delta raises the counter and changes the rest, independently.** It fails exactly when one of
the names that it reserves has no successor. -/
theorem apply_eq (s : State) (d : Delta) :
    s.apply d =
      (d.reservations.foldlM reserveNumber s.counter).map fun c =>
        ⟨(s.effect d).1.withCounter c, d.callPush.isSome, (s.effect d).2⟩ := by
  rw [apply_eq_bind, foldlM_addObject_addClosure_eq]
  unfold Delta.reservations effect
  rw [List.foldlM_append]
  cases d.allocations.foldlM reserveNumber s.counter with
  | error e => rfl
  | ok c =>
    show Except.map _ (d.writtenValues.foldlM reserveValue
      ((((s.install d).withCounter c).record d).moveStack d).1) =
        (d.symbolNames.foldlM reserveNumber c).map _
    rw [record_withCounter, moveStack_withCounter, foldlM_reserveValue_eq, counter_withCounter]
    unfold Delta.symbolNames
    cases (d.writtenValues.flatMap fun v => v.unknowns.map (·.name)).foldlM reserveNumber c <;> rfl

end State

end SymbolicVM

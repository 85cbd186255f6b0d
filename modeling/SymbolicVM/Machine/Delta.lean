import SymbolicVM.Machine.State

/-!
# Changes of state

A delta lists the effects of one instruction. It is the only way in which a state changes, whoever
decided it. The effects are applied in a fixed order: objects, closure, registers, heap, path
condition, call, variables, return.
-/

namespace SymbolicVM

/-- A value written to a field of an object. -/
structure HeapWrite where
  address : String
  field : String
  value : Value
deriving Inhabited

/-- An object that comes into being. -/
structure NewObject where
  address : String
  hint : Option String := none
deriving DecidableEq, Inhabited

/-- A frame that is pushed. -/
structure CallPush where
  function : String
  returnLabel : Option String := none
  closureEnv : Option String := none
  /-- The call runs a constructor: the caller's result register holds the new object already. -/
  isConstructor : Bool := false
deriving DecidableEq, Inhabited

/-- An environment that comes into being when a function literal is evaluated. -/
structure NewClosure where
  id : String
  bindings : Dict Value := .empty
  parent : Option String := none
deriving Inhabited

/-- The effects of one instruction. -/
structure Delta where
  registerWrites : Dict Value := .empty
  varWrites : Dict Value := .empty
  heapWrites : List HeapWrite := []
  newObjects : List NewObject := []
  newClosure : Option NewClosure := none
  nextLabel : Option String := none
  callPush : Option CallPush := none
  callPop : Bool := false
  returnValue : Option Value := none
  pathCondition : Option String := none
  reasoning : String := ""
deriving Inhabited

namespace Delta

/-- The delta with one more register written. -/
def writeRegister (d : Delta) (reg : String) (v : Value) : Delta :=
  { d with registerWrites := d.registerWrites.insert reg v }

/-- The delta with one more variable written. -/
def writeVar (d : Delta) (name : String) (v : Value) : Delta :=
  { d with varWrites := d.varWrites.insert name v }

/-- The delta with one more field written. -/
def writeHeap (d : Delta) (address field : String) (v : Value) : Delta :=
  { d with heapWrites := d.heapWrites ++ [⟨address, field, v⟩] }

/-- The delta with one more object. -/
def allocate (d : Delta) (address : String) (hint : Option String) : Delta :=
  { d with newObjects := d.newObjects ++ [⟨address, hint⟩] }

/-- All values that the delta writes. -/
def writtenValues (d : Delta) : List Value :=
  d.registerWrites.values ++ d.varWrites.values ++ d.heapWrites.map (·.value) ++
    d.returnValue.toList ++
    (match d.newClosure with
      | some c => c.bindings.values
      | none => [])

end Delta

namespace State

/-! ### Applying a delta -/

/-- Adds an object. An object that is there already keeps its fields, and its class unless a new one
is given. -/
def addObject (s : State) (obj : NewObject) : Except Overflow State :=
  (s.reserve obj.address).map fun s =>
    let old := (s.heap.get? obj.address).getD {}
    let hint := match obj.hint with
      | some h => some h
      | none => old.hint
    { s with heap := s.heap.insert obj.address { old with hint } }

/-- Adds an environment, which the current frame then owns. -/
def addClosure (s : State) (c : NewClosure) : Except Overflow State :=
  (s.reserve c.id).map fun s =>
    { s with closures := s.closures.insert c.id ⟨c.bindings, c.parent⟩ }.modifyCurrent
      fun frame => { frame with ownedEnv := some c.id }

/-- Writes a field. An object that is not on the heap comes into being. -/
def writeField (s : State) (w : HeapWrite) : State :=
  let old := (s.heap.get? w.address).getD {}
  let new := { old with fields := old.fields.insert w.field w.value }
  { s with heap := s.heap.insert w.address new }

/-- Pushes a frame. -/
def pushFrame (s : State) (p : CallPush) : State :=
  let frame : Frame :=
    { function := p.function, returnLabel := p.returnLabel, closureEnv := p.closureEnv }
  { s with frames := frame :: s.frames }

/-- Writes variables: as locals of a frame that was just pushed, otherwise as the current frame
stores them. -/
def writeVars (s : State) (pushed : Bool) (vars : Dict Value) : State :=
  vars.entries.foldl
    (fun s (name, v) =>
      if pushed then
        s.modifyCurrent fun frame => { frame with locals := frame.locals.insert name v }
      else s.store name v)
    s

/-- Keeps the counter above the numbers of the symbolic values in a value. -/
def reserveValue (s : State) (v : Value) : Except Overflow State :=
  v.symbolicNames.foldlM reserve s

/-- A state after a delta, and what the delta did to the stack. -/
structure Applied where
  state : State
  pushed : Bool
  popped : Option Frame

/-- Applies a delta. It fails only if the number of an identifier leaves its word. -/
def apply (s : State) (d : Delta) : Except Overflow Applied := do
  let s ← d.newObjects.foldlM addObject s
  let s ← match d.newClosure with
    | some c => s.addClosure c
    | none => .ok s
  let s := d.registerWrites.entries.foldl (fun s (reg, v) => s.writeRegister reg v) s
  let s := d.heapWrites.foldl writeField s
  let s := match d.pathCondition with
    | some cond => { s with pathConditions := s.pathConditions ++ [cond] }
    | none => s
  let s := match d.callPush with
    | some p => s.pushFrame p
    | none => s
  let pushed := d.callPush.isSome
  let s := s.writeVars pushed d.varWrites
  let (s, popped) := if d.callPop then s.popFrame else (s, none)
  let s ← d.writtenValues.foldlM reserveValue s
  return ⟨s, pushed, popped⟩

end State

end SymbolicVM

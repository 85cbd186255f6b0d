import SymbolicVM.Value.Basic
import SymbolicVM.Text.Numeral

/-!
# The state of the machine

A state has a heap of objects, a stack of frames, the assumptions made so far, an arena of closure
environments, and a counter from which fresh identifiers are numbered. The current frame stands
first in the stack.

A frame reads a variable from the environment that it owns, then from its locals, then through the
environment that it was called with and the parents of that one. A name that a frame does not know
is looked for in its caller.
-/

namespace SymbolicVM

/-- An object on the heap. -/
structure HeapObject where
  hint : Option String := none
  fields : Dict Value := .empty
deriving Inhabited

/-- The object of a class, without fields. -/
def HeapObject.ofClass (cls : String) : HeapObject :=
  { hint := some cls }

/-- An activation of a function. -/
structure Frame where
  function : String
  registers : Dict Value := .empty
  locals : Dict Value := .empty
  /-- The block to return to. -/
  returnLabel : Option String := none
  /-- The position in that block to return to. -/
  returnOffset : Option Nat := none
  /-- The caller's register that takes the returned value. -/
  resultRegister : Option String := none
  /-- The environment that the activation reads through. -/
  closureEnv : Option String := none
  /-- The environment that the activation created. -/
  ownedEnv : Option String := none
deriving Inhabited

/-- A closure environment. -/
structure Environment where
  bindings : Dict Value := .empty
  parent : Option String := none
deriving Inhabited

/-- The name of the outermost frame. -/
def mainFrameName : String := "<main>"

/-- A state of the machine. -/
structure State where
  heap : Dict HeapObject := .empty
  /-- The stack of frames, the current one first. -/
  frames : List Frame := [{ function := mainFrameName }]
  pathConditions : List String := []
  /-- The number of the next fresh identifier. -/
  counter : Nat := 0
  closures : Dict Environment := .empty
deriving Inhabited

/-! ### Numbered identifiers -/

/-- The kinds of identifiers that are numbered from the counter. -/
inductive IdKind where
  | symbol
  | object
  | array
  | environment
deriving DecidableEq

namespace IdKind

/-- All kinds. -/
def all : List IdKind := [.symbol, .object, .array, .environment]

/-- What stands before the number. -/
def head : IdKind → String
  | .symbol => "sym_"
  | .object => "obj_"
  | .array => "arr_"
  | .environment => "env_"

/-- The identifier of a kind with a number. -/
def name (kind : IdKind) (n : Nat) : String :=
  kind.head ++ toString n

/-- The number of an identifier of this kind. -/
def number? (kind : IdKind) (name : String) : Option Nat :=
  Text.numericSuffix? kind.head name

end IdKind

/-- Identifiers are numbered below this bound. -/
def counterBound : Nat := UInt64.size

/-- A number of an identifier, or the sum of a length and an index, left its word. -/
inductive Overflow where
  | overflow
deriving DecidableEq

/-- The wording of an overflow. -/
def Overflow.message : Overflow → String
  | .overflow => "attempt to add with overflow"

/-- The successor of an identifier's number. -/
def nextNumber (n : Nat) : Except Overflow Nat :=
  if n + 1 < counterBound then .ok (n + 1) else .error .overflow

namespace State

/-! ### Frames and registers -/

/-- The frame that executes. -/
def current? (s : State) : Option Frame :=
  s.frames.head?

/-- How many frames are on the stack. -/
def depth (s : State) : Nat :=
  s.frames.length

/-- Changes the current frame. -/
def modifyCurrent (f : Frame → Frame) (s : State) : State :=
  match s.frames with
  | [] => s
  | frame :: callers => { s with frames := f frame :: callers }

/-- The value of a register of the current frame. -/
def register? (s : State) (reg : String) : Option Value :=
  s.current?.bind fun frame => frame.registers.get? reg

/-- Writes a register of the current frame. -/
def writeRegister (s : State) (reg : String) (v : Value) : State :=
  s.modifyCurrent fun frame => { frame with registers := frame.registers.insert reg v }

/-- Records where the current frame returns to. -/
def stampReturn (s : State) (label : String) (offset : Nat) (register : Option String) : State :=
  s.modifyCurrent fun frame =>
    { frame with
      returnLabel := some label, returnOffset := some offset, resultRegister := register }

/-- Removes the current frame unless it is the outermost one. -/
def popFrame (s : State) : State × Option Frame :=
  match s.frames with
  | frame :: caller :: callers => ({ s with frames := caller :: callers }, some frame)
  | _ => (s, none)

/-! ### Environments -/

/-- The environments on the way from `start` through the parents, at most `fuel` of them. -/
def envChainFrom (closures : Dict Environment) :
    Nat → Option String → List (String × Environment)
  | 0, _ => []
  | _ + 1, none => []
  | fuel + 1, some id =>
    match closures.get? id with
    | none => []
    | some env => (id, env) :: envChainFrom closures fuel env.parent

/-- The environments on the way from `start` through the parents. A chain is never longer than the
arena unless it runs in a circle, so one environment more than there are is enough. -/
def envChain (s : State) (start : Option String) : List (String × Environment) :=
  envChainFrom s.closures (s.closures.size + 1) start

/-- The binding of a name in the nearest environment that has one. -/
def chainLookup? (chain : List (String × Environment)) (name : String) : Option Value :=
  chain.findSome? fun (_, env) => env.bindings.get? name

/-- The environment that a frame owns. -/
def ownedEnvironment? (s : State) (frame : Frame) : Option Environment :=
  frame.ownedEnv.bind s.closures.get?

/-! ### Variables -/

/-- The value of a variable as one frame sees it. Closures that the frame created write captured
names to the environment that it owns, so that one is read first. -/
def lookupIn? (s : State) (frame : Frame) (name : String) : Option Value :=
  ((s.ownedEnvironment? frame).bind fun env => env.bindings.get? name)
    |>.or (frame.locals.get? name)
    |>.or (chainLookup? (s.envChain frame.closureEnv) name)

/-- The value of a variable: that of the nearest frame that knows it. -/
def lookup? (s : State) (name : String) : Option Value :=
  s.frames.findSome? fun frame => s.lookupIn? frame name

/-- The variables that the current frame sees by itself. -/
def visibleVars (s : State) : Dict Value :=
  match s.current? with
  | none => .empty
  | some frame =>
    let chain := (s.envChain frame.closureEnv).reverse.foldl
      (fun vars e => vars.insertAll e.2.bindings) Dict.empty
    let vars := chain.insertAll frame.locals
    match s.ownedEnvironment? frame with
    | some env => vars.insertAll env.bindings
    | none => vars

/-- Binds a name in an environment of the arena. -/
def bindIn (s : State) (id : String) (env : Environment) (name : String) (v : Value) : State :=
  { s with closures := s.closures.insert id { env with bindings := env.bindings.insert name v } }

/-- Stores a variable from the current frame. A name that is not local but bound in the closure
chain is written there; any other becomes local, and is also written to the environment that the
frame owns. -/
def store (s : State) (name : String) (v : Value) : State :=
  match s.current? with
  | none => s
  | some frame =>
    let holder :=
      if frame.locals.contains name then none
      else (s.envChain frame.closureEnv).find? fun e => e.2.bindings.contains name
    match holder with
    | some (id, env) => s.bindIn id env name v
    | none =>
      let s := match frame.ownedEnv with
        | some id =>
          match s.closures.get? id with
          | some env => s.bindIn id env name v
          | none => s
        | none => s
      s.modifyCurrent fun frame => { frame with locals := frame.locals.insert name v }

/-! ### Fresh identifiers -/

/-- A fresh identifier of a kind. It is not reserved until it enters the state. -/
def fresh (s : State) (kind : IdKind) : Except Overflow String :=
  (nextNumber s.counter).map fun _ => kind.name s.counter

/-- Keeps the counter above the number of an identifier. -/
def reserve (s : State) (name : String) : Except Overflow State :=
  match IdKind.all.findSome? fun kind => kind.number? name with
  | some n =>
    if s.counter ≤ n then (nextNumber n).map fun next => { s with counter := next } else .ok s
  | none => .ok s

/-- How many symbolic values the state holds, at any depth. -/
def symbolicCount (s : State) : Nat :=
  let inDict (n : Nat) (d : Dict Value) : Nat :=
    d.values.foldl (fun n v => n + v.symbolicCount) n
  let inFrames := s.frames.foldl (fun n f => inDict (inDict n f.registers) f.locals) 0
  let inHeap := s.heap.values.foldl (fun n o => inDict n o.fields) inFrames
  s.closures.values.foldl (fun n e => inDict n e.bindings) inHeap

end State

end SymbolicVM

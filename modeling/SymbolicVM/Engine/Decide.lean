import SymbolicVM.Engine.Operands
import SymbolicVM.Engine.Builtin
import SymbolicVM.Registry

/-!
# Deciding an instruction

The engine computes the effects of an instruction whose operands are known. It changes nothing: all
effects, reads that fix a value included, are in the delta that it returns. Names of new things it
takes from a supply, by default the one that starts at the counter of the state; a name is used up
only if it is in the delta. What the engine cannot compute it refuses.
-/

namespace SymbolicVM.Engine

/-! ### Literals and variables -/

/-- The environment that function literals of the current frame close over: the one that the frame
owns, or a fresh one with the frame's locals. The outermost frame has none. -/
def closureFor (s : State) (supply : Supply := fresh s) :
    Step (Option (String × Option NewClosure)) :=
  match s.frames with
  | frame :: _ :: _ =>
    match frame.ownedEnv with
    | some env => .ok (some (env, none))
    | none => do
      let id ← supply .environment
      return some (id, some { id, bindings := frame.locals, parent := frame.closureEnv })
  | _ => .ok none

/-- Closes a function literal without environment over that of the current frame. Other values stay
as they are. -/
def closeOver (s : State) (v : Value) (supply : Supply := fresh s) :
    Step (Value × Option NewClosure) :=
  match v.str?.bind FunctionRef.parse? with
  | none => .ok (v, none)
  | some f =>
    if f.env.isSome then .ok (v, none)
    else do
      match ← closureFor s supply with
      | none => return (v, none)
      | some (env, closure) => return (.str (f.withEnv env).render, closure)

/-- `CONST`: the literal, closed over if it is a function. -/
def decideConst (inst : Instruction) (s : State) (supply : Supply := fresh s) : Step Delta := do
  let raw := ((inst.operand? 0).map Operand.literal).getD .null
  let (v, newClosure) ← closeOver s raw supply
  return { newClosure, reasoning := "constant " ++ v.render : Delta }.produce inst v

/-- `LOAD_VAR`: the value of the variable; a variable that nobody bound becomes symbolic. -/
def decideLoadVar (inst : Instruction) (s : State) (supply : Supply := fresh s) : Step Delta := do
  let name ← text inst 0
  match s.lookup? name with
  | some v => return { reasoning := "load " ++ name : Delta }.produce inst v
  | none =>
    let sym ← supply .symbol
    return { reasoning := "unbound variable " ++ name ++ " -> symbolic " ++ sym : Delta }.produce
      inst (.symbolic { name := sym })

/-- `STORE_VAR`. -/
def decideStoreVar (inst : Instruction) (s : State) : Step Delta := do
  let name ← text inst 0
  let v ← resolve s (← operand inst 1)
  return { reasoning := "store " ++ name : Delta }.writeVar name v

/-! ### Objects and arrays -/

/-- `NEW_OBJECT`. -/
def decideNewObject (inst : Instruction) (s : State) (supply : Supply := fresh s) :
    Step Delta := do
  let hint := (inst.operand? 0).map Operand.render
  let address ← supply .object
  return ({ reasoning := "new object " ++ address : Delta }.allocate address hint).produce inst
    (.str address)

/-- `NEW_ARRAY`: an array has a known length only if its size is an integer. -/
def decideNewArray (inst : Instruction) (s : State) (supply : Supply := fresh s) :
    Step Delta := do
  let hint := (inst.operand? 0).map Operand.render
  let size ← match inst.operand? 1 with
    | some op => (resolve s op).map some
    | none => .ok none
  let address ← supply .array
  let d := { reasoning := "new array " ++ address : Delta }.allocate address hint
  let d := match size with
    | some (.int n) => d.writeHeap address "length" (.int n)
    | _ => d
  return d.produce inst (.str address)

/-- The key of an array element for an index; a negative one counts from the end of an array whose
length is known. -/
def elementKey (obj : HeapObject) (key : String) : Step String :=
  match Text.int64? key.toList with
  | none => .ok key
  | some i =>
    if i.toInt < 0 then
      match obj.fields.get? "length" with
      | some (.int len) =>
        match Text.word? (len.toInt + i.toInt) with
        | some sum => .ok (Text.ofInt64 sum)
        | none => .error .overflow
      | _ => .ok key
    else .ok key

/-- `LOAD_FIELD` and `LOAD_INDEX` on an object: the value of the field. A field that nobody wrote
becomes symbolic, and the object remembers it. -/
def loadFromHeap (inst : Instruction) (s : State) (base key : Operand)
    (supply : Supply := fresh s) : Step Delta := do
  let (address, obj) ← heapObject s base
  let key ← memberKey s inst.opcode key
  let key ← if inst.opcode = .loadIndex then elementKey obj key else .ok key
  let place := address ++ "[" ++ key ++ "]"
  match obj.fields.get? key with
  | some v => return { reasoning := "load " ++ place : Delta }.produce inst v
  | none =>
    let sym ← supply .symbol
    let v := Value.symbolic { name := sym, constraints := [place] }
    return ({ reasoning := "undefined " ++ place ++ " -> symbolic " ++ sym : Delta }.writeHeap
      address key v).produce inst v

/-- `LOAD_FIELD` and `LOAD_INDEX`. -/
def decideLoad (inst : Instruction) (s : State) (supply : Supply := fresh s) : Step Delta := do
  let baseOperand ← operand inst 0
  let base ← resolve s baseOperand
  let key ← operand inst 1
  let direct ← if inst.opcode = .loadIndex then indexValue? s base key else .ok none
  match direct with
  | some v => return { reasoning := "index into value" : Delta }.produce inst v
  | none => loadFromHeap inst s baseOperand key supply

/-- `STORE_FIELD` and `STORE_INDEX`. -/
def decideStore (inst : Instruction) (s : State) : Step Delta := do
  let (address, _) ← heapObject s (← operand inst 0)
  let key ← memberKey s inst.opcode (← operand inst 1)
  let v ← resolve s (← operand inst 2)
  return { reasoning := "store " ++ address ++ "[" ++ key ++ "]" : Delta }.writeHeap address key v

/-! ### Operators -/

/-- `BINOP`. -/
def decideBinop (inst : Instruction) (s : State) : Step Delta := do
  let word ← text inst 0
  let op ← orRefuse (.unknownOperator word) (BinaryOp.ofString? word)
  let l ← concrete s (← operand inst 1)
  let r ← concrete s (← operand inst 2)
  let v ← orRefuse (.uncomputableBinary l op r) (op.eval l r)
  let reasoning := l.render ++ " " ++ op.symbol ++ " " ++ r.render ++ " = " ++ v.render
  return { reasoning : Delta }.produce inst v

/-- `UNOP`. -/
def decideUnop (inst : Instruction) (s : State) : Step Delta := do
  let word ← text inst 0
  let op ← orRefuse (.unknownOperator word) (UnaryOp.ofString? word)
  let x ← concrete s (← operand inst 1)
  let v ← orRefuse (.uncomputableUnary op x) (op.eval x)
  return { reasoning := op.symbol ++ " " ++ x.render ++ " = " ++ v.render : Delta }.produce inst v

/-! ### Control -/

/-- `BRANCH`. -/
def decideBranch (inst : Instruction) : Step Delta :=
  .ok { nextLabel := inst.label
        reasoning := "jump " ++ inst.label.getD "(fall through)" }

/-- `BRANCH_IF`: the side that the condition picks, recorded as a path condition. -/
def decideBranchIf (inst : Instruction) (s : State) : Step Delta := do
  let (onTrue, onFalse) ← orRefuse .malformedTargets inst.branchTargets?
  let condition ← operand inst 0
  let v ← resolve s condition
  let taken ← orRefuse (.symbolicCondition v) v.truthy?
  let target := if taken then onTrue else onFalse
  return {
    nextLabel := some target
    pathCondition := some (condition.render ++ " is " ++ (Value.bool taken).render)
    reasoning := "branch " ++ v.render ++ " -> " ++ target }

/-- `RETURN`: without an operand the value is null. -/
def decideReturn (inst : Instruction) (s : State) : Step Delta := do
  let v ← match inst.operand? 0 with
    | some op => resolve s op
    | none => .ok .null
  return { returnValue := some v, callPop := true, reasoning := "return " ++ v.render }

/-- `SYMBOLIC`: the argument bound to a parameter. Any other unknown is left to the oracle. -/
def decideSymbolic (inst : Instruction) (s : State) : Step Delta := do
  let hint ← text inst 0
  let param ← orRefuse (.symbolicHint hint) (Text.stripHead? Registry.parameterHead hint)
  let v ← orRefuse (.unboundParameter param) (s.current?.bind fun f => f.locals.get? param)
  return { reasoning := "parameter " ++ param : Delta }.produce inst v

/-! ### Calls -/

/-- Binds parameters to arguments; surplus ones on either side are dropped. -/
def bindArguments (d : Delta) (params : List String) (args : List Value) : Delta :=
  (params.zip args).foldl (fun d (name, v) => d.writeVar name v) d

/-- Calls a function: binds the arguments and asks for a frame at the function's body. -/
def dispatch (registry : Registry) (f : FunctionRef) (args : List Value) : Step Delta := do
  let params ← orRefuse (.noEntry f.label) (registry.parameters? f.label)
  return bindArguments
    { callPush := some { function := f.name, closureEnv := f.env }
      nextLabel := some f.label
      reasoning := "call " ++ f.render }
    params args

/-- Makes an object of a class and, if the class has a constructor, calls it with the object as
first argument. -/
def construct (registry : Registry) (c : ClassRef) (args : List Value) (inst : Instruction)
    (s : State) (supply : Supply := fresh s) : Step Delta := do
  let address ← supply .object
  let made := "new " ++ c.name ++ " -> " ++ address
  let d := (({} : Delta).allocate address (some c.name)).produce inst (.str address)
  match registry.constructor? c.name with
  | none => return { d with reasoning := made }
  | some (name, label) =>
    let params := (registry.parameters? label).getD []
    return bindArguments
      { d with
        callPush := some { function := name, isConstructor := true }
        nextLabel := some label
        reasoning := made ++ ", run " ++ name }
      params (.str address :: args)

/-- Calls a builtin function. -/
def callBuiltin (name : String) (b : Builtin) (args : List Value) (inst : Instruction) (s : State)
    (supply : Supply := fresh s) : Step Delta := do
  if !b.toleratesSymbolic && args.any Value.containsSymbolic then
    .error (.symbolicArguments name)
  else if b = .arrayOf then
    let address ← supply .array
    let reasoning := "builtin " ++ name ++ " -> " ++ address
    return { Builtin.arrayDelta address args with reasoning }.produce inst (.str address)
  else
    let v ← orRefuse (.uncomputableBuiltin name) (b.value? s.heap args)
    return { reasoning := "builtin " ++ name ++ " -> " ++ v.render : Delta }.produce inst v

/-- `CALL_FUNCTION`: a builtin function, or the function or class that a variable refers to. -/
def decideCallFunction (registry : Registry) (inst : Instruction) (s : State)
    (supply : Supply := fresh s) : Step Delta := do
  let name ← text inst 0
  let args ← resolveAll s (inst.operands.drop 1)
  match Builtin.ofName? name with
  | some b => callBuiltin name b args inst s supply
  | none =>
    let target ← orRefuse (.unresolvedFunction name) ((s.lookup? name).bind Value.str?)
    match FunctionRef.parse? target with
    | some f => dispatch registry f args
    | none =>
      match ClassRef.parse? target with
      | some c => construct registry c args inst s supply
      | none => .error (.notCallable name)

/-- `CALL_METHOD`: a function in a field of the object is called as it is; a method of the object's
class gets the object as first argument. -/
def decideCallMethod (registry : Registry) (inst : Instruction) (s : State) : Step Delta := do
  let (address, obj) ← heapObject s (← operand inst 0)
  let method ← text inst 1
  let args ← resolveAll s (inst.operands.drop 2)
  match ((obj.fields.get? method).bind Value.str?).bind FunctionRef.parse? with
  | some f => dispatch registry f args
  | none =>
    let cls ← orRefuse (.noClass address) obj.hint
    let label ← orRefuse (.unresolvedMethod cls method) (registry.method? cls method)
    dispatch registry { name := method, label } (.str address :: args)

/-- The effects of an instruction in a state, or why they are not known. -/
def decide (registry : Registry) (inst : Instruction) (s : State) (supply : Supply := fresh s) :
    Step Delta :=
  match inst.opcode with
  | .label => .ok {}
  | .const => decideConst inst s supply
  | .loadVar => decideLoadVar inst s supply
  | .storeVar => decideStoreVar inst s
  | .newObject => decideNewObject inst s supply
  | .newArray => decideNewArray inst s supply
  | .loadField => decideLoad inst s supply
  | .loadIndex => decideLoad inst s supply
  | .storeField => decideStore inst s
  | .storeIndex => decideStore inst s
  | .binop => decideBinop inst s
  | .unop => decideUnop inst s
  | .branch => decideBranch inst
  | .branchIf => decideBranchIf inst s
  | .callFunction => decideCallFunction registry inst s supply
  | .callMethod => decideCallMethod registry inst s
  | .ret => decideReturn inst s
  | .symbolic => decideSymbolic inst s
  | .callUnknown => .error .unknownCall
  | .throw => .error .throw

end SymbolicVM.Engine

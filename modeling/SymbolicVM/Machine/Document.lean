import SymbolicVM.Machine.Delta
import SymbolicVM.Value.Document

/-!
# States and deltas as documents

States, frames, heap objects, environments and deltas are records. Optional parts are left out when
they are absent; the stack of frames is written with the outermost frame first.
-/

namespace SymbolicVM

/-- The object of a dictionary of values. -/
def valuesToJson (d : Dict Value) : Json :=
  Json.ofDict Value.toJson d

/-- Reads a dictionary of values. -/
def valuesOfJson? (j : Json) : Option (Dict Value) :=
  Json.dict? (fun j => some (Value.ofJson j)) j

namespace HeapObject

/-- The document of an object. -/
def toJson (o : HeapObject) : Json :=
  .obj [("type_hint", Json.ofOption Json.str o.hint), ("fields", valuesToJson o.fields)]

/-- Reads an object. -/
def ofJson? (j : Json) : Option HeapObject := do
  match ← j.fields? ["type_hint", "fields"] with
  | [hint, fields] =>
    return {
      hint := ← Json.optionalField Json.str? hint
      fields := ← Json.fieldOr .empty valuesOfJson? fields }
  | _ => none

end HeapObject

namespace Frame

/-- The document of a frame. -/
def toJson (f : Frame) : Json :=
  Json.record
    [Json.always "function_name" (.str f.function),
      Json.always "registers" (valuesToJson f.registers),
      Json.always "local_vars" (valuesToJson f.locals),
      Json.whenSome "return_label" Json.str f.returnLabel,
      Json.whenSome "return_offset" (fun n => Json.int (n : Nat)) f.returnOffset,
      Json.whenSome "result_reg" Json.str f.resultRegister,
      Json.whenSome "closure_env" Json.str f.closureEnv,
      Json.whenSome "owned_env" Json.str f.ownedEnv]

/-- Reads a frame. -/
def ofJson? (j : Json) : Option Frame := do
  match ← j.fields? ["function_name", "registers", "local_vars", "return_label", "return_offset",
      "result_reg", "closure_env", "owned_env"] with
  | [function, registers, locals, returnLabel, returnOffset, resultRegister, closureEnv,
      ownedEnv] =>
    return {
      function := ← Json.requiredField Json.str? function
      registers := ← Json.fieldOr .empty valuesOfJson? registers
      locals := ← Json.fieldOr .empty valuesOfJson? locals
      returnLabel := ← Json.optionalField Json.str? returnLabel
      returnOffset := ← Json.optionalField Json.nat? returnOffset
      resultRegister := ← Json.optionalField Json.str? resultRegister
      closureEnv := ← Json.optionalField Json.str? closureEnv
      ownedEnv := ← Json.optionalField Json.str? ownedEnv }
  | _ => none

end Frame

namespace Environment

/-- The document of an environment. -/
def toJson (e : Environment) : Json :=
  Json.record
    [Json.always "bindings" (valuesToJson e.bindings), Json.whenSome "parent" Json.str e.parent]

/-- Reads an environment. -/
def ofJson? (j : Json) : Option Environment := do
  match ← j.fields? ["bindings", "parent"] with
  | [bindings, parent] =>
    return {
      bindings := ← Json.fieldOr .empty valuesOfJson? bindings
      parent := ← Json.optionalField Json.str? parent }
  | _ => none

end Environment

namespace State

/-- The document of a state. -/
def toJson (s : State) : Json :=
  Json.record
    [Json.always "heap" (Json.ofDict HeapObject.toJson s.heap),
      Json.always "call_stack" (.arr (s.frames.reverse.map Frame.toJson)),
      Json.always "path_conditions" (.arr (s.pathConditions.map Json.str)),
      Json.always "counter" (.int s.counter),
      Json.memberUnless s.closures.isEmpty "closures" (Json.ofDict Environment.toJson s.closures)]

/-- Reads a state. -/
def ofJson? (j : Json) : Option State := do
  match ← j.fields? ["heap", "call_stack", "path_conditions", "counter", "closures"] with
  | [heap, frames, pathConditions, counter, closures] =>
    return {
      heap := ← Json.requiredField (Json.dict? HeapObject.ofJson?) heap
      frames := (← Json.requiredField (Json.list? Frame.ofJson?) frames).reverse
      pathConditions := ← Json.requiredField (Json.list? Json.str?) pathConditions
      counter := ← Json.requiredField Json.nat? counter
      closures := ← Json.fieldOr .empty (Json.dict? Environment.ofJson?) closures }
  | _ => none

end State

namespace HeapWrite

/-- The document of a write. -/
def toJson (w : HeapWrite) : Json :=
  .obj [("obj_addr", .str w.address), ("field", .str w.field), ("value", w.value.toJson)]

/-- Reads a write. -/
def ofJson? (j : Json) : Option HeapWrite := do
  match ← j.fields? ["obj_addr", "field", "value"] with
  | [address, field, value] =>
    return {
      address := ← Json.requiredField Json.str? address
      field := ← Json.requiredField Json.str? field
      value := Value.ofJson (← value) }
  | _ => none

end HeapWrite

namespace NewObject

/-- The document of a new object. -/
def toJson (o : NewObject) : Json :=
  .obj [("addr", .str o.address), ("type_hint", Json.ofOption Json.str o.hint)]

/-- Reads a new object. -/
def ofJson? (j : Json) : Option NewObject := do
  match ← j.fields? ["addr", "type_hint"] with
  | [address, hint] =>
    return {
      address := ← Json.requiredField Json.str? address
      hint := ← Json.optionalField Json.str? hint }
  | _ => none

end NewObject

namespace CallPush

/-- The document of a call. -/
def toJson (p : CallPush) : Json :=
  Json.record
    [Json.always "function_name" (.str p.function),
      Json.always "return_label" (Json.ofOption Json.str p.returnLabel),
      Json.whenSome "closure_env" Json.str p.closureEnv,
      Json.memberUnless (!p.isConstructor) "constructor" (.bool p.isConstructor)]

/-- Reads a call. -/
def ofJson? (j : Json) : Option CallPush := do
  match ← j.fields? ["function_name", "return_label", "closure_env", "constructor"] with
  | [function, returnLabel, closureEnv, isConstructor] =>
    return {
      function := ← Json.requiredField Json.str? function
      returnLabel := ← Json.optionalField Json.str? returnLabel
      closureEnv := ← Json.optionalField Json.str? closureEnv
      isConstructor := ← Json.fieldOr false Json.bool? isConstructor }
  | _ => none

end CallPush

namespace NewClosure

/-- The document of a new environment. -/
def toJson (c : NewClosure) : Json :=
  .obj [("id", .str c.id), ("bindings", valuesToJson c.bindings),
    ("parent", Json.ofOption Json.str c.parent)]

/-- Reads a new environment. -/
def ofJson? (j : Json) : Option NewClosure := do
  match ← j.fields? ["id", "bindings", "parent"] with
  | [id, bindings, parent] =>
    return {
      id := ← Json.requiredField Json.str? id
      bindings := ← Json.fieldOr .empty valuesOfJson? bindings
      parent := ← Json.optionalField Json.str? parent }
  | _ => none

end NewClosure

namespace Delta

/-- The document of a delta: only what it does is written. -/
def toJson (d : Delta) : Json :=
  Json.record
    [Json.memberUnless d.registerWrites.isEmpty "register_writes" (valuesToJson d.registerWrites),
      Json.memberUnless d.varWrites.isEmpty "var_writes" (valuesToJson d.varWrites),
      Json.memberUnless d.heapWrites.isEmpty "heap_writes"
        (.arr (d.heapWrites.map HeapWrite.toJson)),
      Json.memberUnless d.newObjects.isEmpty "new_objects"
        (.arr (d.newObjects.map NewObject.toJson)),
      Json.whenSome "new_closure" NewClosure.toJson d.newClosure,
      Json.whenSome "next_label" Json.str d.nextLabel,
      Json.whenSome "call_push" CallPush.toJson d.callPush,
      Json.memberUnless (!d.callPop) "call_pop" (.bool d.callPop),
      Json.whenSome "return_value" Value.toJson d.returnValue,
      Json.whenSome "path_condition" Json.str d.pathCondition,
      Json.memberUnless d.reasoning.isEmpty "reasoning" (.str d.reasoning)]

/-- Reads a delta; every part may be missing. -/
def ofJson? (j : Json) : Option Delta := do
  match ← j.fields? ["register_writes", "var_writes", "heap_writes", "new_objects", "new_closure",
      "next_label", "call_push", "call_pop", "return_value", "path_condition", "reasoning"] with
  | [registerWrites, varWrites, heapWrites, newObjects, newClosure, nextLabel, callPush, callPop,
      returnValue, pathCondition, reasoning] =>
    return {
      registerWrites := ← Json.fieldOr .empty valuesOfJson? registerWrites
      varWrites := ← Json.fieldOr .empty valuesOfJson? varWrites
      heapWrites := ← Json.fieldOr [] (Json.list? HeapWrite.ofJson?) heapWrites
      newObjects := ← Json.fieldOr [] (Json.list? NewObject.ofJson?) newObjects
      newClosure := ← Json.optionalField NewClosure.ofJson? newClosure
      nextLabel := ← Json.optionalField Json.str? nextLabel
      callPush := ← Json.optionalField CallPush.ofJson? callPush
      callPop := ← Json.fieldOr false Json.bool? callPop
      returnValue := ← Json.optionalField (fun j => some (Value.ofJson j)) returnValue
      pathCondition := ← Json.optionalField Json.str? pathCondition
      reasoning := ← Json.fieldOr "" Json.str? reasoning }
  | _ => none

end Delta

end SymbolicVM

import SymbolicVM.Oracle.Basic
import SymbolicVM.Machine.Document
import SymbolicVM.Json.Reader

/-!
# Answers of an oracle

An answer is the text of one object in the shape of a delta, possibly between fences. It must write
the result register of the instruction, and its new objects must have addresses. Symbolic values
without a name get fresh ones, numbered above the state's counter and above every name that the
answer itself uses.
-/

namespace SymbolicVM.Response

/-! ### Fences -/

/-- The mark that opens and closes a fence. -/
def fence : List Char := ['`', '`', '`']

/-- Drops a first line that opens a fence. -/
def dropOpening (cs : List Char) : List Char :=
  if fence.isPrefixOf cs then ((Text.splitOnce '\n' cs).map (·.2)).getD [] else cs

/-- Drops a last line that closes a fence. -/
def dropClosing (cs : List Char) : List Char :=
  if Text.endsWith fence cs then ((Text.splitLast '\n' cs).map (·.1)).getD [] else cs

/-- The text between fences, or the text itself. -/
def stripFences (cs : List Char) : List Char :=
  Text.trimChars (dropClosing (dropOpening (Text.trimChars cs)))

/-! ### Names -/

/-- The number above that of a symbolic name, if it has one. -/
def above (next : Nat) (name : String) : Except Overflow Nat :=
  match IdKind.symbol.number? name with
  | some n => (nextNumber n).map fun m => max next m
  | none => .ok next

/-- The first number above the counter and above every symbolic name in the values. -/
def firstNumber (counter : Nat) (values : List Value) : Except Overflow Nat :=
  values.foldlM (fun next v => v.symbolicNames.foldlM above next) counter

mutual

/-- Names the symbolic values in a value that have none, counting up from `next`. -/
def nameValue (next : Nat) : Value → Except Overflow (Value × Nat)
  | .symbolic s =>
    if s.name.isEmpty then
      (nextNumber next).map fun after =>
        (.symbolic { s with name := IdKind.symbol.name next }, after)
    else .ok (.symbolic s, next)
  | .list items => (nameItems next items).map fun r => (.list r.1, r.2)
  | .map entries => (nameEntries next entries).map fun r => (.map r.1, r.2)
  | v => .ok (v, next)

/-- Names the symbolic values in a list of values, from left to right. -/
def nameItems (next : Nat) : List Value → Except Overflow (List Value × Nat)
  | [] => .ok ([], next)
  | v :: vs => do
    let (v, next) ← nameValue next v
    let (vs, next) ← nameItems next vs
    return (v :: vs, next)

/-- Names the symbolic values in a list of entries, from left to right. -/
def nameEntries (next : Nat) : List (String × Value) → Except Overflow (List (String × Value) × Nat)
  | [] => .ok ([], next)
  | (k, v) :: es => do
    let (v, next) ← nameValue next v
    let (es, next) ← nameEntries next es
    return ((k, v) :: es, next)

end

/-- Names the symbolic values in a dictionary. -/
def nameDict (next : Nat) (d : Dict Value) : Except Overflow (Dict Value × Nat) :=
  (nameEntries next d.entries).map fun r => (Dict.ofList r.1, r.2)

/-- Names the symbolic values in the heap writes of a delta. -/
def nameHeapWrites (next : Nat) : List HeapWrite → Except Overflow (List HeapWrite × Nat)
  | [] => .ok ([], next)
  | w :: ws => do
    let (v, next) ← nameValue next w.value
    let (ws, next) ← nameHeapWrites next ws
    return ({ w with value := v } :: ws, next)

/-- Names the symbolic values in a returned value. -/
def nameOption (next : Nat) : Option Value → Except Overflow (Option Value × Nat)
  | none => .ok (none, next)
  | some v => (nameValue next v).map fun r => (some r.1, r.2)

/-- Names the symbolic values in the bindings of a new environment. -/
def nameClosure (next : Nat) : Option NewClosure → Except Overflow (Option NewClosure)
  | none => .ok none
  | some c => (nameDict next c.bindings).map fun r => some { c with bindings := r.1 }

/-- Names all symbolic values of a delta that have no name. -/
def nameDelta (counter : Nat) (d : Delta) : Except Overflow Delta := do
  let next ← firstNumber counter d.writtenValues
  let (registerWrites, next) ← nameDict next d.registerWrites
  let (varWrites, next) ← nameDict next d.varWrites
  let (heapWrites, next) ← nameHeapWrites next d.heapWrites
  let (returnValue, next) ← nameOption next d.returnValue
  let newClosure ← nameClosure next d.newClosure
  return { d with registerWrites, varWrites, heapWrites, returnValue, newClosure }

/-! ### Reading an answer -/

/-- The delta of a document, if it has the shape of one. -/
def decode (j : Json) : Except OracleError Delta :=
  if j.isObj then
    match Delta.ofJson? j with
    | some d => .ok d
    | none => .error .wrongShape
  else .error (.notObject j.compact)

/-- Checks what an answer owes to the instruction: a write to its result register, and addresses for
new objects. -/
def check (inst : Instruction) (d : Delta) : Except OracleError Unit := do
  match inst.result with
  | some reg => if d.registerWrites.contains reg then .ok () else .error (.missingResult reg)
  | none => .ok ()
  match d.newObjects.find? fun obj => obj.address.isEmpty with
  | some obj => .error (.missingAddress obj.hint)
  | none => .ok ()

/-- Reads and checks an answer. -/
def parse (text : String) (inst : Instruction) (s : State) : Except OracleError Delta := do
  let d ← match Json.read? (String.ofList (stripFences text.toList)) with
    | some j => decode j
    | none => .error .notJson
  check inst d
  match nameDelta s.counter d with
  | .ok d => .ok d
  | .error e => .error (.ofOverflow e)

end SymbolicVM.Response

import SymbolicVM.Machine.Delta
import SymbolicVM.Operator.Unary
import SymbolicVM.Value.Literal

/-!
# Builtin functions

The functions that every program may call. Most of them compute a value from their arguments alone;
`len` also reads the heap, and the functions that make arrays add an object to it.
-/

namespace SymbolicVM

/-- A builtin function. -/
inductive Builtin where
  | len | range | print | int | float | str | bool | abs | max | min | arrayOf
deriving DecidableEq, Inhabited

namespace Builtin

/-- The builtin function of a name. Arrays are made under three names. -/
def ofName? : String → Option Builtin
  | "len" => some .len
  | "range" => some .range
  | "print" => some .print
  | "int" => some .int
  | "float" => some .float
  | "str" => some .str
  | "bool" => some .bool
  | "abs" => some .abs
  | "max" => some .max
  | "min" => some .min
  | "arrayOf" => some .arrayOf
  | "intArrayOf" => some .arrayOf
  | "Array" => some .arrayOf
  | _ => none

/-- Whether the function takes symbolic arguments. -/
def toleratesSymbolic : Builtin → Bool
  | .print | .len | .arrayOf => true
  | _ => false

/-! ### Lengths -/

/-- The length of an object: its field `length` if that is an integer, otherwise the number of its
fields. A field `length` of another kind leaves the length unknown. -/
def objectLength? (o : HeapObject) : Option Value :=
  match o.fields.get? "length" with
  | some (.int n) => some (.int n)
  | some _ => none
  | none => some (.int (Int64.ofNat o.fields.size))

/-- The length of the object that a value refers to, or of a text, list or map. -/
def length? (heap : Dict HeapObject) (v : Value) : Option Value :=
  match v.heapAddress?.bind heap.get? with
  | some o => objectLength? o
  | none =>
    match v with
    | .str s => some (.int (Int64.ofNat s.length))
    | .list items => some (.int (Int64.ofNat items.length))
    | .map entries => some (.int (Int64.ofNat entries.length))
    | _ => none

/-! ### Ranges -/

/-- The longest list that a range may make. -/
def maxRangeLength : Nat := 1 <<< 16

/-- Start, stop and step of a range. -/
def rangeBounds? : List Int64 → Option (Int × Int × Int)
  | [stop] => some (0, stop.toInt, 1)
  | [start, stop] => some (start.toInt, stop.toInt, 1)
  | [start, stop, step] =>
    if step.toInt = 0 then none else some (start.toInt, stop.toInt, step.toInt)
  | _ => none

/-- How many steps lead from zero to a span without passing it. -/
def rangeLength (span step : Int) : Nat :=
  if span ≠ 0 ∧ (0 < span ↔ 0 < step) then (span.natAbs + step.natAbs - 1) / step.natAbs else 0

/-- The list of a range. The distance from start to stop must fit a 64-bit word, and the list must
not be too long. -/
def range? (args : List Value) : Option Value := do
  let ints ← args.mapM Value.int?
  let (start, stop, step) ← rangeBounds? ints
  let _ ← Text.word? (stop - start)
  let count := rangeLength (stop - start) step
  if count ≤ maxRangeLength then
    some (.list ((List.range count).map fun (i : Nat) => .int (Int64.ofInt (start + i * step))))
  else none

/-! ### Conversions -/

/-- The integer of a floating-point number, its fraction cut off. -/
def truncate? (x : Float) : Option Value :=
  if x.isFinite && x.abs < 9223372036854775808.0 then some (.int x.toInt64) else none

/-- The integer of a value. -/
def toInt? : Option Value → Option Value
  | none => some (.int 0)
  | some (.int i) => some (.int i)
  | some (.bool b) => some (.int (if b then 1 else 0))
  | some (.float x) => truncate? x
  | some (.str s) => (Text.int64? (Text.trimChars s.toList)).map .int
  | some _ => none

/-- The floating-point number of a value. -/
def toFloat? : Option Value → Option Value
  | none => some (.float 0.0)
  | some (.int i) => some (.float i.toFloat)
  | some (.bool b) => some (.float (if b then 1.0 else 0.0))
  | some (.float x) => some (.float x)
  | some (.str s) => (Decimal.float? (Text.trimChars s.toList)).map .float
  | some _ => none

/-- The absolute value of a number. -/
def abs? : Value → Option Value
  | .int i => Value.ofInt? (i.toInt.natAbs : Int)
  | .bool b => some (.int (if b then 1 else 0))
  | .float x => some (.float x.abs)
  | _ => none

/-! ### Extremes -/

/-- The items among which an extreme is sought: those of a single list, otherwise the arguments. -/
def extremeItems : List Value → List Value
  | [.list items] => items
  | args => args

/-- Moves from the best item so far to a better one. -/
def better? (op : BinaryOp) (best item : Value) : Option Value :=
  match op.eval item best with
  | some (.bool true) => some item
  | some (.bool false) => some best
  | _ => none

/-- The first item that no other one is better than. -/
def extreme? (op : BinaryOp) (args : List Value) : Option Value :=
  match extremeItems args with
  | [] => none
  | first :: rest => rest.foldlM (better? op) first

/-! ### Arrays -/

/-- The delta that makes an array of values: a field for each position, and the length. -/
def arrayDelta (address : String) (items : List Value) : Delta :=
  let filled := items.zipIdx.foldl
    (fun (d : Delta) (v, i) => d.writeHeap address (Text.ofInt64 (Int64.ofNat i)) v)
    (({} : Delta).allocate address (some "array"))
  filled.writeHeap address "length" (.int (Int64.ofNat items.length))

/-- The value that a function without effects computes. -/
def value? (heap : Dict HeapObject) (b : Builtin) (args : List Value) : Option Value :=
  match b with
  | .len => args.head?.bind (length? heap)
  | .range => range? args
  | .print => some .null
  | .int => toInt? args.head?
  | .float => toFloat? args.head?
  | .str =>
    match args.head? with
    | none => some (.str "")
    | some v => some (.str v.render)
  | .bool =>
    match args.head? with
    | none => some (.bool false)
    | some v => v.truthy?.map .bool
  | .abs => args.head?.bind abs?
  | .max => extreme? .gt args
  | .min => extreme? .lt args
  | .arrayOf => none

end Builtin

end SymbolicVM

import SymbolicVM.Operator.Number

/-!
# Binary operators

The operators on two values and their results. There is no result when an integer leaves the 64-bit
range, a divisor is zero, a repetition grows too long, or the operands are not of a kind the
operator takes.
-/

namespace SymbolicVM

/-- An operator on two values. -/
inductive BinaryOp where
  | add | sub | mul | div | floorDiv | mod | pow
  | eq | ne | lt | gt | le | ge
  | and | or | isIn
  | bitAnd | bitOr | bitXor | shl | shr
deriving DecidableEq, Inhabited

namespace BinaryOp

/-- The operator of a sign or word. -/
def ofString? : String → Option BinaryOp
  | "+" => some .add
  | "-" => some .sub
  | "*" => some .mul
  | "/" => some .div
  | "//" => some .floorDiv
  | "%" => some .mod
  | "**" => some .pow
  | "==" => some .eq
  | "===" => some .eq
  | "!=" => some .ne
  | "!==" => some .ne
  | "<" => some .lt
  | ">" => some .gt
  | "<=" => some .le
  | ">=" => some .ge
  | "and" => some .and
  | "&&" => some .and
  | "or" => some .or
  | "||" => some .or
  | "in" => some .isIn
  | "&" => some .bitAnd
  | "|" => some .bitOr
  | "^" => some .bitXor
  | "<<" => some .shl
  | ">>" => some .shr
  | _ => none

/-- The sign or word of an operator. -/
def symbol : BinaryOp → String
  | .add => "+"
  | .sub => "-"
  | .mul => "*"
  | .div => "/"
  | .floorDiv => "//"
  | .mod => "%"
  | .pow => "**"
  | .eq => "=="
  | .ne => "!="
  | .lt => "<"
  | .gt => ">"
  | .le => "<="
  | .ge => ">="
  | .and => "and"
  | .or => "or"
  | .isIn => "in"
  | .bitAnd => "&"
  | .bitOr => "|"
  | .bitXor => "^"
  | .shl => "<<"
  | .shr => ">>"

/-- An operator is read back from its own sign. -/
theorem ofString?_symbol (op : BinaryOp) : ofString? op.symbol = some op := by
  cases op <;> rfl

end BinaryOp

namespace Value

/-! ### Arithmetic -/

/-- The integer value of a whole number, if it fits 64 bits. -/
def ofInt? (i : Int) : Option Value :=
  (Text.word? i).map .int

/-- An operation that is exact on integers and rounds when one operand is a floating-point number.
-/
def arithmetic (onInt : Int → Int → Int) (onFloat : Float → Float → Float) (l r : Value) :
    Option Value :=
  match l.number?, r.number? with
  | some (.int a), some (.int b) => ofInt? (onInt a.toInt b.toInt)
  | some a, some b => some (.float (onFloat a.toFloat b.toFloat))
  | _, _ => none

/-- Sum of numbers, or one text or list after another. -/
def add (l r : Value) : Option Value :=
  match l, r with
  | .str a, .str b => some (.str (a ++ b))
  | .list a, .list b => some (.list (a ++ b))
  | _, _ => arithmetic (· + ·) (· + ·) l r

/-- The longest text or list that a repetition may make. -/
def maxRepeatLength : Nat := 1 <<< 20

/-- How often to repeat something of size `unit`, if the result is not too long. A negative count is
zero. -/
def repeatCount? (count : Int64) (unit : Nat) : Option Nat :=
  let n := count.toInt.toNat
  if n * unit ≤ maxRepeatLength then some n else none

/-- A list repeated. -/
def repeatList {α : Type} (n : Nat) (items : List α) : List α :=
  if items.isEmpty then [] else (List.replicate n items).flatten

/-- A text repeated; its size is that of its encoding in bytes. -/
def repeatText? (s : String) (count : Int64) : Option Value :=
  (repeatCount? count s.utf8ByteSize).map fun n => .str (String.ofList (repeatList n s.toList))

/-- A list of values repeated. -/
def repeatItems? (items : List Value) (count : Int64) : Option Value :=
  (repeatCount? count items.length).map fun n => .list (repeatList n items)

/-- Product of numbers, or a text or list repeated. -/
def mul (l r : Value) : Option Value :=
  match l, r with
  | .str s, .int n => repeatText? s n
  | .int n, .str s => repeatText? s n
  | .list items, .int n => repeatItems? items n
  | .int n, .list items => repeatItems? items n
  | _, _ => arithmetic (· * ·) (· * ·) l r

/-- An operation on two floating-point numbers with a divisor that must not be zero. -/
def divideFloat (f : Float → Float → Float) (a b : Float) : Option Value :=
  if b != 0.0 then some (.float (f a b)) else none

/-- The quotient as a floating-point number. -/
def div (l r : Value) : Option Value :=
  match l.number?, r.number? with
  | some a, some b => divideFloat (· / ·) a.toFloat b.toFloat
  | _, _ => none

/-- The quotient rounded down. -/
def floorDiv (l r : Value) : Option Value :=
  match l.number?, r.number? with
  | some (.int a), some (.int b) =>
    if b.toInt = 0 then none else ofInt? (a.toInt.fdiv b.toInt)
  | some a, some b => divideFloat (fun a b => (a / b).floor) a.toFloat b.toFloat
  | _, _ => none

/-- The remainder of the quotient rounded down. Where the quotient leaves the 64-bit range there is
none. -/
def mod (l r : Value) : Option Value :=
  match l.number?, r.number? with
  | some (.int a), some (.int b) =>
    if b.toInt = 0 then none
    else (Text.word? (a.toInt.fdiv b.toInt)).bind fun _ => ofInt? (a.toInt.fmod b.toInt)
  | some a, some b => divideFloat (fun a b => a - b * (a / b).floor) a.toFloat b.toFloat
  | _, _ => none

/-- A power of an integer, if it fits 64 bits. Beyond exponent 63 only powers of zero, one and minus
one fit, and for these the exponent matters by its parity alone. -/
def power? (base : Int) (exponent : Nat) : Option Value :=
  if exponent ≤ 63 then ofInt? (base.pow exponent)
  else if base.natAbs ≤ 1 then ofInt? (base.pow (exponent % 2 + 2))
  else none

/-- A power. An integer exponent must be below `2 ^ 32`; with a negative or floating-point exponent
the result is a floating-point number and must be finite. -/
def pow (l r : Value) : Option Value :=
  let onFloat (a b : Float) : Option Value :=
    let x := a.pow b
    if x.isFinite then some (.float x) else none
  match l.number?, r.number? with
  | some (.int a), some (.int b) =>
    if 0 ≤ b.toInt then
      (if b.toInt < 0x100000000 then power? a.toInt b.toInt.toNat else none)
    else onFloat a.toFloat b.toFloat
  | some a, some b => onFloat a.toFloat b.toFloat
  | _, _ => none

/-! ### Comparison and membership -/

/-- Whether a comparison comes out as one of those accepted. -/
def compares (accepted : List Comparison) (l r : Value) : Option Value :=
  (compare? l r).map fun c => .bool (accepted.contains c)

/-- Whether a container holds a value: a text a part of it, a list an equal item, a map a key. -/
def holds? (container needle : Value) : Option Bool :=
  match container with
  | .str s => needle.str?.map fun n => Text.occursIn n.toList s.toList
  | .list items => some (items.any fun item => looseEq item needle)
  | .map entries => needle.fieldKey?.map fun k => (Entries.get? k entries).isSome
  | _ => none

/-! ### Bits -/

/-- A bitwise operation; on two truth values the result is a truth value. -/
def bitwise (f : Int64 → Int64 → Int64) (l r : Value) : Option Value :=
  let ofBool (b : Bool) : Int64 := if b then 1 else 0
  match l, r with
  | .bool a, .bool b => some (.bool (f (ofBool a) (ofBool b) != 0))
  | _, _ =>
    match l.int?, r.int? with
    | some a, some b => some (.int (f a b))
    | _, _ => none

/-- A shift by at least zero and fewer than 64 places. -/
def shift (f : Int → Nat → Int) (l r : Value) : Option Value :=
  match l.int?, r.int? with
  | some a, some b =>
    if 0 ≤ b.toInt ∧ b.toInt < 64 then ofInt? (f a.toInt b.toInt.toNat) else none
  | _, _ => none

end Value

/-- The result of an operator, if there is one. -/
def BinaryOp.eval (op : BinaryOp) (l r : Value) : Option Value :=
  match op with
  | .add => Value.add l r
  | .sub => Value.arithmetic (· - ·) (· - ·) l r
  | .mul => Value.mul l r
  | .div => Value.div l r
  | .floorDiv => Value.floorDiv l r
  | .mod => Value.mod l r
  | .pow => Value.pow l r
  | .eq => some (.bool (Value.looseEq l r))
  | .ne => some (.bool (!Value.looseEq l r))
  | .lt => Value.compares [.less] l r
  | .gt => Value.compares [.greater] l r
  | .le => Value.compares [.less, .equal] l r
  | .ge => Value.compares [.greater, .equal] l r
  | .and => l.truthy?.map fun b => if b then r else l
  | .or => l.truthy?.map fun b => if b then l else r
  | .isIn => (Value.holds? r l).map .bool
  | .bitAnd => Value.bitwise (· &&& ·) l r
  | .bitOr => Value.bitwise (· ||| ·) l r
  | .bitXor => Value.bitwise (· ^^^ ·) l r
  | .shl => Value.shift (fun a n => a * Int.pow 2 n) l r
  | .shr => Value.shift (fun a n => a.fdiv (Int.pow 2 n)) l r

end SymbolicVM

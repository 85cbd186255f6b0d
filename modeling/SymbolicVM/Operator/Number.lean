import SymbolicVM.Value.Printer

/-!
# Numbers, equality and order

The numeric reading of values, equality across kinds of numbers, and the order of numbers and of
texts. A truth value counts as zero or one. Numbers of different kinds are compared as
floating-point numbers.
-/

namespace SymbolicVM

/-- A number: an integer or a floating-point number. -/
inductive Number where
  | int (i : Int64)
  | float (x : Float)

/-- The number as a floating-point number. -/
def Number.toFloat : Number → Float
  | .int i => i.toFloat
  | .float x => x

namespace Value

/-- The number that a value is. -/
def number? : Value → Option Number
  | .int i => some (.int i)
  | .bool b => some (.int (if b then 1 else 0))
  | .float x => some (.float x)
  | _ => none

/-- Equality of two values that are neither lists nor maps nor symbolic. -/
def scalarEq (l r : Value) : Bool :=
  match l.number?, r.number? with
  | some (.int a), some (.int b) => a == b
  | some a, some b => a.toFloat == b.toFloat
  | _, _ =>
    match l, r with
    | .null, .null => true
    | .str a, .str b => a == b
    | _, _ => false

mutual

/-- Equality across kinds of numbers. Symbolic values are equal when they have one name, and never
equal to a value that is not symbolic. -/
def looseEq : Value → Value → Bool
  | .symbolic a, .symbolic b => a.name == b.name
  | .list a, .list b => a.length == b.length && looseEqItems a b
  | .map a, .map b => a.length == b.length && looseEqEntries a b
  | .symbolic _, _ => false
  | _, .symbolic _ => false
  | l, r => scalarEq l r

/-- Equality item by item, as far as both lists go. -/
def looseEqItems : List Value → List Value → Bool
  | a :: as, b :: bs => looseEq a b && looseEqItems as bs
  | _, _ => true

/-- Whether every entry has an equal one at the same key. -/
def looseEqEntries : List (String × Value) → List (String × Value) → Bool
  | [], _ => true
  | (k, v) :: es, bs =>
    (match Entries.get? k bs with
      | some w => looseEq v w
      | none => false) && looseEqEntries es bs

end

/-- How two comparable values stand to each other. -/
inductive Comparison where
  | less
  | equal
  | greater
  /-- A number that is undefined is neither below, at nor above any number. -/
  | unordered
deriving DecidableEq

/-- How an ordering of texts or integers reads as a comparison. -/
def Comparison.ofOrdering : Ordering → Comparison
  | .lt => .less
  | .eq => .equal
  | .gt => .greater

/-- Compares two floating-point numbers. -/
def compareFloat (a b : Float) : Comparison :=
  if a < b then .less
  else if b < a then .greater
  else if a == b then .equal
  else .unordered

/-- Compares two texts by code points or two numbers by size; other values are not comparable. -/
def compare? (l r : Value) : Option Comparison :=
  match l, r with
  | .str a, .str b => some (.ofOrdering (compare a b))
  | _, _ =>
    match l.number?, r.number? with
    | some (.int a), some (.int b) => some (.ofOrdering (compare a b))
    | some a, some b => some (compareFloat a.toFloat b.toFloat)
    | _, _ => none

end Value

end SymbolicVM

import SymbolicVM.Operator.Binary

/-!
# Unary operators

Negation, plus, logical and bitwise complement. There is no result when the operand is not of a kind
the operator takes, or when the negated integer leaves the 64-bit range.
-/

namespace SymbolicVM

/-- An operator on one value. -/
inductive UnaryOp where
  | neg | pos | not | bitNot
deriving DecidableEq, Inhabited

namespace UnaryOp

/-- The operator of a sign or word. -/
def ofString? : String → Option UnaryOp
  | "-" => some .neg
  | "+" => some .pos
  | "not" => some .not
  | "!" => some .not
  | "~" => some .bitNot
  | _ => none

/-- The sign or word of an operator. -/
def symbol : UnaryOp → String
  | .neg => "-"
  | .pos => "+"
  | .not => "not"
  | .bitNot => "~"

/-- An operator is read back from its own sign. -/
theorem ofString?_symbol (op : UnaryOp) : ofString? op.symbol = some op := by
  cases op <;> rfl

/-- The result of an operator, if there is one. -/
def eval (op : UnaryOp) (v : Value) : Option Value :=
  match op with
  | .neg =>
    match v.number? with
    | some (.int i) => Value.ofInt? (-i.toInt)
    | some (.float x) => some (.float (-x))
    | none => none
  | .pos =>
    match v.number? with
    | some (.int i) => some (.int i)
    | some (.float x) => some (.float x)
    | none => none
  | .not => v.truthy?.map fun b => .bool (!b)
  | .bitNot => v.int?.map fun i => .int (~~~i)

end UnaryOp

end SymbolicVM

import SymbolicVM.Machine.State
import SymbolicVM.Instruction.Basic
import SymbolicVM.Operator.Unary

/-!
# Why an instruction is not decided

The local engine declines an instruction that it cannot compute; an oracle may then decide it. It
fails for good only when the number of an identifier, or the sum of a length and an index, leaves
its 64-bit word.
-/

namespace SymbolicVM

/-- Why the engine has no effects for an instruction. -/
inductive Refusal where
  | missingOperand (op : Opcode) (position : Nat)
  | notAName (op : Opcode) (position : Nat)
  | unsetRegister (reg : String)
  | symbolicOperand (v : Value)
  | notAReference (v : Value)
  | deadObject (address : String)
  | invalidKey (v : Value)
  | unknownOperator (word : String)
  | uncomputableBinary (l : Value) (op : BinaryOp) (r : Value)
  | uncomputableUnary (op : UnaryOp) (v : Value)
  | malformedTargets
  | symbolicCondition (v : Value)
  | symbolicHint (hint : String)
  | unboundParameter (name : String)
  | unknownCall
  | throw
  | listIndexNotInteger
  | listIndexOutOfRange
  | textIndexNotInteger
  | textIndexOutOfRange
  | invalidMapKey
  | missingKey (key : String)
  | symbolicArguments (builtin : String)
  | uncomputableBuiltin (builtin : String)
  | unresolvedFunction (name : String)
  | notCallable (name : String)
  | noClass (address : String)
  | unresolvedMethod (cls method : String)
  | noEntry (label : String)
  /-- The computation left a 64-bit word; no oracle is asked. -/
  | overflow

/-- The wording of a refusal. -/
def Refusal.message : Refusal → String
  | .missingOperand op i => op.name ++ " missing operand " ++ toString i
  | .notAName op i => op.name ++ " operand " ++ toString i ++ " is not a name"
  | .unsetRegister reg => "register " ++ reg ++ " unset"
  | .symbolicOperand v => "symbolic operand " ++ v.render
  | .notAReference v => v.render ++ " is not a heap reference"
  | .deadObject address => address ++ " is not a live heap object"
  | .invalidKey v => v.render ++ " is not a valid key"
  | .unknownOperator word => "unknown operator " ++ word
  | .uncomputableBinary l op r =>
    "uncomputable " ++ l.render ++ " " ++ op.symbol ++ " " ++ r.render
  | .uncomputableUnary op v => "uncomputable " ++ op.symbol ++ " " ++ v.render
  | .malformedTargets => "malformed branch targets"
  | .symbolicCondition v => "symbolic condition " ++ v.render
  | .symbolicHint hint => "symbolic " ++ hint
  | .unboundParameter name => "unbound parameter " ++ name
  | .unknownCall => "call through unknown target"
  | .throw => "throw"
  | .listIndexNotInteger => "list index must be an integer"
  | .listIndexOutOfRange => "list index out of range"
  | .textIndexNotInteger => "string index must be an integer"
  | .textIndexOutOfRange => "string index out of range"
  | .invalidMapKey => "invalid map key"
  | .missingKey key => "missing key " ++ key
  | .symbolicArguments builtin => "builtin " ++ builtin ++ " with symbolic arguments"
  | .uncomputableBuiltin builtin => "builtin " ++ builtin ++ " uncomputable"
  | .unresolvedFunction name => "unresolved function " ++ name
  | .notCallable name => name ++ " is not callable"
  | .noClass address => address ++ " has no class"
  | .unresolvedMethod cls method => "unresolved method " ++ cls ++ "." ++ method
  | .noEntry label => "no function entry " ++ label
  | .overflow => Overflow.overflow.message

end SymbolicVM

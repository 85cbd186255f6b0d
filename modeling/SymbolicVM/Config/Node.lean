import SymbolicVM.Config.Basic

/-!
# Nodes of configuration texts

The formats of configuration files differ in what a scalar may stand for. Each format turns its
texts into nodes whose scalars list their readings, and one reader makes a configuration out of
nodes.
-/

namespace SymbolicVM.Config

/-- The readings of a scalar. -/
structure Scalar where
  text : Option String := none
  bool : Option Bool := none
  int : Option Int := none
  /-- The name that it gives to one of several choices. -/
  choice : Option String := none
  /-- It stands for a value that is not there. -/
  isNull : Bool := false
  /-- It stands for an empty list or table. -/
  isVoid : Bool := false
deriving DecidableEq, Inhabited

namespace Scalar

/-- The scalar of a text that is nothing else. -/
def ofText (s : String) : Scalar :=
  { text := some s, choice := some s }

/-- The scalar of a truth value. -/
def ofBool (b : Bool) : Scalar :=
  { bool := some b }

/-- The scalar of a whole number. -/
def ofInt (i : Int) : Scalar :=
  { int := some i }

/-- The scalar of an absent value. -/
def null : Scalar :=
  { isNull := true }

end Scalar

/-- A node of a configuration text. A table keeps its entries in the order of the text, also several
of one key. -/
inductive Node where
  | scalar (s : Scalar)
  | list (items : List Node)
  | table (entries : List (String × Node))
deriving Inhabited

/-- The rules in which formats differ beyond scalars. -/
structure Dialect where
  /-- Whether a table with one entry names a choice, given the entry's value. -/
  isChoiceBody : Node → Bool
  /-- Whether a list that stands for a table may be longer than the table has fields. -/
  toleratesExtraItems : Bool

namespace Node

/-! ### Readings of nodes -/

/-- A text. -/
def text? : Node → Option String
  | .scalar s => s.text
  | _ => none

/-- A truth value. -/
def bool? : Node → Option Bool
  | .scalar s => s.bool
  | _ => none

/-- A whole number from zero to below `bound`. -/
def natBelow? (bound : Nat) : Node → Option Nat
  | .scalar s => s.int.bind fun i => if 0 ≤ i ∧ i < bound then some i.toNat else none
  | _ => none

/-- A text that may be absent. -/
def optionalText? : Node → Option (Option String)
  | .scalar s => if s.isNull then some none else s.text.map some
  | _ => none

/-- A list of texts. -/
def texts? : Node → Option (List String)
  | .list items => items.mapM text?
  | .scalar s => if s.isVoid then some [] else none
  | .table _ => none

/-- The kind of an oracle, by its name or as the only key of a table. -/
def backend? (dialect : Dialect) : Node → Option Backend
  | .scalar s => s.choice.bind Backend.ofName?
  | .table [(name, body)] => if dialect.isChoiceBody body then Backend.ofName? name else none
  | _ => none

/-- The entries with a key. -/
def valuesOf (name : String) (entries : List (String × Node)) : List Node :=
  (entries.filter fun e => e.1 == name).map (·.2)

/-- The one value of a key, or none; a key that occurs twice is refused. -/
def field? (entries : List (String × Node)) (name : String) : Option (Option Node) :=
  match valuesOf name entries with
  | [] => some none
  | [node] => some (some node)
  | _ => none

/-- The fields of a record: entries of a table, or the items of a list in order. -/
def fields? (dialect : Dialect) (names : List String) : Node → Option (List (Option Node))
  | .table entries => names.mapM (field? entries)
  | .list items =>
    if items.length ≤ names.length ∨ dialect.toleratesExtraItems then
      some ((items.map some ++ List.replicate (names.length - items.length) none).take names.length)
    else none
  | .scalar s => if s.isVoid then some (names.map fun _ => none) else none

/-- A field with a default. -/
def fieldOr {α : Type} (default : α) (read : Node → Option α) : Option Node → Option α
  | none => some default
  | some node => read node

end Node

/-! ### Configurations -/

/-- Reads the configuration of an oracle. -/
def oracle? (dialect : Dialect) (node : Node) : Option OracleConfig := do
  let fields ← node.fields? dialect ["backend", "command", "timeout_ms", "retries", "replay"]
  match fields with
  | [backend, command, timeout, retries, replay] =>
    let default : OracleConfig := {}
    return {
      backend := ← Node.fieldOr default.backend (Node.backend? dialect) backend
      command := ← Node.fieldOr default.command Node.texts? command
      timeout := ← Node.fieldOr default.timeout (Node.natBelow? UInt64.size) timeout
      retries := ← Node.fieldOr default.retries (Node.natBelow? UInt32.size) retries
      replay := ← Node.fieldOr default.replay Node.optionalText? replay }
  | _ => none

/-- Reads the configuration of a run. -/
def run? (dialect : Dialect) (node : Node) : Option RunConfig := do
  let fields ← node.fields? dialect ["entry", "max_steps", "trace", "oracle"]
  match fields with
  | [entry, maxSteps, trace, oracle] =>
    let default : RunConfig := {}
    return {
      entry := ← Node.fieldOr default.entry Node.optionalText? entry
      maxSteps := ← Node.fieldOr default.maxSteps (Node.natBelow? UInt64.size) maxSteps
      trace := ← Node.fieldOr default.trace Node.bool? trace
      oracle := ← Node.fieldOr default.oracle (oracle? dialect) oracle }
  | _ => none

end SymbolicVM.Config

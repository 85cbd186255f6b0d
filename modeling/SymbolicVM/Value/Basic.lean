import SymbolicVM.Dict

/-!
# Values

The values that registers, variables and heap fields hold. Besides null, truth values, 64-bit
integers, floating-point numbers, texts, lists and maps there are symbolic values: unknowns with a
name. References to heap objects, functions and classes are texts. A map lists its entries by
increasing key.
-/

namespace SymbolicVM

/-- An unknown value: its name, what kind of value it may be, and what is known about it. -/
structure Symbolic where
  name : String
  hint : Option String := none
  constraints : List String := []
deriving DecidableEq, Inhabited

/-- A value of the machine. -/
inductive Value where
  | null
  | bool (b : Bool)
  | int (i : Int64)
  | float (x : Float)
  | str (s : String)
  | list (items : List Value)
  | map (entries : List (String × Value))
  | symbolic (s : Symbolic)
deriving Inhabited

namespace Value

/-! ### Symbolic parts -/

/-- Whether the value itself is symbolic. -/
def isSymbolic : Value → Bool
  | .symbolic _ => true
  | _ => false

/-- The unknown that the value is, if it is one. -/
def symbolic? : Value → Option Symbolic
  | .symbolic s => some s
  | _ => none

mutual

/-- Whether the value or anything nested in it is symbolic. -/
def containsSymbolic : Value → Bool
  | .symbolic _ => true
  | .list items => anySymbolic items
  | .map entries => anySymbolicEntry entries
  | _ => false

/-- Whether one of the items contains a symbolic value. -/
def anySymbolic : List Value → Bool
  | [] => false
  | v :: vs => containsSymbolic v || anySymbolic vs

/-- Whether one of the entries contains a symbolic value. -/
def anySymbolicEntry : List (String × Value) → Bool
  | [] => false
  | (_, v) :: es => containsSymbolic v || anySymbolicEntry es

end

section Fold

variable {β : Type} (f : β → Symbolic → β)

mutual

/-- Folds a function over the symbolic values in a value, at any depth and from left to right. -/
def foldSymbolic (b : β) : Value → β
  | .symbolic s => f b s
  | .list items => foldSymbolicItems b items
  | .map entries => foldSymbolicEntries b entries
  | _ => b

/-- Folds a function over the symbolic values in a list of values. -/
def foldSymbolicItems (b : β) : List Value → β
  | [] => b
  | v :: vs => foldSymbolicItems (foldSymbolic b v) vs

/-- Folds a function over the symbolic values in a list of entries. -/
def foldSymbolicEntries (b : β) : List (String × Value) → β
  | [] => b
  | (_, v) :: es => foldSymbolicEntries (foldSymbolic b v) es

end

end Fold

/-- The names of the symbolic values in a value, from left to right. -/
def symbolicNames (v : Value) : List String :=
  (foldSymbolic (fun names s => s.name :: names) [] v).reverse

/-- How many symbolic values a value contains. -/
def symbolicCount (v : Value) : Nat :=
  foldSymbolic (fun n _ => n + 1) 0 v

/-! ### Views -/

/-- The text that the value is. -/
def str? : Value → Option String
  | .str s => some s
  | _ => none

/-- The integer that the value is; truth values count as zero and one. -/
def int? : Value → Option Int64
  | .int i => some i
  | .bool b => some (if b then 1 else 0)
  | _ => none

/-- The address that the value may stand for: a text, or a map with a text at the key `addr`. -/
def heapAddress? : Value → Option String
  | .str s => some s
  | .map entries => (Entries.get? "addr" entries).bind str?
  | _ => none

/-- Whether a condition with this value holds; unknown for a symbolic value. Zero and everything
empty is false. -/
def truthy? : Value → Option Bool
  | .null => some false
  | .bool b => some b
  | .int i => some (i != 0)
  | .float x => some (x != 0.0)
  | .str s => some (!s.isEmpty)
  | .list items => some (!items.isEmpty)
  | .map entries => some (!entries.isEmpty)
  | .symbolic _ => none

/-- The name of the kind of value. -/
def kind : Value → String
  | .null => "null"
  | .bool _ => "bool"
  | .int _ => "int"
  | .float _ => "float"
  | .str _ => "str"
  | .list _ => "list"
  | .map _ => "map"
  | .symbolic _ => "symbolic"

end Value

end SymbolicVM

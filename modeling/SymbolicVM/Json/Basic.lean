import SymbolicVM.Dict

/-!
# Documents

The tree of a JSON document. Whole numbers and floating-point numbers are told apart, and the
members of an object are kept in a list: in the order of the text after reading, in the order of
declaration when a record is written. A canonical document lists the members of every object by
increasing key, each key once.
-/

namespace SymbolicVM

/-- A JSON document. Whole numbers lie between `-2 ^ 63` and `2 ^ 64 - 1`. -/
inductive Json where
  | null
  | bool (b : Bool)
  | int (i : Int)
  | float (x : Float)
  | str (s : String)
  | arr (items : List Json)
  | obj (members : List (String × Json))
deriving Inhabited, BEq

namespace Json

/-- The document of a floating-point number; numbers that are not finite have none and become
`null`. -/
def ofFloat (x : Float) : Json :=
  if x.isFinite then .float x else .null

/-- The document of an optional value, `null` when it is absent. -/
def ofOption {α : Type} (f : α → Json) : Option α → Json
  | some a => f a
  | none => .null

/-- The member of an object at a key. -/
def get? (key : String) : Json → Option Json
  | .obj members => Entries.get? key members
  | _ => none

/-- Whether the document is an object. -/
def isObj : Json → Bool
  | .obj _ => true
  | _ => false

mutual

/-- The same document with the members of every object by increasing key; of several members with
one key the last counts. -/
def canonical : Json → Json
  | .arr items => .arr (canonicalItems items)
  | .obj members => .obj (Entries.ofList (canonicalMembers members))
  | j => j

/-- The canonical forms of the items of an array. -/
def canonicalItems : List Json → List Json
  | [] => []
  | j :: js => canonical j :: canonicalItems js

/-- The members of an object with canonical values, in their old order. -/
def canonicalMembers : List (String × Json) → List (String × Json)
  | [] => []
  | (k, j) :: ms => (k, canonical j) :: canonicalMembers ms

end

end Json

end SymbolicVM

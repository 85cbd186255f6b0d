import SymbolicVM.Config.Node
import SymbolicVM.Json.Reader

/-!
# Configurations in JSON
-/

namespace SymbolicVM.Config.JsonNode

mutual

/-- The node of a document. -/
def ofJson : Json → Node
  | .null => .scalar Scalar.null
  | .bool b => .scalar (.ofBool b)
  | .int i => .scalar (.ofInt i)
  | .float _ => .scalar {}
  | .str s => .scalar (.ofText s)
  | .arr items => .list (ofItems items)
  | .obj members => .table (ofMembers members)

/-- The nodes of a list of documents. -/
def ofItems : List Json → List Node
  | [] => []
  | j :: js => ofJson j :: ofItems js

/-- The entries of a list of members. -/
def ofMembers : List (String × Json) → List (String × Node)
  | [] => []
  | (k, j) :: ms => (k, ofJson j) :: ofMembers ms

end

/-- Whether a node stands for an absent value. -/
def isNull : Node → Bool
  | .scalar s => s.isNull
  | _ => false

/-- A choice may be written as a table from its name to `null`. -/
def dialect : Dialect where
  isChoiceBody := isNull
  toleratesExtraItems := false

/-- Reads a configuration from the text of a document. -/
def config? (text : String) : Option RunConfig :=
  (Json.parse? text).bind fun j => run? dialect (ofJson j)

end SymbolicVM.Config.JsonNode

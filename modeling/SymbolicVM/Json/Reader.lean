import SymbolicVM.Json.Token

/-!
# Reading documents

A sequence of tokens is read by an automaton with a stack of open arrays and objects. Containers may
be nested 127 deep. `parse?` keeps the members of objects as they are written; `read?` gives the
canonical document.
-/

namespace SymbolicVM.Json

/-- An open container. What it holds so far is kept in reverse. -/
inductive Context where
  /-- An array with the items before the current one. -/
  | items (before : List Json)
  /-- An object with the members before the current one, and the key of that one. -/
  | member (before : List (String × Json)) (key : String)

/-- What must come next. The innermost open container stands first. -/
inductive Expect where
  /-- A value. -/
  | value (stack : List Context)
  /-- A first item, or the end of the array. -/
  | itemOrEnd (stack : List Context)
  /-- A first key, or the end of the object. -/
  | keyOrEnd (stack : List Context)
  /-- A key, after a comma. -/
  | key (before : List (String × Json)) (stack : List Context)
  /-- The colon after a key. -/
  | colon (before : List (String × Json)) (key : String) (stack : List Context)
  /-- A comma or the end of the innermost container, whose current value is complete. -/
  | more (v : Json) (stack : List Context)
  /-- Nothing: the document is complete. -/
  | done (v : Json)

/-- How many containers may be open at once. -/
def maxDepth : Nat := 127

/-- A complete value ends the document or waits in the innermost container. -/
def complete (v : Json) : List Context → Expect
  | [] => .done v
  | stack => .more v stack

/-- Reads the first token of a value. -/
def startValue (stack : List Context) : Token → Option Expect
  | .scalar j => some (complete j stack)
  | .openArr => if stack.length < maxDepth then some (.itemOrEnd stack) else none
  | .openObj => if stack.length < maxDepth then some (.keyOrEnd stack) else none
  | _ => none

/-- Reads one token. -/
def stepExpect : Expect → Token → Option Expect
  | .value stack, t => startValue stack t
  | .itemOrEnd stack, .closeArr => some (complete (.arr []) stack)
  | .itemOrEnd stack, t => startValue (.items [] :: stack) t
  | .keyOrEnd stack, .closeObj => some (complete (.obj []) stack)
  | .keyOrEnd stack, .scalar (.str k) => some (.colon [] k stack)
  | .key before stack, .scalar (.str k) => some (.colon before k stack)
  | .colon before k stack, .colon => some (.value (.member before k :: stack))
  | .more v (.items before :: stack), .comma => some (.value (.items (v :: before) :: stack))
  | .more v (.items before :: stack), .closeArr =>
    some (complete (.arr (v :: before).reverse) stack)
  | .more v (.member before k :: stack), .comma => some (.key ((k, v) :: before) stack)
  | .more v (.member before k :: stack), .closeObj =>
    some (complete (.obj ((k, v) :: before).reverse) stack)
  | _, _ => none

/-- The document of a sequence of tokens. -/
def ofTokens? (tokens : List Token) : Option Json :=
  (tokens.foldlM stepExpect (.value [])).bind fun
    | .done v => some v
    | _ => none

/-- Reads a document and keeps the members of objects as they are written. -/
def parse? (text : String) : Option Json :=
  (tokens? text.toList).bind ofTokens?

/-- Reads a document into its canonical form. -/
def read? (text : String) : Option Json :=
  (parse? text).map canonical

end SymbolicVM.Json

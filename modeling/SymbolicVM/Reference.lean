import SymbolicVM.Text.Split
import SymbolicVM.Text.WordChar

/-!
# References to functions and classes

A function reference is the text `<function:name@label>`, with `#env` before the closing bracket
when the function is closed over an environment; a class reference is `<class:name@label>`. Names,
labels and environments are non-empty and consist of word characters. A reference is found anywhere
in a text; of several the leftmost counts.
-/

namespace SymbolicVM

namespace Reference

/-- A non-empty run of word characters and what follows it. -/
def word? (cs : List Char) : Option (String × List Char) :=
  let run := cs.takeWhile Text.isWordChar
  if run.isEmpty then none else some (String.ofList run, cs.dropWhile Text.isWordChar)

/-- The name and label of a reference after its head, and what follows them. -/
def nameAndLabel? (head : String) (cs : List Char) : Option (String × String × List Char) := do
  let rest ← Text.dropHead? head.toList cs
  let (name, rest) ← word? rest
  let rest ← Text.dropHead? ['@'] rest
  let (label, rest) ← word? rest
  return (name, label, rest)

/-- The first success of a reader over all positions of a text, from left to right. -/
def search? {α : Type} (readAt : List Char → Option α) : List Char → Option α
  | [] => none
  | c :: cs =>
    match readAt (c :: cs) with
    | some a => some a
    | none => search? readAt cs

end Reference

/-- A reference to a function by its name and the label of its body. -/
structure FunctionRef where
  name : String
  label : String
  /-- The environment that the function reads through. -/
  env : Option String := none
deriving DecidableEq, Inhabited

namespace FunctionRef

/-- The text of a reference. -/
def render (r : FunctionRef) : String :=
  "<function:" ++ r.name ++ "@" ++ r.label ++
    (match r.env with
      | some env => "#" ++ env
      | none => "") ++ ">"

/-- Reads a reference at the start of a text. -/
def readAt (cs : List Char) : Option FunctionRef := do
  let (name, label, rest) ← Reference.nameAndLabel? "<function:" cs
  match rest with
  | '>' :: _ => some { name, label }
  | '#' :: rest =>
    let (env, rest) ← Reference.word? rest
    match rest with
    | '>' :: _ => some { name, label, env := some env }
    | _ => none
  | _ => none

/-- The leftmost function reference in a text. -/
def parse? (text : String) : Option FunctionRef :=
  Reference.search? readAt text.toList

/-- The same function, closed over an environment. -/
def withEnv (r : FunctionRef) (env : String) : FunctionRef :=
  { r with env := some env }

end FunctionRef

/-- A reference to a class by its name and the label of its body. -/
structure ClassRef where
  name : String
  label : String
deriving DecidableEq, Inhabited

namespace ClassRef

/-- The text of a reference. -/
def render (r : ClassRef) : String :=
  "<class:" ++ r.name ++ "@" ++ r.label ++ ">"

/-- Reads a reference at the start of a text. -/
def readAt (cs : List Char) : Option ClassRef := do
  let (name, label, rest) ← Reference.nameAndLabel? "<class:" cs
  match rest with
  | '>' :: _ => some { name, label }
  | _ => none

/-- The leftmost class reference in a text. -/
def parse? (text : String) : Option ClassRef :=
  Reference.search? readAt text.toList

end ClassRef

end SymbolicVM

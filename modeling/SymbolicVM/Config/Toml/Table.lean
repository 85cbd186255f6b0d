import SymbolicVM.Config.Node

/-!
# Tables of TOML

How the statements of a text build up its table. A table may be opened by a header once; a table
that only the header of a table inside it has named may still be opened; one that dotted keys have
made may not, and a table written in line is closed for good.
-/

namespace SymbolicVM.Config.Toml

/-- How a table came into being. -/
inductive Origin where
  /-- It has a header of its own. -/
  | header
  /-- The header of a table inside it named it. -/
  | implied
  /-- A dotted key named it. -/
  | dotted
  /-- It was written in line. -/
  | closed
deriving DecidableEq

/-- A value of a text under construction. -/
inductive Tree where
  | scalar (s : Scalar)
  | array (items : List Tree)
  | table (origin : Origin) (entries : List (String × Tree))
  /-- The tables that headers in double brackets have made, the last one first. -/
  | tables (items : List (List (String × Tree)))
deriving Inhabited

/-- The entries of a table. -/
abbrev Table := List (String × Tree)

namespace Tree

mutual

/-- The node of a value. -/
def toNode : Tree → Node
  | .scalar s => .scalar s
  | .array items => .list (itemNodes items)
  | .table _ entries => .table (entryNodes entries)
  | .tables items => .list (tableNodes items).reverse

/-- The nodes of a list of values. -/
def itemNodes : List Tree → List Node
  | [] => []
  | t :: ts => t.toNode :: itemNodes ts

/-- The entries of a table as nodes. -/
def entryNodes : List (String × Tree) → List (String × Node)
  | [] => []
  | (k, t) :: es => (k, t.toNode) :: entryNodes es

/-- The nodes of a list of tables. -/
def tableNodes : List (List (String × Tree)) → List Node
  | [] => []
  | es :: rest => .table (entryNodes es) :: tableNodes rest

end

end Tree

namespace Table

/-- The value of a key. -/
def value? (key : String) (entries : Table) : Option Tree :=
  (entries.find? fun e => e.1 == key).map (·.2)

/-- Gives a key a new value, in its place or at the end. -/
def set (key : String) (t : Tree) (entries : Table) : Table :=
  if (value? key entries).isSome then entries.map fun e => if e.1 == key then (key, t) else e
  else entries ++ [(key, t)]

/-- Changes the table at the end of a path. Tables on the way that do not exist come into being.
`dotted` tells whether the path is one of dotted keys, which may not enter tables with headers, or
of a header. -/
def modifyAt (dotted : Bool) (change : Table → Option Table) :
    List String → Table → Option Table
  | [], entries => change entries
  | key :: path, entries =>
    match value? key entries with
    | none =>
      (modifyAt dotted change path []).map fun inner =>
        set key (.table (if dotted then .dotted else .implied) inner) entries
    | some (.table origin inner) =>
      if origin = .closed ∨ (dotted = true ∧ origin = .header) then none
      else
        (modifyAt dotted change path inner).map fun inner =>
          set key (.table origin inner) entries
    | some (.tables (last :: earlier)) =>
      (modifyAt dotted change path last).map fun last => set key (.tables (last :: earlier)) entries
    | some _ => none

/-- Adds a key that is not there yet. -/
def add? (key : String) (t : Tree) (entries : Table) : Option Table :=
  if (value? key entries).isSome then none else some (entries ++ [(key, t)])

/-- Adds a value at a dotted key. -/
def assign? (path : List String) (t : Tree) (entries : Table) : Option Table :=
  match path.getLast? with
  | none => none
  | some key => modifyAt true (add? key t) path.dropLast entries

/-- Opens the table of a header. -/
def openTable? (path : List String) (entries : Table) : Option Table :=
  match path.getLast? with
  | none => none
  | some key =>
    modifyAt false
      (fun table =>
        match value? key table with
        | none => some (set key (.table .header []) table)
        | some (.table .implied inner) => some (set key (.table .header inner) table)
        | some _ => none)
      path.dropLast entries

/-- Opens one more table of a header in double brackets. -/
def openItem? (path : List String) (entries : Table) : Option Table :=
  match path.getLast? with
  | none => none
  | some key =>
    modifyAt false
      (fun table =>
        match value? key table with
        | none => some (set key (.tables [[]]) table)
        | some (.tables items) => some (set key (.tables ([] :: items)) table)
        | some _ => none)
      path.dropLast entries

end Table

/-- A statement of a text. -/
inductive Statement where
  /-- A key and its value. -/
  | entry (path : List String) (value : Tree)
  /-- A header. -/
  | header (path : List String)
  /-- A header in double brackets. -/
  | item (path : List String)

/-- The table built so far, and the path of the open table. -/
structure Builder where
  root : Table := []
  current : List String := []

/-- Carries out a statement. -/
def Builder.step (b : Builder) : Statement → Option Builder
  | .entry path value =>
    (Table.modifyAt false (Table.assign? path value) b.current b.root).map fun root =>
      { b with root }
  | .header path => (Table.openTable? path b.root).map fun root => ⟨root, path⟩
  | .item path => (Table.openItem? path b.root).map fun root => ⟨root, path⟩

/-- The table that statements build. -/
def tableOf? (statements : List Statement) : Option Node :=
  (statements.foldlM Builder.step {}).map fun b => .table (Tree.entryNodes b.root)

end SymbolicVM.Config.Toml

/-!
# Toml/Table — tables and how a document fills them

A document is a sequence of statements: headers that open a table, and pairs that put a value under
a key of the table that is open. `Table.ofStatements` builds the root table. A key is set once; a
table that was only passed on the way to another one may still be opened.
-/

namespace Derw.Toml

inductive Value
  | text (s : String)
  | int (n : Int)
  | real
  | bool (b : Bool)
  | time
  | array (items : List Value)
  | inline (entries : List (String × Value))

inductive Item
  | value (v : Value)
  /-- A table; `passed` if it was only passed on the way to another one. -/
  | table (passed : Bool) (entries : List (String × Item))
  /-- The tables of an array, in order. -/
  | tables (elements : List (List (String × Item)))

abbrev Table := List (String × Item)

inductive Statement
  /-- `[path]` -/
  | header (path : List String)
  /-- `[[path]]` -/
  | element (path : List String)
  /-- `path = value` -/
  | pair (path : List String) (value : Value)

namespace Table

/-- Puts an item in the place of the one under its key. -/
def replace (key : String) (item : Item) (t : Table) : Table :=
  t.map fun e => if e.1 == key then (key, item) else e

/-- Changes the table at the end of a path. Tables that are missing on the way are made; of an array
of tables the way goes through the last. -/
def descend (change : Table → Option Table) : List String → Table → Option Table
  | [], t => change t
  | key :: path, t =>
    match t.lookup key with
    | none => (descend change path []).map fun sub => t ++ [(key, .table true sub)]
    | some (.table passed sub) =>
      (descend change path sub).map fun sub => t.replace key (.table passed sub)
    | some (.tables elements) =>
      match elements.getLast? with
      | some last =>
        (descend change path last).map fun sub =>
          t.replace key (.tables (elements.dropLast ++ [sub]))
      | none => none
    | some (.value _) => none

/-- Sets a key that is not set yet. -/
def put (key : String) (item : Item) (t : Table) : Option Table :=
  if (t.lookup key).isSome then none else some (t ++ [(key, item)])

/-- Opens the table under a key. -/
def openTable (key : String) (t : Table) : Option Table :=
  match t.lookup key with
  | none => some (t ++ [(key, .table false [])])
  | some (.table true sub) => some (t.replace key (.table false sub))
  | some _ => none

/-- Opens one more table of the array under a key. -/
def openElement (key : String) (t : Table) : Option Table :=
  match t.lookup key with
  | none => some (t ++ [(key, .tables [[]])])
  | some (.tables elements) => some (t.replace key (.tables (elements ++ [[]])))
  | some _ => none

/-- The change at the last key of a path, inside the table that the rest of the path leads to. -/
def atPath (path : List String) (change : String → Table → Option Table) (t : Table) :
    Option Table :=
  match path.getLast? with
  | some key => descend (change key) path.dropLast t
  | none => none

/-- Runs the statements; `context` is the path of the open table. -/
def run (context : List String) : List Statement → Table → Option Table
  | [], t => some t
  | .header path :: ss, t => (t.atPath path openTable).bind (run path ss)
  | .element path :: ss, t => (t.atPath path openElement).bind (run path ss)
  | .pair path value :: ss, t =>
    (t.atPath (context ++ path) fun key => put key (.value value)).bind (run context ss)

def ofStatements (ss : List Statement) : Option Table := run [] ss []

end Table

end Derw.Toml

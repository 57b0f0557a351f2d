import Derw.Module.Basic

/-!
# Name/Seen — the names that declarations introduce, and collisions

Each declaration introduces names: of modules, by importing them, and of values. `collect` lists for
each name the declarations that introduce it, as often as they do; a name with more than one is a
`collision`. Modules and values do not collide with each other.
-/

namespace Derw.Name

/-- A name and the positions of the declarations that introduce it. -/
structure Seen where
  name : String
  indexes : List Nat
  deriving DecidableEq, Repr

/-- Notes that declaration `index` introduces `name`. -/
def addSeen (name : String) (index : Nat) : List Seen → List Seen
  | [] => [⟨name, [index]⟩]
  | s :: ss =>
    if s.name = name then ⟨s.name, s.indexes ++ [index]⟩ :: ss else s :: addSeen name index ss

/-- The names of one declaration and of those after it: the earlier one's lead, and its positions
come first. -/
def mergeSeen (earlier later : List Seen) : List Seen :=
  (earlier.map fun s =>
      ⟨s.name, s.indexes ++ ((later.find? (·.name = s.name)).map (·.indexes)).getD []⟩)
    ++ later.filter fun s => !earlier.any (·.name = s.name)

structure Names where
  modules : List Seen := []
  values : List Seen := []
  deriving DecidableEq, Repr

def addAll (names : List String) (index : Nat) (seen : List Seen) : List Seen :=
  names.foldl (fun seen n => addSeen n index seen) seen

/-- The names that declaration `index` introduces. -/
def namesOf (index : Nat) : Decl → Names
  | .imports modules =>
    { modules := addAll (modules.map (·.bindingName)) index []
      values := addAll (modules.flatMap (·.exposing)) index [] }
  | .function name .. | .const name .. => { values := [⟨name, [index]⟩] }
  | .union head _ | .typeAlias head _ => { values := [⟨head.name, [index]⟩] }
  | .exports _ | .comment _ | .multilineComment _ => {}

/-- The names that the declarations introduce, the first of which has position `index`. -/
def collectFrom (index : Nat) : List Decl → Names
  | [] => {}
  | d :: ds =>
    let first := namesOf index d
    let rest := collectFrom (index + 1) ds
    { modules := mergeSeen first.modules rest.modules
      values := mergeSeen first.values rest.values }

def collect (body : List Decl) : Names := collectFrom 0 body

/-- The names introduced more than once, modules first. -/
def collisions (body : List Decl) : List Seen :=
  let names := collect body
  (names.modules ++ names.values).filter (1 < ·.indexes.length)

/-- What is said about a collision. -/
def collisionMessage (s : Seen) : String :=
  "name '" ++ s.name ++ "' is defined multiple times (declarations "
    ++ Text.join ", " (s.indexes.map fun i => toString i) ++ ")"

end Derw.Name

import Derw.Glob.Compile
import Derw.Name.Distance
import Derw.Name.Usage
import Derw.Text.Quoted

/-!
# Name/Missing — names that are read and defined nowhere

A name is in scope of a declaration if the module has it at top level or the declaration defines it
inside itself. Each other name that a declaration reads is reported, once, together with the names
in scope that are spelled alike. Names that belong to the surroundings of the program are never
missing: those starting with `globalThis`, and those that one of the project's patterns matches.
-/

namespace Derw.Name

/-- The names that a declaration makes visible throughout its module. -/
def visibleNames : Decl → List String
  | .function name .. | .const name .. => [name]
  | .union _ tags => tags.map (·.name)
  | .typeAlias head _ => [head.name]
  | .imports modules => modules.flatMap fun m => m.bindingName :: m.exposing
  | .exports _ | .comment _ | .multilineComment _ => []

/-- The names visible throughout a module. -/
def topLevelNames (body : List Decl) : List String := Text.distinct (body.flatMap visibleNames)

/-- The name in whose scope a declaration reads names, if it has one. -/
def scopeName? : Decl → Option String
  | .function name .. | .const name .. => if name.isEmpty then none else some name
  | _ => none

/-- What counts as a missing name, and which names are spelled alike. -/
structure Checker where
  /-- The greatest distance of a suggestion. -/
  maxDistance : Int := 3
  /-- The patterns of names that exist outside the module. -/
  globals : List (String → Bool) := []

namespace Checker

/-- How the names that a host provides start. -/
def hostScope : String := "globalThis"

/-- The checker for the given patterns; fails with the first that is no pattern. -/
def ofPatterns (maxDistance : Int) (patterns : List String) : Except String Checker := do
  let globals ← patterns.mapM fun p =>
    match Glob.compile? p with
    | some g => .ok g
    | none => .error p
  return { maxDistance, globals }

/-- What is said about a pattern that is none. -/
def badPatternMessage (pattern cause : String) : String :=
  "known global " ++ Text.quoted pattern ++ ": " ++ cause

def isGlobal (c : Checker) (name : String) : Bool :=
  hostScope.toList.isPrefixOf name.toList || c.globals.any (· name)

/-- The names in scope of a declaration. -/
def inScope (topLevel : List String) (d : Decl) : List String :=
  Text.distinct (topLevel ++ (d.usage false).defined)

/-- What is said about a missing name. -/
def message (c : Checker) (scope name : String) (known : List String) : String :=
  let lead := "failed to find '" ++ name ++ "' in scope of '" ++ scope ++ "'"
  match suggest c.maxDistance name known with
  | [] => lead
  | names => lead ++ ", perhaps you meant: " ++ Text.join ", " names

/-- The names a declaration misses, in the order in which it reads them. -/
def missingNames (c : Checker) (topLevel : List String) (d : Decl) : List String :=
  (Text.distinct (d.usage false).read).filter fun name =>
    !(inScope topLevel d).contains name && !c.isGlobal name

/-- The messages about one declaration. -/
def declMessages (c : Checker) (topLevel : List String) (d : Decl) : List String :=
  match scopeName? d with
  | none => []
  | some scope =>
    (c.missingNames topLevel d).map fun name => c.message scope name (inScope topLevel d)

/-- The messages about a module that it does not have yet. -/
def freshMessages (c : Checker) (m : Module) : List String :=
  let all := m.body.flatMap (c.declMessages (topLevelNames m.body))
  (Text.distinct all).filter fun text => !m.errors.contains text

/-- The module together with the messages about its missing names. -/
def check (c : Checker) (m : Module) : Module := m.withErrors (c.freshMessages m)

end Checker

end Derw.Name

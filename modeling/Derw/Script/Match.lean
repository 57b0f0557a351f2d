import Derw.Module.Pattern
import Derw.Text.Blank

/-!
# Script/Match — matching a value in statements

A branch of the generated program looks at its subject in small steps: it checks conditions, it
declares names for parts of the subject, and it searches a list for an element. A `Nest` is such a
match as nested statements. Everything after a guard stands inside it, so a nest has one innermost
place, where the body goes.
-/

namespace Derw.Script

/-! ## Names that only the generated program uses -/

/-- The subject of a case that stands inside `depth` others. -/
def subjectName (depth : Nat) : String := if depth = 0 then "_res" else "_res" ++ toString depth

/-- The element at a position that the pattern gives no name. -/
def placeholder (position : Nat) : String := "_" ++ toString position

/-- Where search number `id` found its element. -/
def foundName (id : Nat) : String := "_found" ++ toString id

/-- Where search number `id` is looking. -/
def loopName (id : Nat) : String := "_i" ++ toString id

/-! ## Steps of a match -/

/-- What is asked of one value. -/
inductive Test
  | tag (name : String)
  | text (body : String)
  | format (body : String)
  | empty
  deriving DecidableEq, Repr

/-- A position in the subject: `offset` from the start, or from the element that a search found. -/
structure Index where
  base : Option Nat := none
  offset : Nat := 0
  deriving DecidableEq, Repr

/-- A value that a match looks at. -/
inductive Place
  | subject
  | name (n : String)
  deriving DecidableEq, Repr

inductive Cond
  /-- The subject has at least so many elements. -/
  | lengthAtLeast (n : Nat)
  /-- The subject has an element at this position. -/
  | lengthOver (i : Index)
  /-- The subject ends at this position. -/
  | lengthIs (i : Index)
  | passes (place : Place) (test : Test)
  deriving DecidableEq, Repr

inductive Bind
  /-- The fields of a value, by a destructuring text. -/
  | fields (pattern : String) (source : Place)
  | element (name : String) (position : Index)
  /-- The elements from a position on, up to another one or to the end. -/
  | slice (name : String) (start : Index) (stop : Option Index)
  /-- The first elements by name, and the rest. -/
  | elements (names : List String) (rest : Option String)
  deriving DecidableEq, Repr

inductive Nest
  /-- The innermost place. -/
  | body
  | bind (b : Bind) (rest : Nest)
  /-- Goes on if all conditions hold, tried in order. -/
  | guard (conditions : List Cond) (rest : Nest)
  /-- Goes on at the first element from `start` on that passes. -/
  | search (id : Nat) (start : Index) (test : Test) (rest : Nest)
  /-- Goes on in a scope of its own. -/
  | scope (rest : Nest)
  deriving DecidableEq, Repr

namespace Nest

/-- A guard, unless there is nothing to check. -/
def guarded (conditions : List Cond) (rest : Nest) : Nest :=
  if conditions.isEmpty then rest else .guard conditions rest

/-- Declarations one after the other. -/
def binds (bs : List Bind) (rest : Nest) : Nest := bs.foldr .bind rest

end Nest

/-! ## Tests and fields of shapes -/

/-- What a shape asks of a value. -/
def testOf : Shape → Test
  | .tag name _ => .tag name
  | .text body => .text body
  | .format body => .format body
  | .empty => .empty

/-- The destructuring text, if it binds anything. -/
def fieldsText? (fields : String) : Option String :=
  let cs := Text.trimmed fields.toList
  if cs.isEmpty || cs.filter (· != ' ') == ['\x7b', '\x7d'] then none else some (String.ofList cs)

/-- The declaration of a shape's fields, taken from `source`. -/
def fieldBinds (source : Place) : Shape → List Bind
  | .tag _ fields => ((fieldsText? fields).map fun p => .fields p source).toList
  | _ => []

/-! ## Text -/

def Index.print (i : Index) : String :=
  match i.base with
  | none => toString i.offset
  | some id => if i.offset = 0 then foundName id else foundName id ++ " + " ++ toString i.offset

def Test.print (target : String) : Test → String
  | .tag name => target ++ ".kind === \"" ++ name ++ "\""
  | .text body => target ++ " === \"" ++ body ++ "\""
  | .format body => target ++ " === \x60" ++ body ++ "\x60"
  | .empty => target ++ ".length === 0"

def Place.print (subject : String) : Place → String
  | .subject => subject
  | .name n => n

def Cond.print (subject : String) : Cond → String
  | .lengthAtLeast n => subject ++ ".length >= " ++ toString n
  | .lengthOver i => subject ++ ".length > " ++ i.print
  | .lengthIs i => subject ++ ".length === " ++ i.print
  | .passes place test => test.print (place.print subject)

def Bind.print (subject : String) : Bind → String
  | .fields pattern source => "const " ++ pattern ++ " = " ++ source.print subject ++ ";"
  | .element name position => "const " ++ name ++ " = " ++ subject ++ "[" ++ position.print ++ "];"
  | .slice name start stop =>
    let bounds := match stop with
      | some i => start.print ++ ", " ++ i.print
      | none => start.print
    "const " ++ name ++ " = " ++ subject ++ ".slice(" ++ bounds ++ ");"
  | .elements names rest =>
    let all := names ++ (rest.map fun r => "..." ++ r).toList
    "const [ " ++ Text.join ", " all ++ " ] = " ++ subject ++ ";"

end Derw.Script

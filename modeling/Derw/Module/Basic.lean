import Derw.Module.Import
import Derw.Module.Pattern
import Derw.Module.Type

/-!
# Module/Basic — parsed modules

A module is a list of declarations, and the messages collected about it. Expressions and
declarations contain each other: a body may open with `let` declarations. Anywhere an expression can
stand it can also be missing, so `absent` is an expression.
-/

namespace Derw

/-- A parameter of a function; one without a name is addressed by its position. -/
structure Param where
  name : Option String
  type : Ty

mutual

inductive Expr
  /-- No expression. -/
  | absent
  /-- A name, a number or `true` and `false`, or a field access such as `person.name`. -/
  | value (body : String)
  | text (body : String)
  /-- A text with interpolations between `${` and `}`. -/
  | format (body : String)
  | list (items : List Expr)
  | range (start stop : Expr)
  /-- A record, on top of `base` if that is not absent. -/
  | object (base : Expr) (fields : List Field)
  /-- A tag without fields. -/
  | construct (name : String)
  | constructWith (name : String) (base : Expr) (fields : List Field)
  | ifElse (condition : Expr) (yesLets : List Decl) (yes : Expr) (noLets : List Decl) (no : Expr)
  | caseOf (subject : Expr) (branches : List Branch)
  | binary (operator : String) (left right : Expr)
  | unary (operator : String) (operand : Expr)
  /-- `left |> right` -/
  | leftPipe (left right : Expr)
  /-- `left <| right` -/
  | rightPipe (left right : Expr)
  /-- A value of an imported module. -/
  | qualified (path : List String) (value : Expr)
  | call (name : String) (args : List Expr)
  | lambda (params : List String) (body : Expr)
  /-- A lambda that is called where it stands. -/
  | lambdaCall (params : List String) (body : Expr) (args : List Expr)

/-- A field of a record. -/
inductive Field
  | mk (name : String) (value : Expr)

inductive Branch
  | mk (pattern : Pattern) (lets : List Decl) (body : Expr)

inductive Decl
  | imports (modules : List Import)
  | exports (names : List String)
  | union (head : TypeHead) (tags : List Tag)
  | typeAlias (head : TypeHead) (properties : List TypedName)
  | function (name : String) (params : List Param) (result : Ty) (lets : List Decl) (body : Expr)
  | const (name : String) (type : Ty) (lets : List Decl) (value : Expr)
  | comment (body : String)
  | multilineComment (body : String)

end

namespace Branch

def pattern : Branch → Pattern
  | mk p _ _ => p

end Branch

structure Module where
  name : String
  body : List Decl
  errors : List String

/-- The module with further messages. -/
def Module.withErrors (m : Module) (messages : List String) : Module :=
  { m with errors := m.errors ++ messages }

/-- The modules that a list of declarations imports. -/
def importsOf (body : List Decl) : List Import :=
  body.flatMap fun
    | .imports modules => modules
    | _ => []

end Derw

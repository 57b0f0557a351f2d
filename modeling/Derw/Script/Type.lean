import Derw.Module.Import
import Derw.Module.Type

/-!
# Script/Type — type annotations of the generated program

The types of a module are written as annotations: the built-in types under their own names, a list
as an array, a function type as an arrow whose last argument is the result. A type that is named
like an imported module is that module's type of the same name. `genericNames` lists the type
parameters that a declaration has to introduce for its annotations.
-/

namespace Derw

/-- Names that stand for concrete types, though they are written like type parameters. -/
def builtinTypeNames : List String :=
  ["any", "void", "never", "unknown", "string", "number", "boolean", "object"]

mutual

/-- The type parameters in a type, in the order of the text. -/
def Ty.generics : Ty → List String
  | .absent => []
  | .generic name => [name]
  | .fixed _ args => genericsOfAll args
  | .function args => genericsOfAll args

def genericsOfAll : List Ty → List String
  | [] => []
  | t :: ts => t.generics ++ genericsOfAll ts

end

/-- The type parameters of several types, each where it first appears. -/
def genericNames (types : List Ty) : List String :=
  (Text.distinct (genericsOfAll types)).filter fun name => !builtinTypeNames.contains name

def Ty.isFunction : Ty → Bool
  | .function _ => true
  | _ => false

/-- A named type, as seen through the imports. -/
def qualifiedType (imports : List Import) (name : String) : String :=
  if imports.any fun m => m.bindsModule && m.bindingName == name then name ++ "." ++ name else name

/-- A function type with the given argument and result types. -/
def arrowType (types : List String) : String :=
  match types.getLast? with
  | none => "() => void"
  | some result =>
    let params := types.dropLast.mapIdx fun i t => "arg" ++ toString i ++ ": " ++ t
    "(" ++ Text.join ", " params ++ ") => " ++ result

/-- The parameter list `<a, b>`, empty if there are none. -/
def typeParams (names : List String) : String :=
  if names.isEmpty then "" else "<" ++ Text.join ", " names ++ ">"

mutual

/-- The text of a type. -/
def Ty.render (imports : List Import) : Ty → String
  | .absent => "any"
  | .generic name => name
  | .fixed "String" _ => "string"
  | .fixed "Number" _ => "number"
  | .fixed "Bool" _ => "boolean"
  | .fixed "List" [item] =>
    let inner := item.render imports
    (if item.isFunction then "(" ++ inner ++ ")" else inner) ++ "[]"
  | .fixed "List" _ => "any[]"
  | .fixed name args => qualifiedType imports name ++ typeParams (renderTypes imports args)
  | .function args => arrowType (renderTypes imports args)

def renderTypes (imports : List Import) : List Ty → List String
  | [] => []
  | t :: ts => t.render imports :: renderTypes imports ts

end

end Derw

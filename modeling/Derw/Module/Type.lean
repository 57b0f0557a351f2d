/-!
# Module/Type — type annotations

A Derw type is a parameter, a named type with arguments, or a function type; any annotation may be
left out. In a function type the last argument is the result.
-/

namespace Derw

inductive Ty
  /-- No annotation. -/
  | absent
  /-- A type parameter, such as the `a` of `List a`. -/
  | generic (name : String)
  | fixed (name : String) (args : List Ty)
  | function (args : List Ty)

/-- What a type declaration declares: a name with its parameters. -/
structure TypeHead where
  name : String
  args : List Ty

def TypeHead.toTy (h : TypeHead) : Ty := .fixed h.name h.args

/-- A field of an alias or of a tag. -/
structure TypedName where
  name : String
  type : Ty

/-- One alternative of a union type. -/
structure Tag where
  name : String
  fields : List TypedName

end Derw

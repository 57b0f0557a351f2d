/-!
# Module/Pattern — the left sides of case branches

A pattern tests the subject as a whole, or takes a list apart. What can be tested for, the `Shape`s,
is the same for a subject and for an element of a list.
-/

namespace Derw

/-- A test on a value. -/
inductive Shape
  /-- A union tag; `fields` is the destructuring text, such as `{ value }`. -/
  | tag (name fields : String)
  | text (body : String)
  | format (body : String)
  /-- The empty list. At the end of a list pattern it pins the length. -/
  | empty
  deriving DecidableEq, Repr

/-- One part of a list pattern `a :: B { b } :: rest`. -/
inductive Part
  | binder (name : String)
  | shape (s : Shape)
  deriving DecidableEq, Repr

inductive Pattern
  | shape (s : Shape)
  | list (parts : List Part)
  | anything
  deriving DecidableEq, Repr

end Derw

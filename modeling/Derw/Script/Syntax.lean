import Derw.Module.Type
import Derw.Script.Match

/-!
# Script/Syntax — the generated program as a tree

The program that a module becomes, before it is written out: terms and statements of the target,
with the types of the module where annotations may stand. Whether they are written is left to the
writer. Nothing here knows about brackets; the one `group` is where the target wants one although no
precedence asks for it.
-/

namespace Derw.Script

/-- A parameter with its type. -/
structure Parameter where
  name : String
  type : Ty

mutual

/-- An expression of the target. -/
inductive Term
  | undefined
  /-- A name, a literal or a field access, as the module spells it. -/
  | raw (text : String)
  | text (body : String)
  | template (body : String)
  | list (items : List Term)
  /-- All numbers from `start` to `stop`. -/
  | range (start stop : Term)
  | object (entries : List Entry)
  | ternary (condition yes no : Term)
  /-- The value that statements return. -/
  | invoked (body : List Stmt)
  | binary (operator : String) (left right : Term)
  | unary (operator : String) (operand : Term)
  /-- Two lists, one after the other. -/
  | concat (left right : Term)
  /-- A list with one more element in front. -/
  | cons (head tail : Term)
  | qualified (path : List String) (value : Term)
  | call (name : String) (args : List Term)
  | arrow (params : List String) (body : Term)
  | arrowCall (params : List String) (body : Term) (args : List Term)
  | group (inner : Term)

/-- An entry of an object. -/
inductive Entry
  /-- All entries of another object. -/
  | spread (value : Term)
  | field (name : String) (value : Term)

/-- A statement of the target. -/
inductive Stmt
  | return (value : Term)
  | const (name : String) (type : Ty) (value : Term)
  /-- A declaration without a type. -/
  | hold (name : String) (value : Term)
  | function (name : String) (params : List Parameter) (result : Ty) (body : List Stmt)
  | ifElse (condition : Term) (yes no : List Stmt)
  /-- Chooses by the tag of `subject`. -/
  | switch (subject : String) (arms : List Arm)
  /-- Runs the body if `subject` matches. -/
  | branch (subject : String) (nest : Nest) (body : List Stmt)

/-- The statements for one tag, or for all others. -/
inductive Arm
  | mk (tag : Option String) (binds : List Bind) (body : List Stmt)

end

end Derw.Script

import Derw.Script.Lower
import Derw.Script.Print
import Derw.Text.Blank

/-!
# Script/Program — the generated program of a module

A declaration becomes a few items: a union type, for instance, a type and a constructor for each tag
and the union of the tag types. Items are separated by blank lines, and a declaration without items
leaves no trace. An untyped program has no type items.
-/

namespace Derw.Script

/-- What a module can be compiled to. -/
inductive Target
  | typeScript
  | javaScript
  deriving DecidableEq, Repr

/-- The target of that name; all but `js` mean the typed one. -/
def Target.ofName (name : String) : Target := if name == "js" then .javaScript else .typeScript

/-- Whether types are printed. -/
def Target.isTyped : Target → Bool
  | typeScript => true
  | javaScript => false

/-- A named type with its parameters. -/
structure TypeName where
  name : String
  generics : List String

def TypeName.text (t : TypeName) : String := t.name ++ typeParams t.generics

/-- One import line. -/
inductive ImportLine
  /-- The module as a whole. -/
  | module (name source : String)
  | names (names : List String) (source : String)

/-- What stands at the top level of a program. -/
inductive Item
  | imports (lines : List ImportLine)
  | exports (names : List String)
  /-- The type of an object; one with a tag tells it in its field `kind`. -/
  | objectType (head : TypeName) (tagged : Bool) (fields : List TypedName)
  | unionType (head : TypeName) (members : List TypeName)
  /-- The function that makes an object from its fields. -/
  | constructor (head : TypeName) (tagged : Bool) (fields : List TypedName)
  | statement (s : Stmt)
  | comment (body : String)
  | multilineComment (lines : List String)

/-- Types are left out of a target without them. -/
def Item.isType : Item → Bool
  | .objectType .. | .unionType .. => true
  | _ => false

/-! ## Items of declarations -/

/-- The import of the module, if it is bound, and that of the names it exposes. -/
def importLines (m : Import) : List ImportLine :=
  (if m.bindsModule then [.module m.bindingName m.source] else [])
    ++ if m.exposing.isEmpty then [] else [.names m.exposing m.source]

/-- The type of a tag, whose parameters are those of its fields. -/
def tagType (t : Tag) : TypeName := ⟨t.name, genericNames (t.fields.map (·.type))⟩

/-- The type that a declaration makes, with the parameters of its head. -/
def headType (h : TypeHead) : TypeName := ⟨h.name, genericNames [h.toTy]⟩

/-- The text of a comment without its dashes. -/
def commentBody (body : String) : String :=
  String.ofList (Text.trimmed (Text.withoutHead "--".toList (Text.trimmed body.toList)))

/-- The lines of a comment without its brackets. -/
def commentLines (body : String) : List String :=
  let inner := Text.withoutTail "-\x7d".toList
    (Text.withoutHead "\x7b-".toList (Text.trimmed body.toList))
  (Text.splitWhere (· == '\n') (Text.trimmed inner)).map String.ofList

/-- A declaration as items. Unions and aliases make several, and some declarations none. -/
def itemsOf : Derw.Decl → List Item
  | .imports modules =>
    let lines := modules.flatMap importLines
    if lines.isEmpty then [] else [.imports lines]
  | .exports names => if names.isEmpty then [] else [.exports names]
  | .union head tags =>
    (tags.flatMap fun t =>
      [.objectType (tagType t) true t.fields, .constructor (tagType t) true t.fields])
      ++ [.unionType (headType head) (tags.map tagType)]
  | .typeAlias head properties =>
    [.objectType (headType head) false properties, .constructor (headType head) false properties]
  | .comment body => [.comment (commentBody body)]
  | .multilineComment body => [.multilineComment (commentLines body)]
  | d => (lowerDecl 0 d).map .statement

/-! ## Text -/

def ImportLine.print : ImportLine → String
  | .module name source => "import * as " ++ name ++ " from \"" ++ source ++ "\";"
  | .names exposed source =>
    "import \x7b " ++ Text.join ", " exposed ++ " \x7d from \"" ++ source ++ "\";"

/-- The field that tells the tag, followed by `mark`. -/
def kindField (depth : Nat) (head : TypeName) (tagged : Bool) (mark : String) : String :=
  if tagged then line depth ("kind: \"" ++ head.name ++ "\"" ++ mark) else ""

/-- Fields with their types, as in the type of an object. -/
def Style.fieldTexts (s : Style) (fields : List TypedName) : List String :=
  fields.map fun f => f.name ++ ": " ++ f.type.render s.imports

/-- The head of the function that makes an object. -/
def Style.constructorHead (s : Style) (head : TypeName) (fields : List TypedName) : String :=
  if s.typed then
    "function " ++ head.text ++ "(args: " ++ objectText (s.fieldTexts fields) ++ "): " ++ head.text
  else "function " ++ head.name ++ "(args)"

/-- The text of an item. -/
def Item.print (s : Style) : Item → String
  | .imports lines => String.join (lines.map fun l => line 0 l.print)
  | .exports names => line 0 ("export \x7b " ++ Text.join ", " names ++ " \x7d;")
  | .objectType head tagged fields =>
    braces 0 ("type " ++ head.text ++ " =")
      (kindField 1 head tagged ";" ++
        String.join ((s.fieldTexts fields).map fun f => line 1 (f ++ ";"))) ";"
  | .unionType head members =>
    let union := Text.join " | " (members.map (·.text))
    line 0 ("type " ++ head.text ++ " = " ++ (if union.isEmpty then "never" else union) ++ ";")
  | .constructor head tagged fields =>
    braces 0 (s.constructorHead head fields)
      (braces 1 "return" (kindField 2 head tagged "," ++ line 2 "...args,") ";") ""
  | .statement t => t.print s 0
  | .comment body => line 0 ("// " ++ body)
  | .multilineComment lines =>
    line 0 "/*" ++ String.join (lines.map fun l => if Text.isBlankLine l then "\n" else line 0 l)
      ++ line 0 "*/"

/-- The text of one declaration. -/
def declText (s : Style) (d : Derw.Decl) : String :=
  let items := (itemsOf d).filter fun i => s.typed || !i.isType
  Text.join "\n" (items.map (·.print s))

theorem declText_function (s : Style) (name : String) (params : List Param) (result : Ty)
    (lets : List Derw.Decl) (body : Derw.Expr) :
    declText s (.function name params result lets body)
      = printStmts s 0 (lowerDecl 0 (.function name params result lets body)) := by
  simp [declText, itemsOf, lowerDecl, Item.isType, Item.print, Text.join, printStmts]

theorem declText_const (s : Style) (name : String) (type : Ty) (lets : List Derw.Decl)
    (value : Derw.Expr) :
    declText s (.const name type lets value)
      = printStmts s 0 (lowerDecl 0 (.const name type lets value)) := by
  simp [declText, itemsOf, lowerDecl, Item.isType, Item.print, Text.join, printStmts]

/-- The program of a list of declarations. -/
def programText (s : Style) (body : List Derw.Decl) : String :=
  Text.join "\n" ((body.map (declText s)).filter (!·.isEmpty))

def styleFor (target : Target) (body : List Derw.Decl) : Style :=
  { typed := target.isTyped, imports := importsOf body }

end Derw.Script

namespace Derw

/-- The module as a program. -/
def Module.compile (m : Module) (target : Script.Target) : String :=
  Script.programText (Script.styleFor target m.body) m.body

/-- A single expression as a program term. -/
def Expr.compile (e : Expr) (target : Script.Target) : String :=
  (Script.termOf e).toText (Script.styleFor target [])

end Derw

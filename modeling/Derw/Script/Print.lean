import Derw.Module.Import
import Derw.Script.Syntax
import Derw.Script.Type

/-!
# Script/Print — writing the generated program

A term is written for the place where it stands: `parent` is how tightly the operator around it
binds and `right` tells whether it is that operator's right operand. Brackets are written only where
the text would otherwise be read differently. Statements are written one a line, four blanks a
level.
-/

namespace Derw.Script

/-- How the program is written. -/
structure Style where
  /-- Whether types are written. -/
  typed : Bool
  /-- The imports through which type names are seen. -/
  imports : List Import

/-! ## Binding strength -/

/-- Around a term with nothing at its side. -/
def lowest : Nat := 0

/-- The arms of a conditional. -/
def armStrength : Nat := 1

/-- Operators with one operand. -/
def unaryStrength : Nat := 90

/-- Calls, and all that needs no brackets. -/
def tightest : Nat := 100

/-- How tightly a binary operator binds. All are left-associative. -/
def strength : String → Nat
  | "||" => 1
  | "&&" => 2
  | "===" | "!==" => 3
  | "<" | ">" | "<=" | ">=" => 4
  | "+" | "-" => 7
  | "*" | "/" | "%" => 8
  | _ => tightest

/-- Whether an operator that binds with strength `own` needs brackets. -/
def needsBrackets (own parent : Nat) (right : Bool) : Bool :=
  own < parent || (own == parent && right)

/-- A text in brackets, if it needs them. -/
def bracketed (b : Bool) (text : String) : String := if b then "(" ++ text ++ ")" else text

/-! ## Layout -/

/-- Four blanks a level. -/
def indentation (depth : Nat) : String := String.join (List.replicate depth "    ")

/-- A line of its own. -/
def line (depth : Nat) (text : String) : String := indentation depth ++ text ++ "\n"

/-- Statements in braces after `head`; `tail` follows the closing brace. -/
def braces (depth : Nat) (head inner tail : String) : String :=
  line depth (if head.isEmpty then "\x7b" else head ++ " \x7b") ++ inner ++
    line depth ("\x7d" ++ tail)

/-- A name with its type, if types are written. -/
def Style.annotated (s : Style) (name : String) (type : Ty) : String :=
  if s.typed then name ++ ": " ++ type.render s.imports else name

/-- The entries of an object, of which the text is known. -/
def objectText (entries : List String) : String :=
  if entries.isEmpty then "\x7b\x7d" else "\x7b " ++ Text.join ", " entries ++ " \x7d"

/-- The items of a list, of which the text is known. -/
def listText (items : List String) : String :=
  if items.isEmpty then "[ ]" else "[ " ++ Text.join ", " items ++ " ]"

/-- The parameters of an arrow and its arrow. -/
def Style.arrowHead (s : Style) (params : List String) : String :=
  "(" ++ Text.join ", " (params.map fun p => s.annotated p .absent) ++ ") => "

/-- The head of a function, up to its body. -/
def Style.functionHead (s : Style) (name : String) (params : List Parameter) (result : Ty) :
    String :=
  let generics := genericNames (params.map (·.type) ++ [result])
  "function " ++ name ++ (if s.typed then typeParams generics else "")
    ++ "(" ++ Text.join ", " (params.map fun p => s.annotated p.name p.type) ++ ")"
    ++ (if s.typed then ": " ++ result.render s.imports else "")

/-- A match around the body that `body` writes at a given depth. -/
def Nest.print (subject : String) (body : Nat → String) (depth : Nat) : Nest → String
  | .body => body depth
  | .bind b rest => line depth (b.print subject) ++ rest.print subject body depth
  | .guard conditions rest =>
    braces depth ("if (" ++ Text.join " && " (conditions.map (·.print subject)) ++ ")")
      (rest.print subject body (depth + 1)) ""
  | .search id start test rest =>
    let found := foundName id
    let cursor := loopName id
    line depth ("let " ++ found ++ " = -1;")
      ++ braces depth
        ("for (let " ++ cursor ++ " = " ++ start.print ++ "; " ++ cursor ++ " < " ++ subject
          ++ ".length; " ++ cursor ++ "++)")
        (braces (depth + 1) ("if (" ++ test.print (subject ++ "[" ++ cursor ++ "]") ++ ")")
          (line (depth + 2) (found ++ " = " ++ cursor ++ ";") ++ line (depth + 2) "break;") "") ""
      ++ braces depth ("if (" ++ found ++ " !== -1)") (rest.print subject body (depth + 1)) ""
  | .scope rest => braces depth "" (rest.print subject body (depth + 1)) ""

mutual

/-- Writes a term; `depth` is the level of the statement it is part of. -/
def Term.print (s : Style) (depth parent : Nat) (right : Bool) : Term → String
  | .undefined => "undefined"
  | .raw text => text
  | .text body => "\"" ++ body ++ "\""
  | .template body => "\x60" ++ body ++ "\x60"
  | .list items => listText (printTerms s depth items)
  | .range start stop =>
    let low := start.print s depth (strength "-") true
    "Array.from(\x7b length: " ++ stop.print s depth (strength "-") false ++ " - " ++ low
      ++ " + 1 \x7d, (_v, _i) => _i + " ++ low ++ ")"
  | .object entries => objectText (printEntries s depth entries)
  | .ternary condition yes no =>
    bracketed (lowest < parent) (condition.print s depth armStrength false ++ " ? "
      ++ yes.print s depth armStrength false ++ " : " ++ no.print s depth armStrength false)
  | .invoked body =>
    (if s.typed then "(function (): any \x7b\n" else "(function () \x7b\n")
      ++ printStmts s (depth + 1) body ++ indentation depth ++ "\x7d)()"
  | .binary operator l r =>
    let own := strength operator
    bracketed (needsBrackets own parent right)
      (l.print s depth own false ++ " " ++ operator ++ " " ++ r.print s depth own true)
  | .unary operator operand =>
    bracketed (unaryStrength < parent) (operator ++ operand.print s depth unaryStrength true)
  | .concat l r =>
    l.print s depth tightest false ++ ".concat(" ++ r.print s depth lowest false ++ ")"
  | .cons head tail =>
    "[ " ++ head.print s depth lowest false ++ ", ..." ++ tail.print s depth tightest false ++ " ]"
  | .qualified path value => Text.join "." path ++ "." ++ value.print s depth tightest false
  | .call name args => name ++ "(" ++ Text.join ", " (printTerms s depth args) ++ ")"
  | .arrow params body =>
    bracketed (lowest < parent) (s.arrowHead params ++ body.print s depth lowest false)
  | .arrowCall params body args =>
    "(" ++ s.arrowHead params ++ body.print s depth lowest false ++ ")("
      ++ Text.join ", " (printTerms s depth args) ++ ")"
  | .group inner => "(" ++ inner.print s depth lowest false ++ ")"

/-- Writes terms that stand between commas. -/
def printTerms (s : Style) (depth : Nat) : List Term → List String
  | [] => []
  | t :: ts => t.print s depth lowest false :: printTerms s depth ts

/-- Writes the entries of an object. -/
def printEntries (s : Style) (depth : Nat) : List Entry → List String
  | [] => []
  | .spread value :: es => ("..." ++ value.print s depth tightest false) :: printEntries s depth es
  | .field name value :: es =>
    (name ++ ": " ++ value.print s depth lowest false) :: printEntries s depth es

/-- Writes a statement on lines of its own. -/
def Stmt.print (s : Style) (depth : Nat) : Stmt → String
  | .return value => line depth ("return " ++ value.print s depth lowest false ++ ";")
  | .const name type value =>
    line depth
      ("const " ++ s.annotated name type ++ " = " ++ value.print s depth lowest false ++ ";")
  | .hold name value =>
    line depth ("const " ++ name ++ " = " ++ value.print s depth lowest false ++ ";")
  | .function name params result body =>
    braces depth (s.functionHead name params result) (printStmts s (depth + 1) body) ""
  | .ifElse condition yes no =>
    line depth ("if (" ++ condition.print s depth lowest false ++ ") \x7b")
      ++ printStmts s (depth + 1) yes ++ line depth "\x7d else \x7b"
      ++ printStmts s (depth + 1) no ++ line depth "\x7d"
  | .switch subject arms =>
    braces depth ("switch (" ++ subject ++ ".kind)") (printArms s subject (depth + 1) arms) ""
  | .branch subject nest body => nest.print subject (fun d => printStmts s d body) depth

/-- Writes the arms of a `switch`, each in braces. -/
def printArms (s : Style) (subject : String) (depth : Nat) : List Arm → String
  | [] => ""
  | .mk tag binds body :: as =>
    let head := match tag with
      | some t => "case \"" ++ t ++ "\":"
      | none => "default:"
    braces depth head
      (String.join (binds.map fun b => line (depth + 1) (b.print subject)) ++
        printStmts s (depth + 1) body) ""
      ++ printArms s subject depth as

/-- Writes statements one after the other. -/
def printStmts (s : Style) (depth : Nat) : List Stmt → String
  | [] => ""
  | t :: ts => t.print s depth ++ printStmts s depth ts

end

/-! How each form of term is written. The definition is opened here only: it has too many forms to
be unfolded in the middle of a proof. -/

section

variable (s : Style) (d parent : Nat) (right : Bool)

theorem print_undefined : Term.undefined.print s d parent right = "undefined" := rfl

theorem print_raw (text : String) : (Term.raw text).print s d parent right = text := rfl

theorem print_text (body : String) :
    (Term.text body).print s d parent right = "\"" ++ body ++ "\"" := rfl

theorem print_template (body : String) :
    (Term.template body).print s d parent right = "\x60" ++ body ++ "\x60" := rfl

theorem print_list (items : List Term) :
    (Term.list items).print s d parent right = listText (printTerms s d items) := rfl

/-- The start is written twice: for the length, and for the first number. -/
theorem print_range (start stop : Term) :
    (Term.range start stop).print s d parent right
      = "Array.from(\x7b length: " ++ stop.print s d (strength "-") false ++ " - "
        ++ start.print s d (strength "-") true ++ " + 1 \x7d, (_v, _i) => _i + "
        ++ start.print s d (strength "-") true ++ ")" := rfl

theorem print_object (entries : List Entry) :
    (Term.object entries).print s d parent right = objectText (printEntries s d entries) := rfl

/-- A conditional is bracketed wherever an operator stands around it. -/
theorem print_ternary (c y n : Term) :
    (Term.ternary c y n).print s d parent right
      = bracketed (lowest < parent) (c.print s d armStrength false ++ " ? "
        ++ y.print s d armStrength false ++ " : " ++ n.print s d armStrength false) := rfl

/-- A function that is called at once, with its statements one level further in. -/
theorem print_invoked (body : List Stmt) :
    (Term.invoked body).print s d parent right
      = (if s.typed then "(function (): any \x7b\n" else "(function () \x7b\n")
        ++ printStmts s (d + 1) body ++ indentation d ++ "\x7d)()" := rfl

/-- The right operand is bracketed also where it binds as tightly as the operator. -/
theorem print_binary (op : String) (l r : Term) :
    (Term.binary op l r).print s d parent right
      = bracketed (needsBrackets (strength op) parent right)
        (l.print s d (strength op) false ++ " " ++ op ++ " "
          ++ r.print s d (strength op) true) := rfl

theorem print_unary (op : String) (t : Term) :
    (Term.unary op t).print s d parent right
      = bracketed (unaryStrength < parent) (op ++ t.print s d unaryStrength true) := rfl

/-- The left operand is what `.concat` is called on, so it is written as tightly as can be. -/
theorem print_concat (l r : Term) :
    (Term.concat l r).print s d parent right
      = l.print s d tightest false ++ ".concat(" ++ r.print s d lowest false ++ ")" := rfl

theorem print_cons (l r : Term) :
    (Term.cons l r).print s d parent right
      = "[ " ++ l.print s d lowest false ++ ", ..." ++ r.print s d tightest false ++ " ]" := rfl

theorem print_qualified (path : List String) (t : Term) :
    (Term.qualified path t).print s d parent right
      = Text.join "." path ++ "." ++ t.print s d tightest false := rfl

theorem print_call (f : String) (args : List Term) :
    (Term.call f args).print s d parent right
      = f ++ "(" ++ Text.join ", " (printTerms s d args) ++ ")" := rfl

theorem print_arrow (params : List String) (t : Term) :
    (Term.arrow params t).print s d parent right
      = bracketed (lowest < parent) (s.arrowHead params ++ t.print s d lowest false) := rfl

theorem print_arrowCall (params : List String) (t : Term) (args : List Term) :
    (Term.arrowCall params t args).print s d parent right
      = "(" ++ s.arrowHead params ++ t.print s d lowest false ++ ")("
        ++ Text.join ", " (printTerms s d args) ++ ")" := rfl

theorem print_group (t : Term) :
    (Term.group t).print s d parent right = "(" ++ t.print s d lowest false ++ ")" := rfl

end

/-- Writing works term by term. -/
theorem printTerms_append (s : Style) (depth : Nat) (ts us : List Term) :
    printTerms s depth (ts ++ us) = printTerms s depth ts ++ printTerms s depth us := by
  induction ts with
  | nil => rfl
  | cons t ts ih => rw [List.cons_append, printTerms, printTerms, ih, List.cons_append]

/-- So does writing statements. -/
theorem printStmts_append (s : Style) (depth : Nat) (ts us : List Stmt) :
    printStmts s depth (ts ++ us) = printStmts s depth ts ++ printStmts s depth us := by
  induction ts with
  | nil => exact String.empty_append.symm
  | cons t ts ih => rw [List.cons_append, printStmts, printStmts, ih, String.append_assoc]

/-- A term on its own. -/
def Term.toText (s : Style) (t : Term) : String := t.print s 0 lowest false

end Derw.Script

import Derw.Script.Program

/-!
# Proofs/Program/Emission — writing a program with one pen

A program can be written in one go, without a tree in between: a pen goes through the declarations
and puts text behind text. It keeps two numbers, how far the line it is on is indented and how many
cases it is inside of, and both go up and down while it writes. Whoever opens a block or a case has
to close it again, or everything after it comes out wrong.

This is the other way to the text of `Module.compile`, which lowers a declaration and then prints
it, with both numbers handed down as arguments. Nothing here looks at a lowered term.
-/

namespace Derw.Script

/-- What is written so far, and where the pen is. -/
structure Pen where
  text : String := ""
  /-- The indentation of the current line. -/
  indent : Nat := 0
  /-- The number of open cases. -/
  depth : Nat := 0
  deriving DecidableEq, Repr

/-- Something that writes. -/
abbrev Emit := StateM Pen Unit

namespace Emit

def write (text : String) : Emit := modify fun p => { p with text := p.text ++ text }

/-- One step further in. -/
def indent : Emit := modify fun p => { p with indent := p.indent + 1 }

/-- One step back. -/
def dedent : Emit := modify fun p => { p with indent := p.indent - 1 }

/-- A case inside the open ones. -/
def openCase : Emit := modify fun p => { p with depth := p.depth + 1 }

/-- The innermost case ends. -/
def closeCase : Emit := modify fun p => { p with depth := p.depth - 1 }

/-- The blanks at the start of a line. -/
def margin : Emit := do write (indentation (← get).indent)

/-- A line of its own, indented as the pen says. -/
def writeLine (text : String) : Emit := do
  margin
  write (text ++ "\n")

def optional (b : Bool) (a : Emit) : Emit := if b then a else pure ()

def writeLines : List String → Emit
  | [] => pure ()
  | l :: ls => do
    writeLine l
    writeLines ls

/-- Statements in braces after `head`; `tail` follows the closing brace. -/
def block (head : String) (inner : Emit) (tail : String) : Emit := do
  writeLine (if head.isEmpty then "\x7b" else head ++ " \x7b")
  indent
  inner
  dedent
  writeLine ("\x7d" ++ tail)

/-- A line that is not all known in advance. -/
def statement (head : String) (value : Emit) (tail : String) : Emit := do
  margin
  write head
  value
  write (tail ++ "\n")

/-- The line between the two arms closes one block and opens the next. -/
def conditional (condition yes no : Emit) : Emit := do
  statement "if (" condition ") \x7b"
  indent
  yes
  dedent
  block "\x7d else" no ""

/-- Brackets around it, if they are needed. -/
def bracketed (b : Bool) (inner : Emit) : Emit :=
  if b then do
    write "("
    inner
    write ")"
  else inner

/-- One after the other, with commas. -/
def separated : List Emit → Emit
  | [] => pure ()
  | [a] => a
  | a :: as => do
    a
    write ", "
    separated as

def list (items : List Emit) : Emit :=
  if items.isEmpty then write "[ ]" else do
    write "[ "
    separated items
    write " ]"

def object (entries : List Emit) : Emit :=
  if entries.isEmpty then write "\x7b\x7d" else do
    write "\x7b "
    separated entries
    write " \x7d"

def call (callee : Emit) (args : List Emit) : Emit := do
  callee
  write "("
  separated args
  write ")"

/-- Statements as a function that is called where it stands. The line goes on after it. -/
def invoked (s : Style) (body : Emit) : Emit := do
  write (if s.typed then "(function (): any \x7b\n" else "(function () \x7b\n")
  indent
  body
  dedent
  margin
  write "\x7d)()"

/-- An arrow, with its parameters typed where types are printed. -/
def arrow (s : Style) (params : List String) (body : Emit) : Emit := do
  write (s.arrowHead params)
  body

end Emit

open Emit

/-! ## Cases -/

/-- A match around a body. -/
def Nest.emit (subject : String) (body : Emit) : Nest → Emit
  | .body => body
  | .bind b rest => do
    writeLine (b.print subject)
    rest.emit subject body
  | .guard conditions rest =>
    block ("if (" ++ Text.join " && " (conditions.map (·.print subject)) ++ ")")
      (rest.emit subject body) ""
  | .search id start test rest => do
    let found := foundName id
    let cursor := loopName id
    writeLine ("let " ++ found ++ " = -1;")
    block
      ("for (let " ++ cursor ++ " = " ++ start.print ++ "; " ++ cursor ++ " < " ++ subject
        ++ ".length; " ++ cursor ++ "++)")
      (block ("if (" ++ test.print (subject ++ "[" ++ cursor ++ "]") ++ ")")
        (writeLines [found ++ " = " ++ cursor ++ ";", "break;"]) "") ""
    block ("if (" ++ found ++ " !== -1)") (rest.emit subject body) ""
  | .scope rest => block "" (rest.emit subject body) ""

/-- The block of one branch in a case that chooses by the tag. -/
def emitArm (subject : String) (branch : Pattern × Emit) : Emit :=
  match branch.1 with
  | .shape (.tag name fields) =>
    block ("case \"" ++ name ++ "\":") (do
      writeLines ((fieldBinds .subject (.tag name fields)).map (·.print subject))
      branch.2) ""
  | _ => block "default:" branch.2 ""

/-- The arms of a switch. -/
def emitArms (subject : String) : List (Pattern × Emit) → Emit
  | [] => pure ()
  | b :: bs => do
    emitArm subject b
    emitArms subject bs

/-- Branches that are tested one after the other. -/
def emitChain (subject : String) : List (Pattern × Emit) → Emit
  | [] => pure ()
  | b :: bs => do
    (branchMatch b.1).emit subject b.2
    emitChain subject bs

def emitBranches (subject : String) (branches : List (Pattern × Emit)) : Emit :=
  match dispatchOf (branches.map (·.1)) with
  | .byTag => block ("switch (" ++ subject ++ ".kind)") (emitArms subject branches) ""
  | .byLength | .byValue => emitChain subject branches

/-- A case. The name of its subject tells how many cases it is inside of; the subject is written
outside of this one and the branches inside. -/
def emitCase (value : Emit) (branches : List (Pattern × Emit)) : Emit := do
  let subject := subjectName (← get).depth
  statement ("const " ++ subject ++ " = ") value ";"
  openCase
  emitBranches subject branches
  closeCase

/-! ## Expressions -/

/-- Writes an expression as a term, for the place where it stands, or as statements that return its
value. -/
structure Emission where
  term (parent : Nat) (right : Bool) : Emit
  stmts : Emit

/-- An expression that is a term. As a statement it is returned. -/
def Emission.ofTerm (term : Nat → Bool → Emit) : Emission :=
  ⟨term, statement "return " (term lowest false) ";"⟩

/-- What a pipe hands to an expression, ready to be written as an argument. -/
inductive Feed
  | nothing
  | argument (value : Emit)
  | chain (value : Emit)

/-- What is fed, if anything is. -/
def Feed.value? : Feed → Option Emit
  | nothing => none
  | argument a | chain a => some a

/-- An operator, as its entry in the table says. -/
def emitBinary (operator : String) (left right : Nat → Bool → Emit) (parent : Nat)
    (onRight : Bool) : Emit :=
  match operator with
  | "++" => do
    left tightest false
    write ".concat("
    right lowest false
    write ")"
  | "::" => do
    write "[ "
    left lowest false
    write ", ..."
    right tightest false
    write " ]"
  | op =>
    let own := strength (targetOperator op)
    Emit.bracketed (needsBrackets own parent onRight) do
      left own false
      write (" " ++ targetOperator op ++ " ")
      right own true

mutual

/-- The emission of an expression, one case for each. -/
def emission (s : Style) (feed : Feed) : Derw.Expr → Emission
  | .absent => .ofTerm fun _ _ => write "undefined"
  | .value body => .ofTerm fun _ _ => match feed.value? with
    | some a => call (write body) [a]
    | none => write body
  | .text body => .ofTerm fun _ _ => write ("\"" ++ body ++ "\"")
  | .format body => .ofTerm fun _ _ => write ("\x60" ++ body ++ "\x60")
  | .list items => .ofTerm fun _ _ => list (emissions s items)
  | .range start stop => .ofTerm fun _ _ => do
    let first := (emission s .nothing start).term (strength "-") true
    write "Array.from(\x7b length: "
    (emission s .nothing stop).term (strength "-") false
    write " - "
    first
    write " + 1 \x7d, (_v, _i) => _i + "
    first
    write ")"
  | .object base fields => .ofTerm fun _ _ =>
    object ((if isAbsent base then [] else [do
      write "..."
      (emission s .nothing base).term tightest false]) ++ fieldEmissions s fields)
  | .construct name => .ofTerm fun _ _ => call (write name) [object []]
  | .constructWith name base fields => .ofTerm fun _ _ =>
    call (write name) [object ((if isAbsent base then [] else [do
      write "..."
      (emission s .nothing base).term tightest false]) ++ fieldEmissions s fields)]
  | .ifElse condition yesLets yes noLets no =>
    let c := (emission s .nothing condition).term
    let y := emission s .nothing yes
    let n := emission s .nothing no
    let stmts := conditional (c lowest false)
      (do
        emitLets s yesLets
        y.stmts)
      (do
        emitLets s noLets
        n.stmts)
    ⟨fun parent _ =>
      if yesLets.isEmpty && noLets.isEmpty then
        Emit.bracketed (lowest < parent) do
          c armStrength false
          write " ? "
          y.term armStrength false
          write " : "
          n.term armStrength false
      else invoked s stmts, stmts⟩
  | .caseOf subject branches =>
    let stmts := emitCase ((emission s .nothing subject).term lowest false)
      (branchEmissions s branches)
    ⟨fun _ _ => invoked s stmts, stmts⟩
  | .binary operator left right =>
    .ofTerm (emitBinary operator (emission s .nothing left).term (emission s .nothing right).term)
  | .unary operator operand => .ofTerm fun parent _ =>
    Emit.bracketed (unaryStrength < parent) do
      write (if operator == "not" then "!" else operator)
      (emission s .nothing operand).term unaryStrength true
  | .leftPipe left right =>
    let through := match feed with
      | .chain a => emission s (.argument a) left
      | _ => emission s .nothing left
    .ofTerm (emission s (.chain (through.term lowest false)) right).term
  | .rightPipe target value =>
    .ofTerm (emission s (.argument ((emission s .nothing value).term lowest false)) target).term
  | .qualified path value => .ofTerm fun _ _ => do
    let into := match feed.value? with
      | some a => .argument a
      | none => .nothing
    write (Text.join "." path ++ ".")
    (emission s into value).term tightest false
  | .call name args => .ofTerm fun _ _ =>
    call (write name) (emissions s args ++ feed.value?.toList)
  | .lambda params body =>
    let inner := Emit.bracketed (isObject body) ((emission s .nothing body).term lowest false)
    .ofTerm fun parent _ => match feed.value? with
      | some a => call (Emit.bracketed true (arrow s params inner)) [a]
      | none => Emit.bracketed (lowest < parent) (arrow s params inner)
  | .lambdaCall params body args => .ofTerm fun _ _ =>
    let inner := Emit.bracketed (isObject body) ((emission s .nothing body).term lowest false)
    call (Emit.bracketed true (arrow s params inner)) (emissions s args)

def emissions (s : Style) : List Derw.Expr → List Emit
  | [] => []
  | e :: es => (emission s .nothing e).term lowest false :: emissions s es

def fieldEmissions (s : Style) : List Derw.Field → List Emit
  | [] => []
  | .mk name value :: fs =>
    (do
      write (name ++ ": ")
      (emission s .nothing value).term lowest false) :: fieldEmissions s fs

def branchEmissions (s : Style) : List Derw.Branch → List (Pattern × Emit)
  | [] => []
  | .mk pattern lets body :: bs =>
    (pattern, do
      emitLets s lets
      (emission s .nothing body).stmts) :: branchEmissions s bs

/-- A function or constant; other declarations write nothing inside of another one. -/
def emitDecl (s : Style) : Derw.Decl → Emit
  | .function name params result lets body =>
    block (s.functionHead name (parametersOf params) result) (do
      emitLets s lets
      (emission s .nothing body).stmts) ""
  | .const name type lets value =>
    let v := emission s .nothing value
    statement ("const " ++ s.annotated name type ++ " = ")
      (if lets.isEmpty then v.term lowest false
        else invoked s do
          emitLets s lets
          v.stmts) ";"
  | .imports _ | .exports _ | .union .. | .typeAlias .. | .comment _ | .multilineComment _ =>
    pure ()

def emitLets (s : Style) : List Derw.Decl → Emit
  | [] => pure ()
  | d :: ds => do
    emitDecl s d
    emitLets s ds

end

/-! ## Declarations -/

/-- The field that tells the tag, followed by `mark`. -/
def emitKind (head : TypeName) (tagged : Bool) (mark : String) : Emit :=
  optional tagged (writeLine ("kind: \"" ++ head.name ++ "\"" ++ mark))

def emitObjectType (s : Style) (head : TypeName) (tagged : Bool) (fields : List TypedName) : Emit :=
  block ("type " ++ head.text ++ " =") (do
    emitKind head tagged ";"
    writeLines ((s.fieldTexts fields).map (· ++ ";"))) ";"

def emitConstructor (s : Style) (head : TypeName) (tagged : Bool) (fields : List TypedName) :
    Emit :=
  block (s.constructorHead head fields) (block "return" (do
    emitKind head tagged ","
    writeLine "...args,") ";") ""

/-- The type of an object, if types are written, and its constructor. -/
def emitMaker (s : Style) (head : TypeName) (tagged : Bool) (fields : List TypedName) : Emit := do
  optional s.typed do
    emitObjectType s head tagged fields
    write "\n"
  emitConstructor s head tagged fields

/-- The tags of a union, with an empty line after each but the last. -/
def emitTags (s : Style) : List Tag → Emit
  | [] => pure ()
  | [t] => emitMaker s (tagType t) true t.fields
  | t :: ts => do
    emitMaker s (tagType t) true t.fields
    write "\n"
    emitTags s ts

def emitUnionType (head : TypeHead) (tags : List Tag) : Emit :=
  let union := Text.join " | " (tags.map fun t => (tagType t).text)
  writeLine ("type " ++ (headType head).text ++ " = " ++ (if union.isEmpty then "never" else union)
    ++ ";")

/-- A union is the types and the constructors of its tags, and then their union. -/
def emitUnion (s : Style) (head : TypeHead) (tags : List Tag) : Emit := do
  emitTags s tags
  optional s.typed do
    optional (!tags.isEmpty) (write "\n")
    emitUnionType head tags

def emitCommentLines : List String → Emit
  | [] => pure ()
  | l :: ls => do
    (if Text.isBlankLine l then write "\n" else writeLine l)
    emitCommentLines ls

/-- A declaration of the module. -/
def emitTopLevel (s : Style) : Derw.Decl → Emit
  | .imports modules => writeLines ((modules.flatMap importLines).map (·.print))
  | .exports names =>
    optional (!names.isEmpty) (writeLine ("export \x7b " ++ Text.join ", " names ++ " \x7d;"))
  | .union head tags => emitUnion s head tags
  | .typeAlias head properties => emitMaker s (headType head) false properties
  | .comment body => writeLine ("// " ++ commentBody body)
  | .multilineComment body => do
    writeLine "/*"
    emitCommentLines (commentLines body)
    writeLine "*/"
  | d => emitDecl s d

/-- What is written on a sheet of its own. The sheet starts without an indentation; the open cases
are those of the pen. -/
def apart (a : Emit) : StateM Pen String := fun p =>
  let q := (a { p with text := "", indent := 0 }).2
  (q.text, { p with depth := q.depth })

/-- A text of the program, unless it is empty; an empty line stands before all but the first. -/
def addText (first : Bool) (text : String) : Emit :=
  optional (!text.isEmpty) do
    optional (!first) (write "\n")
    write text

/-- All declarations with one pen, each apart. Those that write nothing leave no empty line. -/
def emitProgram (s : Style) (first : Bool) : List Derw.Decl → Emit
  | [] => pure ()
  | d :: ds => do
    let text ← apart (emitTopLevel s d)
    addText first text
    emitProgram s (first && text.isEmpty) ds

end Derw.Script

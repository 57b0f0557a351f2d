import Derw.Module.Basic
import Derw.Text.Letter
import Derw.Text.Quoted
import Derw.Yaml.Node

/-!
# Module/Document — reading a module from its document

A module document is a mapping with the module's name, its declarations and its messages. Every node
of the module is a mapping whose `kind` tells what it is. A scalar stands for a value where an
expression is wanted, and for a type where a type is: a parameter if it starts with a lower-case
letter. What is null or left out is absent.

Reading goes down the tree, and a child of a node is smaller than the node (`Child`); that is what
makes the readers total. The first thing that is wrong, in the order in which the fields are read,
is the `Fault` that is reported.
-/

namespace Derw

open Yaml (Node Entry)

/-- What a node was expected to be. -/
inductive Expected
  | mapping
  | sequence
  | scalar
  | scalarFor (key : String)
  | fixedTypeFor (key : String)

/-- The families of nodes that have kinds. -/
inductive Family
  | declaration
  | type
  | expression
  | pattern
  | listPart
  | argument

/-- Why a text is no module document. A line is counted from one, and zero where there is none. -/
inductive Fault
  | malformed
  | noDocument
  | expected (line : Nat) (what : Expected)
  | missing (line : Nat) (key : String)
  | unknownKind (line : Nat) (family : Family) (kind : String)
  | unknownNamespace (line : Nat) (name : String)

def Expected.text : Expected → String
  | mapping => "a mapping"
  | sequence => "a sequence"
  | scalar => "a scalar"
  | scalarFor key => "a scalar for '" ++ key ++ "'"
  | fixedTypeFor key => "a fixed type for '" ++ key ++ "'"

def Family.text : Family → String
  | declaration => "declaration"
  | type => "type"
  | expression => "expression"
  | pattern => "pattern"
  | listPart => "list pattern part"
  | argument => "function argument"

namespace Fault

def message : Fault → String
  | malformed => "reading module document"
  | noDocument => "empty module document"
  | expected _ what => "expected " ++ what.text
  | missing _ key => "missing '" ++ key ++ "'"
  | unknownKind _ family kind => "unknown " ++ family.text ++ " kind " ++ Text.quoted kind
  | unknownNamespace _ name =>
    "unknown import namespace " ++ Text.quoted name ++ " (want relative or global)"

def line : Fault → Nat
  | malformed | noDocument => 0
  | expected l _ | missing l _ | unknownKind l .. | unknownNamespace l _ => l

/-- Only a malformed text has a cause that lies outside the module format. -/
def hasCause : Fault → Bool
  | malformed => true
  | _ => false

end Fault

namespace Document

/-- A node below `n`. -/
abbrev Child (n : Node) := { c : Node // sizeOf c < sizeOf n }

/-- The fields of a mapping node: where it stands, and its children by key. -/
structure Fields (n : Node) where
  line : Nat
  get : String → Option (Child n)

theorem sizeOf_value_lt {l : Nat} {es : List Entry} {e : Entry} (h : e ∈ es) :
    sizeOf e.value < sizeOf (Node.mapping l es) := by
  have h₁ := List.sizeOf_lt_of_mem h
  have h₂ : sizeOf e.value < sizeOf e := by
    cases e; simp only [Entry.value, Entry.mk.sizeOf_spec]; omega
  simp only [Node.mapping.sizeOf_spec]
  omega

theorem sizeOf_item_lt {l : Nat} {ns : List Node} {c : Node} (h : c ∈ ns) :
    sizeOf c < sizeOf (Node.sequence l ns) := by
  have h₁ := List.sizeOf_lt_of_mem h
  simp only [Node.sequence.sizeOf_spec]
  omega

/-- The value of the last entry with this key. -/
def lastWith (key : String) (es : List Entry) : Option { e : Entry // e ∈ es } :=
  es.attach.reverse.find? fun e => e.1.key.keyText == key

/-- The fields of a node that has to be a mapping. -/
def fields : (n : Node) → Except Fault (Fields n)
  | .mapping l es =>
    .ok ⟨l, fun key => (lastWith key es).map fun e => ⟨e.1.value, sizeOf_value_lt e.2⟩⟩
  | n => .error (.expected n.line .mapping)

/-- The items of a node that has to be a sequence; a null node has none. -/
def items : (n : Node) → Except Fault (List (Child n))
  | .sequence _ ns => .ok (ns.attach.map fun c => ⟨c.1, sizeOf_item_lt c.2⟩)
  | n => if n.isNull then .ok [] else .error (.expected n.line .sequence)

/-- The text of a scalar node. -/
def scalarText? : Node → Option String
  | .scalar _ _ _ text => some text
  | _ => none

/-- The text of an item of a list. -/
def readText (n : Node) : Except Fault String :=
  match scalarText? n with
  | some s => .ok s
  | none => .error (.expected n.line .scalar)

namespace Fields

variable {n : Node}

/-- The text of a field, empty if the field is null or left out. -/
def text (f : Fields n) (key : String) : Except Fault String :=
  match f.get key with
  | none => .ok ""
  | some c =>
    if c.1.isNull then .ok ""
    else match scalarText? c.1 with
      | some s => .ok s
      | none => .error (.expected c.1.line (.scalarFor key))

/-- The text of a field that must be there. -/
def required (f : Fields n) (key : String) : Except Fault String :=
  match f.get key with
  | none => .error (.missing f.line key)
  | some c => if c.1.isNull then .error (.missing f.line key) else f.text key

/-- The items of a field, none if the field is left out. -/
def list (f : Fields n) (key : String) : Except Fault (List (Child n)) :=
  match f.get key with
  | none => .ok []
  | some c => (items c.1).map (·.map fun d => ⟨d.1, Nat.lt_trans d.2 c.2⟩)

/-- The texts of a field's items. -/
def texts (f : Fields n) (key : String) : Except Fault (List String) := do
  (← f.list key).mapM fun c => readText c.1

/-- Reads a field by `read`, unless it is left out. -/
def read {α : Type} (f : Fields n) (key : String) (absent : α) (read : Child n → Except Fault α) :
    Except Fault α :=
  match f.get key with
  | none => .ok absent
  | some c => read c

end Fields

/-- The scalar form of a type. -/
def scalarType (text : String) : Ty :=
  match text.toList with
  | c :: _ => if Text.isLower c then .generic text else .fixed text []
  | [] => .fixed text []

def readType (n : Node) : Except Fault Ty := do
  if n.isNull then return .absent
  match scalarText? n with
  | some text => return scalarType text
  | none =>
    let f ← fields n
    match ← f.required "kind" with
    | "GenericType" => return .generic (← f.required "name")
    | "FixedType" =>
      let name ← f.required "name"
      return .fixed name (← (← f.list "args").mapM fun ⟨c, _⟩ => readType c)
    | "FunctionType" => return .function (← (← f.list "args").mapM fun ⟨c, _⟩ => readType c)
    | kind => .error (.unknownKind n.line .type kind)
termination_by sizeOf n

variable {n : Node}

def typeField (f : Fields n) (key : String) : Except Fault Ty :=
  f.read key .absent fun c => readType c.1

/-- The head of a type declaration, which must be a named type. -/
def headField (f : Fields n) (key : String) : Except Fault TypeHead :=
  match f.get key with
  | none => .error (.missing f.line key)
  | some c =>
    if c.1.isNull then .error (.missing f.line key)
    else do
      match ← readType c.1 with
      | .fixed name args => return ⟨name, args⟩
      | _ => .error (.expected c.1.line (.fixedTypeFor key))

def readTypedName (n : Node) : Except Fault TypedName := do
  let f ← fields n
  let name ← f.required "name"
  return ⟨name, ← typeField f "type"⟩

/-- The typed names of a field. -/
def typedNames (f : Fields n) (key : String) : Except Fault (List TypedName) := do
  (← f.list key).mapM fun c => readTypedName c.1

def readTag (n : Node) : Except Fault Tag := do
  let f ← fields n
  let name ← f.required "name"
  return ⟨name, ← typedNames f "args"⟩

/-- The namespace an import names, and the line to blame if there is no such namespace. -/
def readNamespace (f : Fields n) : Except Fault Namespace := do
  match ← f.text "namespace" with
  | "" | "relative" => return .relative
  | "global" => return .global
  | name => .error (.unknownNamespace ((f.get "namespace").elim 0 (·.1.line)) name)

def readImport (n : Node) : Except Fault Import := do
  let f ← fields n
  let name ← f.required "name"
  let asName ← f.text "alias"
  let exposing ← f.texts "exposing"
  let space ← readNamespace f
  return { name, asName, exposing, space }

def readParam (n : Node) : Except Fault Param := do
  let f ← fields n
  let kind ← f.required "kind"
  let type ← typeField f "type"
  match kind with
  | "NamedArg" => return ⟨some (← f.required "name"), type⟩
  | "UnusedArg" => return ⟨none, type⟩
  | kind => .error (.unknownKind n.line .argument kind)

/-- The shapes, which are patterns and parts of list patterns alike. -/
def readShape (kind : String) (f : Fields n) : Except Fault (Option Shape) := do
  match kind with
  | "Destructure" =>
    let name ← f.required "constructor"
    return some (.tag name (← f.text "pattern"))
  | "StringPattern" => return some (.text (← f.text "body"))
  | "FormatStringPattern" => return some (.format (← f.text "body"))
  | "EmptyList" => return some .empty
  | _ => return none

def readPart (n : Node) : Except Fault Part := do
  let f ← fields n
  let kind ← f.required "kind"
  if kind == "ValuePart" then return .binder (← f.required "name")
  match ← readShape kind f with
  | some s => return .shape s
  | none => .error (.unknownKind n.line .listPart kind)

def readPattern (n : Node) : Except Fault Pattern := do
  if n.isNull then return .anything
  let f ← fields n
  match ← f.required "kind" with
  | "Default" => return .anything
  | "ListDestructure" => return .list (← (← f.list "parts").mapM fun c => readPart c.1)
  | kind =>
    match ← readShape kind f with
    | some s => return .shape s
    | none => .error (.unknownKind n.line .pattern kind)

mutual

def readExpr (n : Node) : Except Fault Expr := do
  if n.isNull then return .absent
  match scalarText? n with
  | some text => return .value text
  | none =>
    let f ← fields n
    match ← f.required "kind" with
    | "Value" => return .value (← f.text "body")
    | "StringValue" => return .text (← f.text "body")
    | "FormatStringValue" => return .format (← f.text "body")
    | "ListValue" => return .list (← (← f.list "items").mapM fun ⟨c, _⟩ => readExpr c)
    | "ListRange" =>
      let start ← f.read "start" .absent fun ⟨c, _⟩ => readExpr c
      return .range start (← f.read "end" .absent fun ⟨c, _⟩ => readExpr c)
    | "ObjectLiteral" =>
      let (base, fs) ← readObject n f
      return .object base fs
    | "Constructor" =>
      let name ← f.required "name"
      f.read "pattern" (.construct name) fun ⟨c, _⟩ => do
        if c.isNull then return .construct name
        let (base, fs) ← readObject c (← fields c)
        return .constructWith name base fs
    | "IfStatement" =>
      let condition ← f.read "predicate" .absent fun ⟨c, _⟩ => readExpr c
      let yes ← f.read "ifBody" .absent fun ⟨c, _⟩ => readExpr c
      let yesLets ← (← f.list "ifLetBody").mapM fun ⟨c, _⟩ => readDecl c
      let no ← f.read "elseBody" .absent fun ⟨c, _⟩ => readExpr c
      let noLets ← (← f.list "elseLetBody").mapM fun ⟨c, _⟩ => readDecl c
      return .ifElse condition yesLets yes noLets no
    | "CaseStatement" =>
      let subject ← f.read "predicate" .absent fun ⟨c, _⟩ => readExpr c
      return .caseOf subject (← (← f.list "branches").mapM fun ⟨c, _⟩ => readBranch c)
    | "InfixExpression" =>
      let operator ← f.required "operator"
      let left ← f.read "left" .absent fun ⟨c, _⟩ => readExpr c
      return .binary operator left (← f.read "right" .absent fun ⟨c, _⟩ => readExpr c)
    | "PrefixExpression" =>
      let operator ← f.required "operator"
      return .unary operator (← f.read "right" .absent fun ⟨c, _⟩ => readExpr c)
    | "LeftPipe" =>
      let left ← f.read "left" .absent fun ⟨c, _⟩ => readExpr c
      return .leftPipe left (← f.read "right" .absent fun ⟨c, _⟩ => readExpr c)
    | "RightPipe" =>
      let left ← f.read "left" .absent fun ⟨c, _⟩ => readExpr c
      return .rightPipe left (← f.read "right" .absent fun ⟨c, _⟩ => readExpr c)
    | "ModuleReference" =>
      let path ← f.texts "path"
      return .qualified path (← f.read "value" .absent fun ⟨c, _⟩ => readExpr c)
    | "FunctionCall" =>
      let name ← f.required "name"
      return .call name (← (← f.list "args").mapM fun ⟨c, _⟩ => readExpr c)
    | "Lambda" =>
      let (params, body) ← readLambda n f
      return .lambda params body
    | "LambdaCall" =>
      match f.get "lambda" with
      | none => .error (.expected 0 .mapping)
      | some ⟨c, _⟩ =>
        let (params, body) ← readLambda c (← fields c)
        return .lambdaCall params body (← (← f.list "args").mapM fun ⟨c, _⟩ => readExpr c)
    | kind => .error (.unknownKind n.line .expression kind)
termination_by (sizeOf n, 1)

/-- The base and the fields of a record. -/
def readObject (n : Node) (f : Fields n) : Except Fault (Expr × List Field) := do
  let base ← f.read "base" .absent fun ⟨c, _⟩ => readExpr c
  return (base, ← (← f.list "fields").mapM fun ⟨c, _⟩ => readField c)
termination_by (sizeOf n, 0)

def readField (n : Node) : Except Fault Field := do
  let f ← fields n
  let name ← f.required "name"
  return .mk name (← f.read "value" .absent fun ⟨c, _⟩ => readExpr c)
termination_by (sizeOf n, 0)

/-- The parameters and the body of a lambda. -/
def readLambda (n : Node) (f : Fields n) : Except Fault (List String × Expr) := do
  let params ← f.texts "args"
  return (params, ← f.read "body" .absent fun ⟨c, _⟩ => readExpr c)
termination_by (sizeOf n, 0)

def readBranch (n : Node) : Except Fault Branch := do
  let f ← fields n
  let pattern ← f.read "pattern" .anything fun c => readPattern c.1
  let lets ← (← f.list "letBody").mapM fun ⟨c, _⟩ => readDecl c
  return .mk pattern lets (← f.read "body" .absent fun ⟨c, _⟩ => readExpr c)
termination_by (sizeOf n, 0)

def readDecl (n : Node) : Except Fault Decl := do
  let f ← fields n
  match ← f.required "kind" with
  | "Import" => return .imports (← (← f.list "modules").mapM fun c => readImport c.1)
  | "Export" => return .exports (← f.texts "names")
  | "UnionType" =>
    let head ← headField f "type"
    return .union head (← (← f.list "tags").mapM fun c => readTag c.1)
  | "TypeAlias" =>
    let head ← headField f "type"
    return .typeAlias head (← typedNames f "properties")
  | "Function" =>
    let name ← f.required "name"
    let result ← typeField f "returnType"
    let params ← (← f.list "args").mapM fun c => readParam c.1
    let lets ← (← f.list "letBody").mapM fun ⟨c, _⟩ => readDecl c
    return .function name params result lets (← f.read "body" .absent fun ⟨c, _⟩ => readExpr c)
  | "Const" =>
    let name ← f.required "name"
    let type ← typeField f "type"
    let lets ← (← f.list "letBody").mapM fun ⟨c, _⟩ => readDecl c
    return .const name type lets (← f.read "value" .absent fun ⟨c, _⟩ => readExpr c)
  | "Comment" => return .comment (← f.text "body")
  | "MultilineComment" => return .multilineComment (← f.text "body")
  | kind => .error (.unknownKind n.line .declaration kind)
termination_by (sizeOf n, 0)

end

/-- The module a root node describes. -/
def readModule (n : Node) : Except Fault Module := do
  let f ← fields n
  let name ← f.text "name"
  let body ← (← f.list "body").mapM fun c => readDecl c.1
  return ⟨name, body, ← f.texts "errors"⟩

end Document

/-- Reads a module document. -/
def Module.ofDocument (text : String) : Except Fault Module :=
  match Yaml.readDocument text with
  | none => .error .malformed
  | some none => .error .noDocument
  | some (some root) => Document.readModule root

end Derw

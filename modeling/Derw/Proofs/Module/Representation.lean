import Derw.Module.Document
import Mathlib.Data.List.Forall2

/-!
# Proofs/Module/Representation — the documents of a module

Which trees of nodes stand for a module, said without reading them: one relation for each part of a
module, and one constructor for each kind of part. A part is a mapping that says its `kind` and has
its fields, in any order and among any others. Nothing is asked of the other fields but that none
goes by the name of one that is wanted. A part that is absent may be null or left out, which is all
one (`Node.At`), and so may an empty list or text; a scalar is short for a value or a plain type.

Every module has such a document (`exists_moduleNode`).
-/

namespace Derw

namespace Yaml.Node

/-! ## Fields of a mapping -/

/-- Everything the document has a record for is a mapping. -/
def IsMapping (n : Node) : Prop := ∃ line entries, n = .mapping line entries

/-- The values under a key. -/
def under (key : String) : Node → List Node
  | mapping _ entries => (entries.filter (·.key.keyText == key)).map Entry.value
  | _ => []

/-- The field of that name is `c`. One that is left out is as good as one that is null. -/
def At (n : Node) (key : String) (c : Node) : Prop :=
  n.under key = [c] ∨ n.under key = [] ∧ c.isNull = true

/-- A scalar that is not null, with this text. -/
def Spells (n : Node) (text : String) : Prop :=
  n.isNull = false ∧ ∃ line style tag, n = .scalar line style tag text

/-- The field of that name has this text. -/
def Says (n : Node) (key text : String) : Prop := ∃ c, n.under key = [c] ∧ c.Spells text

/-- The field of that name has this text, or there is none and the text is empty. -/
def MaySay (n : Node) (key text : String) : Prop :=
  ∃ c, n.At key c ∧ (c.Spells text ∨ c.isNull = true ∧ text = "")

/-- The field of that name is a sequence of these nodes, or there is none and no nodes. -/
def Lists (n : Node) (key : String) (items : List Node) : Prop :=
  ∃ c, n.At key c ∧ ((∃ line, c = .sequence line items) ∨ c.isNull = true ∧ items = [])

/-- …of these texts. -/
def ListsTexts (n : Node) (key : String) (texts : List String) : Prop :=
  ∃ items, n.Lists key items ∧ List.Forall₂ Spells items texts

end Yaml.Node

namespace Document

open Yaml (Node)

/-! ## Types -/

/-- A node that stands for a type: a scalar for a type without arguments. -/
inductive TypeNode : Node → Ty → Prop
  | absent {n} : n.isNull = true → TypeNode n .absent
  | parameter {n c cs} :
    n.Spells (String.ofList (c :: cs)) → Text.isLower c = true →
    TypeNode n (.generic (String.ofList (c :: cs)))
  | named {n name} :
    n.Spells name → (∀ c ∈ name.toList.head?, Text.isLower c = false) →
    TypeNode n (.fixed name [])
  | generic {n name} :
    n.Says "kind" "GenericType" → n.Says "name" name → TypeNode n (.generic name)
  | fixed {n name items args} :
    n.Says "kind" "FixedType" → n.Says "name" name →
    n.Lists "args" items → List.Forall₂ TypeNode items args →
    TypeNode n (.fixed name args)
  | function {n items args} :
    n.Says "kind" "FunctionType" →
    n.Lists "args" items → List.Forall₂ TypeNode items args →
    TypeNode n (.function args)

/-- The field of that name stands for this type. -/
def TypeAt (n : Node) (key : String) (t : Ty) : Prop := ∃ c, n.At key c ∧ TypeNode c t

/-- A typed name has its two fields. -/
def TypedNameNode (n : Node) (t : TypedName) : Prop :=
  n.Says "name" t.name ∧ TypeAt n "type" t.type

/-- A tag lists its fields under its name. -/
def TagNode (n : Node) (t : Tag) : Prop :=
  n.Says "name" t.name ∧ ∃ items, n.Lists "args" items ∧ List.Forall₂ TypedNameNode items t.fields

/-! ## Imports, parameters and patterns -/

/-- Modules are looked for next to the importing one if nothing else is said. -/
def SpaceAt (n : Node) : Namespace → Prop
  | .relative => n.Says "namespace" "relative" ∨ n.MaySay "namespace" ""
  | .global => n.Says "namespace" "global"

/-- An import names the module, and may rename it or list the names it exposes. -/
structure ImportNode (n : Node) (m : Import) : Prop where
  name : n.Says "name" m.name
  asName : n.MaySay "alias" m.asName
  exposing : n.ListsTexts "exposing" m.exposing
  space : SpaceAt n m.space

/-- A parameter has its type, and its name unless it is unused. -/
def ParamNode (n : Node) (p : Param) : Prop :=
  TypeAt n "type" p.type ∧
  match p.name with
  | some name => n.Says "kind" "NamedArg" ∧ n.Says "name" name
  | none => n.Says "kind" "UnusedArg"

/-- A shape is a tag with the text of its fields, a text to compare with, or the empty list. -/
def ShapeNode (n : Node) : Shape → Prop
  | .tag name fields =>
    n.Says "kind" "Destructure" ∧ n.Says "constructor" name ∧ n.MaySay "pattern" fields
  | .text body => n.Says "kind" "StringPattern" ∧ n.MaySay "body" body
  | .format body => n.Says "kind" "FormatStringPattern" ∧ n.MaySay "body" body
  | .empty => n.Says "kind" "EmptyList"

/-- A part binds a name, or is a shape. -/
def PartNode (n : Node) : Part → Prop
  | .binder name => n.Says "kind" "ValuePart" ∧ n.Says "name" name
  | .shape s => ShapeNode n s

/-- A pattern is a shape, a list of parts or the default. -/
def PatternNode (n : Node) : Pattern → Prop
  | .shape s => ShapeNode n s
  | .list parts =>
    n.Says "kind" "ListDestructure" ∧
    ∃ items, n.Lists "parts" items ∧ List.Forall₂ PartNode items parts
  | .anything => n.isNull = true ∨ n.Says "kind" "Default"

/-! ## Expressions and declarations -/

mutual

/-- The records of an expression, one constructor for each kind. -/
inductive ExprNode : Node → Expr → Prop
  | absent {n} : n.isNull = true → ExprNode n .absent
  | scalar {n body} : n.Spells body → ExprNode n (.value body)
  | value {n body} : n.Says "kind" "Value" → n.MaySay "body" body → ExprNode n (.value body)
  | text {n body} : n.Says "kind" "StringValue" → n.MaySay "body" body → ExprNode n (.text body)
  | format {n body} :
    n.Says "kind" "FormatStringValue" → n.MaySay "body" body → ExprNode n (.format body)
  | list {n nodes items} :
    n.Says "kind" "ListValue" →
    n.Lists "items" nodes → List.Forall₂ ExprNode nodes items →
    ExprNode n (.list items)
  | range {n a b start stop} :
    n.Says "kind" "ListRange" →
    n.At "start" a → ExprNode a start → n.At "end" b → ExprNode b stop →
    ExprNode n (.range start stop)
  | object {n base fields} :
    n.Says "kind" "ObjectLiteral" → ObjectNode n base fields → ExprNode n (.object base fields)
  | construct {n c name} :
    n.Says "kind" "Constructor" → n.Says "name" name → n.At "pattern" c → c.isNull = true →
    ExprNode n (.construct name)
  | constructWith {n c name base fields} :
    n.Says "kind" "Constructor" → n.Says "name" name →
    n.At "pattern" c → ObjectNode c base fields →
    ExprNode n (.constructWith name base fields)
  | ifElse {n a b c bs cs condition yesLets yes noLets no} :
    n.Says "kind" "IfStatement" →
    n.At "predicate" a → ExprNode a condition →
    n.Lists "ifLetBody" bs → List.Forall₂ DeclNode bs yesLets → n.At "ifBody" b → ExprNode b yes →
    n.Lists "elseLetBody" cs → List.Forall₂ DeclNode cs noLets →
    n.At "elseBody" c → ExprNode c no →
    ExprNode n (.ifElse condition yesLets yes noLets no)
  | caseOf {n a nodes subject branches} :
    n.Says "kind" "CaseStatement" →
    n.At "predicate" a → ExprNode a subject →
    n.Lists "branches" nodes → List.Forall₂ BranchNode nodes branches →
    ExprNode n (.caseOf subject branches)
  | binary {n a b operator left right} :
    n.Says "kind" "InfixExpression" → n.Says "operator" operator →
    n.At "left" a → ExprNode a left → n.At "right" b → ExprNode b right →
    ExprNode n (.binary operator left right)
  | unary {n a operator operand} :
    n.Says "kind" "PrefixExpression" → n.Says "operator" operator →
    n.At "right" a → ExprNode a operand →
    ExprNode n (.unary operator operand)
  | leftPipe {n a b left right} :
    n.Says "kind" "LeftPipe" →
    n.At "left" a → ExprNode a left → n.At "right" b → ExprNode b right →
    ExprNode n (.leftPipe left right)
  | rightPipe {n a b left right} :
    n.Says "kind" "RightPipe" →
    n.At "left" a → ExprNode a left → n.At "right" b → ExprNode b right →
    ExprNode n (.rightPipe left right)
  | qualified {n a path value} :
    n.Says "kind" "ModuleReference" →
    n.ListsTexts "path" path → n.At "value" a → ExprNode a value →
    ExprNode n (.qualified path value)
  | call {n name nodes args} :
    n.Says "kind" "FunctionCall" → n.Says "name" name →
    n.Lists "args" nodes → List.Forall₂ ExprNode nodes args →
    ExprNode n (.call name args)
  | lambda {n params body} :
    n.Says "kind" "Lambda" → LambdaNode n params body → ExprNode n (.lambda params body)
  | lambdaCall {n c nodes params body args} :
    n.Says "kind" "LambdaCall" →
    n.At "lambda" c → LambdaNode c params body →
    n.Lists "args" nodes → List.Forall₂ ExprNode nodes args →
    ExprNode n (.lambdaCall params body args)

/-- The base and the fields of a record. -/
inductive ObjectNode : Node → Expr → List Field → Prop
  | mk {n a nodes base fields} :
    n.IsMapping →
    n.At "base" a → ExprNode a base →
    n.Lists "fields" nodes → List.Forall₂ FieldNode nodes fields →
    ObjectNode n base fields

/-- A field of a record expression. -/
inductive FieldNode : Node → Field → Prop
  | mk {n a name value} :
    n.Says "name" name → n.At "value" a → ExprNode a value → FieldNode n (.mk name value)

/-- The parameters and the body of a lambda. -/
inductive LambdaNode : Node → List String → Expr → Prop
  | mk {n a params body} :
    n.IsMapping →
    n.ListsTexts "args" params → n.At "body" a → ExprNode a body →
    LambdaNode n params body

/-- A branch has its pattern, its definitions and its body. -/
inductive BranchNode : Node → Branch → Prop
  | mk {n a b nodes pattern lets body} :
    n.IsMapping →
    n.At "pattern" a → PatternNode a pattern →
    n.Lists "letBody" nodes → List.Forall₂ DeclNode nodes lets → n.At "body" b → ExprNode b body →
    BranchNode n (.mk pattern lets body)

/-- The records of a declaration, one constructor for each kind. -/
inductive DeclNode : Node → Decl → Prop
  | imports {n nodes modules} :
    n.Says "kind" "Import" →
    n.Lists "modules" nodes → List.Forall₂ ImportNode nodes modules →
    DeclNode n (.imports modules)
  | exports {n names} :
    n.Says "kind" "Export" → n.ListsTexts "names" names → DeclNode n (.exports names)
  | union {n nodes head tags} :
    n.Says "kind" "UnionType" → TypeAt n "type" head.toTy →
    n.Lists "tags" nodes → List.Forall₂ TagNode nodes tags →
    DeclNode n (.union head tags)
  | typeAlias {n nodes head properties} :
    n.Says "kind" "TypeAlias" → TypeAt n "type" head.toTy →
    n.Lists "properties" nodes → List.Forall₂ TypedNameNode nodes properties →
    DeclNode n (.typeAlias head properties)
  | function {n a ps ls name params result lets body} :
    n.Says "kind" "Function" → n.Says "name" name → TypeAt n "returnType" result →
    n.Lists "args" ps → List.Forall₂ ParamNode ps params →
    n.Lists "letBody" ls → List.Forall₂ DeclNode ls lets → n.At "body" a → ExprNode a body →
    DeclNode n (.function name params result lets body)
  | const {n a ls name type lets value} :
    n.Says "kind" "Const" → n.Says "name" name → TypeAt n "type" type →
    n.Lists "letBody" ls → List.Forall₂ DeclNode ls lets → n.At "value" a → ExprNode a value →
    DeclNode n (.const name type lets value)
  | comment {n body} : n.Says "kind" "Comment" → n.MaySay "body" body → DeclNode n (.comment body)
  | multilineComment {n body} :
    n.Says "kind" "MultilineComment" → n.MaySay "body" body → DeclNode n (.multilineComment body)

end

/-- **The node stands for the module.** -/
structure ModuleNode (n : Node) (m : Module) : Prop where
  isMapping : n.IsMapping
  name : n.MaySay "name" m.name
  body : ∃ nodes, n.Lists "body" nodes ∧ List.Forall₂ DeclNode nodes m.body
  errors : n.ListsTexts "errors" m.errors

/-! ## Every module has a document -/

/-- A scalar between quotes. -/
def word (text : String) : Node := .scalar 1 .quoted none text

/-- A mapping with these fields. -/
def record (fields : List (String × Node)) : Node :=
  .mapping 1 (fields.map fun field => .mk (word field.1) field.2)

section

variable {fields : List (String × Node)} {key text : String} {c : Node} {items : List Node}

theorem spells_word (text : String) : (word text).Spells text := ⟨rfl, 1, .quoted, none, rfl⟩

theorem isMapping_record (fields : List (String × Node)) : (record fields).IsMapping := ⟨1, _, rfl⟩

/-- A key that occurs once is found. -/
theorem under_record (h : fields.filter (·.1 == key) = [(key, c)]) :
    (record fields).under key = [c] := by
  rw [record, Node.under, List.filter_map, List.map_map]
  exact congrArg (List.map Prod.snd) h

theorem at_record (h : fields.filter (·.1 == key) = [(key, c)]) :
    (record fields).At key c :=
  .inl (under_record h)

theorem says_record (h : fields.filter (·.1 == key) = [(key, word text)]) :
    (record fields).Says key text :=
  ⟨_, under_record h, spells_word text⟩

theorem maySay_record (h : fields.filter (·.1 == key) = [(key, word text)]) :
    (record fields).MaySay key text :=
  ⟨_, at_record h, .inl (spells_word text)⟩

theorem lists_record (h : fields.filter (·.1 == key) = [(key, .sequence 1 items)]) :
    (record fields).Lists key items :=
  ⟨_, at_record h, .inl ⟨1, rfl⟩⟩

theorem listsTexts_record {texts : List String}
    (h : fields.filter (·.1 == key) = [(key, .sequence 1 (texts.map word))]) :
    (record fields).ListsTexts key texts :=
  ⟨_, lists_record h,
    List.forall₂_map_left_iff.mpr (List.forall₂_same.mpr fun text _ => spells_word text)⟩

end

/-- Nodes for each of some things are nodes for all of them. -/
theorem exists_forall₂ {α : Type} {R : Node → α → Prop} {xs : List α} (h : ∀ x ∈ xs, ∃ n, R n x) :
    ∃ nodes, List.Forall₂ R nodes xs := by
  induction xs with
  | nil => exact ⟨[], .nil⟩
  | cons x xs ih =>
    obtain ⟨⟨n, hn⟩, hxs⟩ := List.forall_mem_cons.mp h
    obtain ⟨nodes, hnodes⟩ := ih hxs
    exact ⟨n :: nodes, .cons hn hnodes⟩

/-- By induction on the type. -/
theorem exists_typeNode (t : Ty) : ∃ n, TypeNode n t := by
  cases t with
  | absent => exact ⟨.empty 0, .absent rfl⟩
  | generic name =>
    exact ⟨record [("kind", word "GenericType"), ("name", word name)],
      .generic (says_record rfl) (says_record rfl)⟩
  | fixed name args =>
    obtain ⟨nodes, hnodes⟩ := exists_forall₂ fun t (_ : t ∈ args) => exists_typeNode t
    exact ⟨record [("kind", word "FixedType"), ("name", word name), ("args", .sequence 1 nodes)],
      .fixed (says_record rfl) (says_record rfl) (lists_record rfl) hnodes⟩
  | function args =>
    obtain ⟨nodes, hnodes⟩ := exists_forall₂ fun t (_ : t ∈ args) => exists_typeNode t
    exact ⟨record [("kind", word "FunctionType"), ("args", .sequence 1 nodes)],
      .function (says_record rfl) (lists_record rfl) hnodes⟩

theorem exists_typedNameNode (t : TypedName) : ∃ n, TypedNameNode n t := by
  obtain ⟨c, hc⟩ := exists_typeNode t.type
  exact ⟨record [("name", word t.name), ("type", c)], says_record rfl, c, at_record rfl, hc⟩

theorem exists_tagNode (t : Tag) : ∃ n, TagNode n t := by
  obtain ⟨nodes, hnodes⟩ := exists_forall₂ fun x (_ : x ∈ t.fields) => exists_typedNameNode x
  exact ⟨record [("name", word t.name), ("args", .sequence 1 nodes)],
    says_record rfl, nodes, lists_record rfl, hnodes⟩

theorem exists_importNode (m : Import) : ∃ n, ImportNode n m := by
  obtain ⟨name, asName, exposing, space⟩ := m
  cases space with
  | relative =>
    exact ⟨record [("name", word name), ("alias", word asName),
      ("exposing", .sequence 1 (exposing.map word)), ("namespace", word "relative")],
      says_record rfl, maySay_record rfl, listsTexts_record rfl, .inl (says_record rfl)⟩
  | global =>
    exact ⟨record [("name", word name), ("alias", word asName),
      ("exposing", .sequence 1 (exposing.map word)), ("namespace", word "global")],
      says_record rfl, maySay_record rfl, listsTexts_record rfl, says_record rfl⟩

theorem exists_paramNode (p : Param) : ∃ n, ParamNode n p := by
  obtain ⟨name, type⟩ := p
  obtain ⟨c, hc⟩ := exists_typeNode type
  cases name with
  | some name =>
    exact ⟨record [("kind", word "NamedArg"), ("name", word name), ("type", c)],
      ⟨c, at_record rfl, hc⟩, says_record rfl, says_record rfl⟩
  | none =>
    exact ⟨record [("kind", word "UnusedArg"), ("type", c)], ⟨c, at_record rfl, hc⟩,
      says_record rfl⟩

theorem exists_shapeNode (s : Shape) : ∃ n, ShapeNode n s := by
  cases s with
  | tag name fields =>
    exact ⟨record [("kind", word "Destructure"), ("constructor", word name),
      ("pattern", word fields)], says_record rfl, says_record rfl, maySay_record rfl⟩
  | text body =>
    exact ⟨record [("kind", word "StringPattern"), ("body", word body)],
      says_record rfl, maySay_record rfl⟩
  | format body =>
    exact ⟨record [("kind", word "FormatStringPattern"), ("body", word body)],
      says_record rfl, maySay_record rfl⟩
  | empty => exact ⟨record [("kind", word "EmptyList")], says_record rfl⟩

theorem exists_partNode (p : Part) : ∃ n, PartNode n p := by
  cases p with
  | binder name =>
    exact ⟨record [("kind", word "ValuePart"), ("name", word name)], says_record rfl,
      says_record rfl⟩
  | shape s => exact exists_shapeNode s

theorem exists_patternNode (p : Pattern) : ∃ n, PatternNode n p := by
  cases p with
  | shape s => exact exists_shapeNode s
  | list parts =>
    obtain ⟨nodes, hnodes⟩ := exists_forall₂ fun x (_ : x ∈ parts) => exists_partNode x
    exact ⟨record [("kind", word "ListDestructure"), ("parts", .sequence 1 nodes)],
      says_record rfl, nodes, lists_record rfl, hnodes⟩
  | anything => exact ⟨record [("kind", word "Default")], .inr (says_record rfl)⟩

mutual

/-- By recursion on the expression: for each kind, a record with the fields its constructor asks
for. -/
theorem exists_exprNode (e : Expr) : ∃ n, ExprNode n e := by
  cases e with
  | absent => exact ⟨.empty 0, .absent rfl⟩
  | value body =>
    exact ⟨record [("kind", word "Value"), ("body", word body)],
      .value (says_record rfl) (maySay_record rfl)⟩
  | text body =>
    exact ⟨record [("kind", word "StringValue"), ("body", word body)],
      .text (says_record rfl) (maySay_record rfl)⟩
  | format body =>
    exact ⟨record [("kind", word "FormatStringValue"), ("body", word body)],
      .format (says_record rfl) (maySay_record rfl)⟩
  | list items =>
    obtain ⟨nodes, hnodes⟩ := exists_exprNodes items
    exact ⟨record [("kind", word "ListValue"), ("items", .sequence 1 nodes)],
      .list (says_record rfl) (lists_record rfl) hnodes⟩
  | range start stop =>
    obtain ⟨a, ha⟩ := exists_exprNode start
    obtain ⟨b, hb⟩ := exists_exprNode stop
    exact ⟨record [("kind", word "ListRange"), ("start", a), ("end", b)],
      .range (says_record rfl) (at_record rfl) ha (at_record rfl) hb⟩
  | object base fields =>
    obtain ⟨a, ha⟩ := exists_exprNode base
    obtain ⟨nodes, hnodes⟩ := exists_fieldNodes fields
    exact ⟨record [("kind", word "ObjectLiteral"), ("base", a), ("fields", .sequence 1 nodes)],
      .object (says_record rfl) ⟨isMapping_record _, at_record rfl, ha, lists_record rfl, hnodes⟩⟩
  | construct name =>
    have hnull : (Node.empty 0).isNull = true := rfl
    exact ⟨record [("kind", word "Constructor"), ("name", word name), ("pattern", .empty 0)],
      .construct (says_record rfl) (says_record rfl) (at_record rfl) hnull⟩
  | constructWith name base fields =>
    obtain ⟨a, ha⟩ := exists_exprNode base
    obtain ⟨nodes, hnodes⟩ := exists_fieldNodes fields
    obtain ⟨c, hc⟩ : ∃ c, ObjectNode c base fields :=
      ⟨record [("base", a), ("fields", .sequence 1 nodes)],
        isMapping_record _, at_record rfl, ha, lists_record rfl, hnodes⟩
    exact ⟨record [("kind", word "Constructor"), ("name", word name), ("pattern", c)],
      .constructWith (says_record rfl) (says_record rfl) (at_record rfl) hc⟩
  | ifElse condition yesLets yes noLets no =>
    obtain ⟨a, ha⟩ := exists_exprNode condition
    obtain ⟨bs, hbs⟩ := exists_declNodes yesLets
    obtain ⟨b, hb⟩ := exists_exprNode yes
    obtain ⟨cs, hcs⟩ := exists_declNodes noLets
    obtain ⟨c, hc⟩ := exists_exprNode no
    exact ⟨record [("kind", word "IfStatement"), ("predicate", a),
      ("ifLetBody", .sequence 1 bs), ("ifBody", b), ("elseLetBody", .sequence 1 cs),
      ("elseBody", c)],
      .ifElse (says_record rfl) (at_record rfl) ha (lists_record rfl) hbs (at_record rfl) hb
        (lists_record rfl) hcs (at_record rfl) hc⟩
  | caseOf subject branches =>
    obtain ⟨a, ha⟩ := exists_exprNode subject
    obtain ⟨nodes, hnodes⟩ := exists_branchNodes branches
    exact ⟨record [("kind", word "CaseStatement"), ("predicate", a),
      ("branches", .sequence 1 nodes)],
      .caseOf (says_record rfl) (at_record rfl) ha (lists_record rfl) hnodes⟩
  | binary operator left right =>
    obtain ⟨a, ha⟩ := exists_exprNode left
    obtain ⟨b, hb⟩ := exists_exprNode right
    exact ⟨record [("kind", word "InfixExpression"), ("operator", word operator), ("left", a),
      ("right", b)],
      .binary (says_record rfl) (says_record rfl) (at_record rfl) ha (at_record rfl) hb⟩
  | unary operator operand =>
    obtain ⟨a, ha⟩ := exists_exprNode operand
    exact ⟨record [("kind", word "PrefixExpression"), ("operator", word operator), ("right", a)],
      .unary (says_record rfl) (says_record rfl) (at_record rfl) ha⟩
  | leftPipe left right =>
    obtain ⟨a, ha⟩ := exists_exprNode left
    obtain ⟨b, hb⟩ := exists_exprNode right
    exact ⟨record [("kind", word "LeftPipe"), ("left", a), ("right", b)],
      .leftPipe (says_record rfl) (at_record rfl) ha (at_record rfl) hb⟩
  | rightPipe left right =>
    obtain ⟨a, ha⟩ := exists_exprNode left
    obtain ⟨b, hb⟩ := exists_exprNode right
    exact ⟨record [("kind", word "RightPipe"), ("left", a), ("right", b)],
      .rightPipe (says_record rfl) (at_record rfl) ha (at_record rfl) hb⟩
  | qualified path value =>
    obtain ⟨a, ha⟩ := exists_exprNode value
    exact ⟨record [("kind", word "ModuleReference"), ("path", .sequence 1 (path.map word)),
      ("value", a)], .qualified (says_record rfl) (listsTexts_record rfl) (at_record rfl) ha⟩
  | call name args =>
    obtain ⟨nodes, hnodes⟩ := exists_exprNodes args
    exact ⟨record [("kind", word "FunctionCall"), ("name", word name),
      ("args", .sequence 1 nodes)],
      .call (says_record rfl) (says_record rfl) (lists_record rfl) hnodes⟩
  | lambda params body =>
    obtain ⟨a, ha⟩ := exists_exprNode body
    exact ⟨record [("kind", word "Lambda"), ("args", .sequence 1 (params.map word)), ("body", a)],
      .lambda (says_record rfl) ⟨isMapping_record _, listsTexts_record rfl, at_record rfl, ha⟩⟩
  | lambdaCall params body args =>
    obtain ⟨a, ha⟩ := exists_exprNode body
    obtain ⟨nodes, hnodes⟩ := exists_exprNodes args
    obtain ⟨c, hc⟩ : ∃ c, LambdaNode c params body :=
      ⟨record [("args", .sequence 1 (params.map word)), ("body", a)],
        isMapping_record _, listsTexts_record rfl, at_record rfl, ha⟩
    exact ⟨record [("kind", word "LambdaCall"), ("lambda", c), ("args", .sequence 1 nodes)],
      .lambdaCall (says_record rfl) (at_record rfl) hc (lists_record rfl) hnodes⟩

theorem exists_exprNodes (xs : List Expr) : ∃ nodes, List.Forall₂ ExprNode nodes xs := by
  cases xs with
  | nil => exact ⟨[], .nil⟩
  | cons x xs =>
    obtain ⟨n, hn⟩ := exists_exprNode x
    obtain ⟨nodes, hnodes⟩ := exists_exprNodes xs
    exact ⟨n :: nodes, .cons hn hnodes⟩

theorem exists_fieldNode (x : Field) : ∃ n, FieldNode n x := by
  obtain ⟨name, value⟩ := x
  obtain ⟨a, ha⟩ := exists_exprNode value
  exact ⟨record [("name", word name), ("value", a)], says_record rfl, at_record rfl, ha⟩

theorem exists_fieldNodes (xs : List Field) : ∃ nodes, List.Forall₂ FieldNode nodes xs := by
  cases xs with
  | nil => exact ⟨[], .nil⟩
  | cons x xs =>
    obtain ⟨n, hn⟩ := exists_fieldNode x
    obtain ⟨nodes, hnodes⟩ := exists_fieldNodes xs
    exact ⟨n :: nodes, .cons hn hnodes⟩

/-- A branch's record from those of its parts. -/
theorem exists_branchNode (b : Branch) : ∃ n, BranchNode n b := by
  obtain ⟨pattern, lets, body⟩ := b
  obtain ⟨a, ha⟩ := exists_patternNode pattern
  obtain ⟨nodes, hnodes⟩ := exists_declNodes lets
  obtain ⟨b, hb⟩ := exists_exprNode body
  exact ⟨record [("pattern", a), ("letBody", .sequence 1 nodes), ("body", b)],
    isMapping_record _, at_record rfl, ha, lists_record rfl, hnodes, at_record rfl, hb⟩

theorem exists_branchNodes (xs : List Branch) : ∃ nodes, List.Forall₂ BranchNode nodes xs := by
  cases xs with
  | nil => exact ⟨[], .nil⟩
  | cons x xs =>
    obtain ⟨n, hn⟩ := exists_branchNode x
    obtain ⟨nodes, hnodes⟩ := exists_branchNodes xs
    exact ⟨n :: nodes, .cons hn hnodes⟩

/-- A declaration's record from those of its parts. -/
theorem exists_declNode (d : Decl) : ∃ n, DeclNode n d := by
  cases d with
  | imports modules =>
    obtain ⟨nodes, hnodes⟩ := exists_forall₂ fun x (_ : x ∈ modules) => exists_importNode x
    exact ⟨record [("kind", word "Import"), ("modules", .sequence 1 nodes)],
      .imports (says_record rfl) (lists_record rfl) hnodes⟩
  | exports names =>
    exact ⟨record [("kind", word "Export"), ("names", .sequence 1 (names.map word))],
      .exports (says_record rfl) (listsTexts_record rfl)⟩
  | union head tags =>
    obtain ⟨c, hc⟩ := exists_typeNode head.toTy
    obtain ⟨nodes, hnodes⟩ := exists_forall₂ fun x (_ : x ∈ tags) => exists_tagNode x
    exact ⟨record [("kind", word "UnionType"), ("type", c), ("tags", .sequence 1 nodes)],
      .union (says_record rfl) ⟨c, at_record rfl, hc⟩ (lists_record rfl) hnodes⟩
  | typeAlias head properties =>
    obtain ⟨c, hc⟩ := exists_typeNode head.toTy
    obtain ⟨nodes, hnodes⟩ := exists_forall₂ fun x (_ : x ∈ properties) => exists_typedNameNode x
    exact ⟨record [("kind", word "TypeAlias"), ("type", c), ("properties", .sequence 1 nodes)],
      .typeAlias (says_record rfl) ⟨c, at_record rfl, hc⟩ (lists_record rfl) hnodes⟩
  | function name params result lets body =>
    obtain ⟨c, hc⟩ := exists_typeNode result
    obtain ⟨ps, hps⟩ := exists_forall₂ fun x (_ : x ∈ params) => exists_paramNode x
    obtain ⟨ls, hls⟩ := exists_declNodes lets
    obtain ⟨a, ha⟩ := exists_exprNode body
    exact ⟨record [("kind", word "Function"), ("name", word name), ("returnType", c),
      ("args", .sequence 1 ps), ("letBody", .sequence 1 ls), ("body", a)],
      .function (says_record rfl) (says_record rfl) ⟨c, at_record rfl, hc⟩ (lists_record rfl) hps
        (lists_record rfl) hls (at_record rfl) ha⟩
  | const name type lets value =>
    obtain ⟨c, hc⟩ := exists_typeNode type
    obtain ⟨ls, hls⟩ := exists_declNodes lets
    obtain ⟨a, ha⟩ := exists_exprNode value
    exact ⟨record [("kind", word "Const"), ("name", word name), ("type", c),
      ("letBody", .sequence 1 ls), ("value", a)],
      .const (says_record rfl) (says_record rfl) ⟨c, at_record rfl, hc⟩ (lists_record rfl) hls
        (at_record rfl) ha⟩
  | comment body =>
    exact ⟨record [("kind", word "Comment"), ("body", word body)],
      .comment (says_record rfl) (maySay_record rfl)⟩
  | multilineComment body =>
    exact ⟨record [("kind", word "MultilineComment"), ("body", word body)],
      .multilineComment (says_record rfl) (maySay_record rfl)⟩

theorem exists_declNodes (xs : List Decl) : ∃ nodes, List.Forall₂ DeclNode nodes xs := by
  cases xs with
  | nil => exact ⟨[], .nil⟩
  | cons x xs =>
    obtain ⟨n, hn⟩ := exists_declNode x
    obtain ⟨nodes, hnodes⟩ := exists_declNodes xs
    exact ⟨n :: nodes, .cons hn hnodes⟩

end

/-- **Every module has a document.** -/
theorem exists_moduleNode (m : Module) : ∃ n, ModuleNode n m := by
  obtain ⟨nodes, hnodes⟩ := exists_declNodes m.body
  exact ⟨record [("name", word m.name), ("body", .sequence 1 nodes),
    ("errors", .sequence 1 (m.errors.map word))],
    isMapping_record _, maySay_record rfl, ⟨nodes, lists_record rfl, hnodes⟩, listsTexts_record rfl⟩

end Document

end Derw

import Derw.Proofs.Module.Representation

/-!
# Proofs/Module/Reading — every document of a module is read as this module

The readers go down the tree by size, so the proof does too: if everything below a node is read as
what it stands for (`ReadBelow`), the node is, with one case for each kind (`ReadBelow.readExpr`,
`ReadBelow.readDecl`). All that the cases need to know of looking up a field is that it finds the
value that the relation speaks of (`Fields.Complete`).
-/

namespace Derw

namespace Yaml.Node

variable {n : Node} {key text : String}

/-- Only a mapping says something. -/
theorem Says.isMapping (h : n.Says key text) : n.IsMapping := by
  obtain ⟨c, hc, -⟩ := h
  cases n with
  | mapping line entries => exact ⟨line, entries, rfl⟩
  | _ => simp [under] at hc

/-- A mapping is not empty, even one without entries. -/
theorem IsMapping.isNull_eq (h : n.IsMapping) : n.isNull = false := by
  obtain ⟨line, entries, rfl⟩ := h
  rfl

/-- What is said may be said. -/
theorem Says.maySay (h : n.Says key text) : n.MaySay key text := by
  obtain ⟨c, hc, htext⟩ := h
  exact ⟨c, .inl hc, .inl htext⟩

end Yaml.Node

namespace Document

open Yaml (Node Entry)

@[simp] theorem pure_eq_ok {α : Type} (a : α) : (pure a : Except Fault α) = .ok a := rfl

/-! ## Fields -/

/-- The text that a scalar spells is the one that is read. -/
theorem Spells.scalarText? {n : Node} {text : String} (h : n.Spells text) :
    scalarText? n = some text := by
  obtain ⟨-, line, style, tag, rfl⟩ := h
  rfl

variable {n : Node} {f : Fields n} {key : String}

/-- What is looked up is the last entry with that key. -/
theorem map_lastWith (entries : List Entry) :
    (lastWith key entries).map (·.1.value)
      = ((entries.filter (·.key.keyText == key)).map Entry.value).getLast? := by
  have hfind : (lastWith key entries).map (·.1)
      = entries.reverse.find? (·.key.keyText == key) := by
    conv_rhs => rw [← List.attach_map_subtype_val entries, ← List.map_reverse, List.find?_map]
    rfl
  rw [List.getLast?_map, List.getLast?_filter, ← hfind, Option.map_map]
  rfl

/-- The fields that are looked up are those of `n`. -/
def Fields.Complete (f : Fields n) : Prop :=
  ∀ key, (f.get key).map (·.1) = (n.under key).getLast?

/-- The entries of a mapping are looked up by key, as far as they are not empty. -/
theorem exists_fields (h : n.IsMapping) :
    ∃ f : Fields n, fields n = .ok f ∧ f.Complete := by
  obtain ⟨line, entries, rfl⟩ := h
  refine ⟨_, rfl, fun key => ?_⟩
  rw [Option.map_map]
  exact map_lastWith entries

/-- A node that has a kind is read by its fields. -/
theorem exists_kind {kind : String} (h : n.Says "kind" kind) :
    ∃ f : Fields n, f.Complete ∧ fields n = .ok f ∧ n.isNull = false ∧ scalarText? n = none := by
  obtain ⟨f, hfields, hf⟩ := exists_fields h.isMapping
  refine ⟨f, hf, hfields, h.isMapping.isNull_eq, ?_⟩
  obtain ⟨line, entries, rfl⟩ := h.isMapping
  rfl

namespace Fields.Complete

variable {c : Node} {s : String} {α : Type} (hf : f.Complete)
include hf

/-- An entry that is there, or an empty one that is as good as none. -/
theorem get_of_at (h : n.At key c) :
    (∃ hc, f.get key = some ⟨c, hc⟩) ∨ f.get key = none ∧ c.isNull = true := by
  have hget := hf key
  rcases h with h | ⟨h, hnull⟩
  · rw [h] at hget
    obtain ⟨d, hd, rfl⟩ := Option.map_eq_some_iff.mp hget
    exact .inl ⟨d.2, hd⟩
  · rw [h] at hget
    exact .inr ⟨Option.map_eq_none_iff.mp hget, hnull⟩

/-- A text may be left out, and is empty then. -/
theorem text (h : n.MaySay key s) : f.text key = .ok s := by
  obtain ⟨c, hc, htext⟩ := h
  rw [Fields.text]
  rcases hf.get_of_at hc with ⟨hlt, hget⟩ | ⟨hget, hnull⟩
  · rcases htext with htext | ⟨hnull, rfl⟩
    · simp [hget, htext.1, Spells.scalarText? htext]
    · simp [hget, hnull]
  · rcases htext with htext | ⟨-, rfl⟩
    · simp [htext.1] at hnull
    · simp [hget]

/-- A text that must not be left out. -/
theorem required (h : n.Says key s) : f.required key = .ok s := by
  have htext := hf.text h.maySay
  obtain ⟨c, hc, hspells⟩ := h
  obtain ⟨hlt, hget⟩ | ⟨-, hnull⟩ := hf.get_of_at (Or.inl hc)
  · rw [Fields.required, hget]
    simp [hspells.1, htext]
  · simp [hspells.1] at hnull

/-- A field that is not left out is read from a smaller node. -/
theorem read {absent x : α} {read : Node → Except Fault α} (h : n.At key c)
    (hread : sizeOf c < sizeOf n → read c = .ok x) (hnull : c.isNull = true → x = absent) :
    f.read key absent (fun d => read d.1) = .ok x := by
  rw [Fields.read]
  rcases hf.get_of_at h with ⟨hlt, hget⟩ | ⟨hget, hc⟩
  · rw [hget]
    exact hread hlt
  · rw [hget, hnull hc]

/-- The items of a list, in order. -/
theorem list {items : List Node} (h : n.Lists key items) :
    ∃ cs, f.list key = .ok cs ∧ cs.map (·.1) = items := by
  obtain ⟨c, hc, hitems⟩ := h
  rcases hf.get_of_at hc with ⟨hlt, hget⟩ | ⟨hget, hnull⟩
  · rcases hitems with ⟨line, rfl⟩ | ⟨hnull, rfl⟩
    · refine ⟨_, by rw [Fields.list, hget]; rfl, ?_⟩
      rw [List.map_map, List.map_map]
      exact List.attach_map_subtype_val items
    · refine ⟨[], ?_, rfl⟩
      rw [Fields.list, hget]
      cases c with
      | scalar => simp [items, hnull, Except.map]
      | _ => simp [Node.isNull] at hnull
  · rcases hitems with ⟨line, rfl⟩ | ⟨-, rfl⟩
    · simp [Node.isNull] at hnull
    · exact ⟨[], by rw [Fields.list, hget], rfl⟩

end Fields.Complete

/-- Readers that succeed on each item succeed on the list. -/
theorem mapM_eq_ok {α β : Type} {read : α → Except Fault β} {cs : List α} {xs : List β}
    (h : List.Forall₂ (fun c x => read c = .ok x) cs xs) : cs.mapM read = .ok xs := by
  induction h with
  | nil => rfl
  | cons hc _ ih =>
    rw [List.mapM_cons, hc, ih]
    rfl

/-- The items of a field are read from smaller nodes. -/
theorem Fields.Complete.mapM {α : Type} (hf : f.Complete) {items : List Node} {xs : List α}
    {R : Node → α → Prop} {read : Node → Except Fault α} (hlist : n.Lists key items)
    (hxs : List.Forall₂ R items xs)
    (hread : ∀ {c x}, sizeOf c < sizeOf n → R c x → read c = .ok x) :
    ∃ cs, f.list key = .ok cs ∧ cs.unattach.mapM read = .ok xs := by
  obtain ⟨cs, hcs, rfl⟩ := hf.list hlist
  refine ⟨cs, hcs, mapM_eq_ok ?_⟩
  exact List.forall₂_map_left_iff.mpr
    ((List.forall₂_map_left_iff.mp hxs).imp fun c x hx => hread c.2 hx)

/-- A node that spells a text is read as it. -/
theorem readText_of_spells {text : String} (h : n.Spells text) : readText n = .ok text := by
  rw [readText, Spells.scalarText? h]

/-- A list of texts. -/
theorem Fields.Complete.texts (hf : f.Complete) {texts : List String}
    (h : n.ListsTexts key texts) : f.texts key = .ok texts := by
  obtain ⟨items, hitems, htexts⟩ := h
  obtain ⟨cs, hlist, hmap⟩ := hf.mapM hitems htexts fun _ => readText_of_spells
  simp [Fields.texts, hlist, hmap, bind, Except.bind]

/-! ## Types -/

/-- An empty node represents only a type that is left out. -/
theorem TypeNode.eq_absent {t : Ty} (h : TypeNode n t) (hnull : n.isNull = true) : t = .absent := by
  cases h with
  | absent => rfl
  | parameter h | named h => simp [h.1] at hnull
  | generic h | fixed h | function h => simp [h.isMapping.isNull_eq] at hnull

/-- **Types are read back.** By induction on the representation, which follows the tree. -/
theorem readType_of_typeNode {t : Ty} (h : TypeNode n t) : readType n = .ok t := by
  induction hsize : sizeOf n using Nat.strongRecOn generalizing n t with
  | _ k ih =>
    subst hsize
    have hargs : ∀ {c t}, sizeOf c < sizeOf n → TypeNode c t → readType c = .ok t :=
      fun hc ht => ih _ hc ht rfl
    rw [readType]
    cases h with
    | absent hnull => simp [hnull]
    | parameter htext hlower =>
      simp [htext.1, Spells.scalarText? htext, scalarType, hlower]
    | @named _ name htext hlower =>
      have hname : scalarType name = .fixed name [] := by
        rw [scalarType]
        cases hcs : name.toList with
        | nil => rfl
        | cons c cs => simp [hlower c (by rw [hcs]; rfl)]
      simp [htext.1, Spells.scalarText? htext, hname]
    | generic hkind hname =>
      obtain ⟨f, hf, hopen⟩ := exists_kind hkind
      simp [hopen, hf.required hkind, hf.required hname, bind, Except.bind]
    | fixed hkind hname hitems htypes =>
      obtain ⟨f, hf, hopen⟩ := exists_kind hkind
      obtain ⟨cs, hlist, hmap⟩ := hf.mapM hitems htypes hargs
      simp [hopen, hf.required hkind, hf.required hname, hlist, hmap, bind, Except.bind]
    | function hkind hitems htypes =>
      obtain ⟨f, hf, hopen⟩ := exists_kind hkind
      obtain ⟨cs, hlist, hmap⟩ := hf.mapM hitems htypes hargs
      simp [hopen, hf.required hkind, hlist, hmap, bind, Except.bind]

namespace Fields.Complete

variable (hf : f.Complete)
include hf

/-- A type behind a key. -/
theorem typeField {t : Ty} (h : TypeAt n key t) : typeField f key = .ok t := by
  obtain ⟨c, hc, ht⟩ := h
  exact hf.read hc (fun _ => readType_of_typeNode ht) ht.eq_absent

/-- The head of a union or alias is written as a type and read as a head. -/
theorem headField {head : TypeHead} (h : TypeAt n key head.toTy) : headField f key = .ok head := by
  obtain ⟨c, hc, ht⟩ := h
  have hnull : c.isNull = false := by
    rw [← Bool.not_eq_true]
    exact fun hnull => nomatch ht.eq_absent hnull
  rw [Document.headField]
  rcases hf.get_of_at hc with ⟨hlt, hget⟩ | ⟨-, hc⟩
  · simp [hget, hnull, readType_of_typeNode ht, TypeHead.toTy, bind, Except.bind]
  · simp [hnull] at hc

end Fields.Complete

/-- A field or property: a name and a type. -/
theorem readTypedName_of_typedNameNode {t : TypedName} (h : TypedNameNode n t) :
    readTypedName n = .ok t := by
  obtain ⟨hname, htype⟩ := h
  obtain ⟨f, hopen, hf⟩ := exists_fields hname.isMapping
  simp [readTypedName, hopen, hf.required hname, hf.typeField htype, bind, Except.bind]

/-- Several of them. -/
theorem Fields.Complete.typedNames (hf : f.Complete) {items : List Node} {names : List TypedName}
    (hitems : n.Lists key items) (hnames : List.Forall₂ TypedNameNode items names) :
    typedNames f key = .ok names := by
  obtain ⟨cs, hlist, hmap⟩ := hf.mapM hitems hnames fun _ => readTypedName_of_typedNameNode
  simp [Document.typedNames, hlist, hmap, bind, Except.bind]

/-- A tag of a union. -/
theorem readTag_of_tagNode {t : Tag} (h : TagNode n t) : readTag n = .ok t := by
  obtain ⟨hname, items, hitems, hfields⟩ := h
  obtain ⟨f, hopen, hf⟩ := exists_fields hname.isMapping
  simp [readTag, hopen, hf.required hname, hf.typedNames hitems hfields, bind, Except.bind]

/-! ## Imports, parameters and patterns -/

/-- A module that is imported, whichever of its settings are left out. -/
theorem readImport_of_importNode {m : Import} (h : ImportNode n m) : readImport n = .ok m := by
  obtain ⟨hname, hasName, hexposing, hspace⟩ := h
  obtain ⟨f, hopen, hf⟩ := exists_fields hname.isMapping
  have hread : readNamespace f = .ok m.space := by
    rw [readNamespace]
    cases hm : m.space with
    | relative =>
      rw [hm] at hspace
      rcases hspace with h | h
      · simp [hf.text h.maySay, bind, Except.bind]
      · simp [hf.text h, bind, Except.bind]
    | global =>
      rw [hm] at hspace
      simp [hf.text hspace.maySay, bind, Except.bind]
  simp [readImport, hopen, hf.required hname, hf.text hasName, hf.texts hexposing, hread, bind,
    Except.bind]

/-- A parameter, with a name or without. -/
theorem readParam_of_paramNode {p : Param} (h : ParamNode n p) : readParam n = .ok p := by
  obtain ⟨name, type⟩ := p
  obtain ⟨htype, hname⟩ := h
  cases name with
  | some name =>
    obtain ⟨hkind, hname⟩ := hname
    obtain ⟨f, hf, hopen⟩ := exists_kind hkind
    simp [readParam, hopen, hf.required hkind, hf.typeField htype, hf.required hname, bind,
      Except.bind]
  | none =>
    obtain ⟨f, hf, hopen⟩ := exists_kind hname
    simp [readParam, hopen, hf.required hname, hf.typeField htype, bind, Except.bind]

/-- The kind of a shape tells it from all other patterns and parts. -/
def shapeKind : Shape → String
  | .tag .. => "Destructure"
  | .text _ => "StringPattern"
  | .format _ => "FormatStringPattern"
  | .empty => "EmptyList"

/-- The kind that a node says tells which shape it is. -/
theorem ShapeNode.kind {s : Shape} (h : ShapeNode n s) : n.Says "kind" (shapeKind s) := by
  cases s with
  | empty => exact h
  | _ => exact h.1

/-- A shape is read with the fields that its kind asks for. -/
theorem Fields.Complete.readShape (hf : f.Complete) {s : Shape} (h : ShapeNode n s) :
    readShape (shapeKind s) f = .ok (some s) := by
  cases s with
  | tag name fields =>
    obtain ⟨-, hname, hfields⟩ := h
    simp [Document.readShape, shapeKind, hf.required hname, hf.text hfields, bind, Except.bind]
  | text body | format body =>
    simp [Document.readShape, shapeKind, hf.text h.2, bind, Except.bind]
  | empty => rfl

/-- A part of a list pattern: a binder, or a shape. -/
theorem readPart_of_partNode {p : Part} (h : PartNode n p) : readPart n = .ok p := by
  cases p with
  | binder name =>
    obtain ⟨hkind, hname⟩ := h
    obtain ⟨f, hf, hopen⟩ := exists_kind hkind
    simp [readPart, hopen, hf.required hkind, hf.required hname, bind, Except.bind]
  | shape s =>
    have h : ShapeNode n s := h
    obtain ⟨f, hf, hopen⟩ := exists_kind h.kind
    have hkind : shapeKind s ≠ "ValuePart" := by cases s <;> simp [shapeKind]
    simp [readPart, hopen, hf.required h.kind, hkind, hf.readShape h, bind, Except.bind]

/-- A pattern. -/
theorem readPattern_of_patternNode {p : Pattern} (h : PatternNode n p) : readPattern n = .ok p := by
  cases p with
  | shape s =>
    have h : ShapeNode n s := h
    obtain ⟨f, hf, hopen⟩ := exists_kind h.kind
    have hshape := hf.readShape h
    cases s <;> simp_all [readPattern, shapeKind, hf.required h.kind, bind, Except.bind]
  | list parts =>
    obtain ⟨hkind, items, hitems, hparts⟩ := h
    obtain ⟨f, hf, hopen⟩ := exists_kind hkind
    obtain ⟨cs, hlist, hmap⟩ := hf.mapM hitems hparts fun _ => readPart_of_partNode
    simp [readPattern, hopen, hf.required hkind, hlist, hmap, bind, Except.bind]
  | anything =>
    rcases h with hnull | hkind
    · simp [readPattern, hnull]
    · obtain ⟨f, hf, hopen⟩ := exists_kind hkind
      simp [readPattern, hopen, hf.required hkind, bind, Except.bind]

/-! ## Expressions and declarations -/

/-- An empty node represents only an expression that is left out. -/
theorem ExprNode.eq_absent {e : Expr} (h : ExprNode n e) (hnull : n.isNull = true) :
    e = .absent := by
  have hkind : ∀ {kind}, ¬ n.Says "kind" kind := fun h => by simp [h.isMapping.isNull_eq] at hnull
  cases h with
  | absent => rfl
  | scalar h => simp [h.1] at hnull
  | _ => exact absurd ‹n.Says "kind" _› hkind

/-- The node of an object literal is a mapping, so its fields can be looked up. -/
theorem ObjectNode.exists_fields {base : Expr} {fs : List Field} (h : ObjectNode n base fs) :
    ∃ f : Fields n, f.Complete ∧ fields n = .ok f ∧ n.isNull = false := by
  obtain ⟨hmapping, -, -, -, -⟩ := h
  obtain ⟨f, hopen, hf⟩ := Document.exists_fields hmapping
  exact ⟨f, hf, hopen, hmapping.isNull_eq⟩

/-- The node of a lambda is one too. -/
theorem LambdaNode.exists_fields {params : List String} {body : Expr}
    (h : LambdaNode n params body) :
    ∃ f : Fields n, f.Complete ∧ fields n = .ok f ∧ n.isNull = false := by
  obtain ⟨hmapping, -, -, -⟩ := h
  obtain ⟨f, hopen, hf⟩ := Document.exists_fields hmapping
  exact ⟨f, hf, hopen, hmapping.isNull_eq⟩

/-- Everything below the node is read as what it stands for. -/
structure ReadBelow (n : Node) : Prop where
  expr : ∀ {c e}, sizeOf c < sizeOf n → ExprNode c e → readExpr c = .ok e
  decl : ∀ {c d}, sizeOf c < sizeOf n → DeclNode c d → readDecl c = .ok d

namespace ReadBelow

variable (hn : ReadBelow n)
include hn

/-- What can be read in a node can be read further in. -/
theorem mono {c : Node} (hc : sizeOf c < sizeOf n) : ReadBelow c :=
  ⟨fun hlt => hn.expr (Nat.lt_trans hlt hc), fun hlt => hn.decl (Nat.lt_trans hlt hc)⟩

/-- An expression behind a key, or none where the key is missing. -/
theorem readExpr_at (hf : f.Complete) {c : Node} {e : Expr} (h : n.At key c) (he : ExprNode c e) :
    f.read key .absent (fun d => readExpr d.1) = .ok e :=
  hf.read h (fun hlt => hn.expr hlt he) he.eq_absent

/-- A field of an object. -/
theorem readField {x : Field} (h : FieldNode n x) : readField n = .ok x := by
  obtain ⟨hname, hvalue, hnode⟩ := h
  obtain ⟨f, hopen, hf⟩ := exists_fields hname.isMapping
  rw [Document.readField]
  simp [hopen, hf.required hname, hn.readExpr_at hf hvalue hnode, bind, Except.bind]

/-- An object literal: what it extends, and its fields. -/
theorem readObject (hf : f.Complete) {base : Expr} {fs : List Field} (h : ObjectNode n base fs) :
    readObject n f = .ok (base, fs) := by
  obtain ⟨-, hbase, hnode, hnodes, hfields⟩ := h
  obtain ⟨cs, hlist, hmap⟩ := hf.mapM hnodes hfields fun hc => (hn.mono hc).readField
  rw [Document.readObject]
  simp [hn.readExpr_at hf hbase hnode, hlist, hmap, bind, Except.bind]

/-- A lambda: its parameters and its body. -/
theorem readLambda (hf : f.Complete) {params : List String} {body : Expr}
    (h : LambdaNode n params body) : readLambda n f = .ok (params, body) := by
  obtain ⟨-, hparams, hbody, hnode⟩ := h
  rw [Document.readLambda]
  simp [hf.texts hparams, hn.readExpr_at hf hbody hnode, bind, Except.bind]

/-- A branch of a case, with its `let`s. -/
theorem readBranch {b : Branch} (h : BranchNode n b) : readBranch n = .ok b := by
  obtain ⟨hmapping, hpattern, hpatternNode, hlets, hletNodes, hbody, hnode⟩ := h
  obtain ⟨f, hopen, hf⟩ := exists_fields hmapping
  obtain ⟨cs, hlist, hmap⟩ := hf.mapM hlets hletNodes hn.decl
  have hnull : ∀ {c p}, PatternNode c p → c.isNull = true → p = .anything := by
    intro c p hp hc
    cases p with
    | shape s =>
      have hp : ShapeNode c s := hp
      simp [hp.kind.isMapping.isNull_eq] at hc
    | list parts => simp [hp.1.isMapping.isNull_eq] at hc
    | anything => rfl
  rw [Document.readBranch]
  simp [hopen,
    hf.read hpattern (fun _ => readPattern_of_patternNode hpatternNode) (hnull hpatternNode), hlist,
    hmap, hn.readExpr_at hf hbody hnode, bind, Except.bind]

/-- An expression is read as what it is, if everything below it is. -/
theorem readExpr {e : Expr} (h : ExprNode n e) : readExpr n = .ok e := by
  rw [Document.readExpr]
  cases h with
  | absent hnull => simp [hnull]
  | scalar htext => simp [htext.1, Spells.scalarText? htext]
  | value hkind hbody | text hkind hbody | format hkind hbody =>
    obtain ⟨f, hf, hopen⟩ := exists_kind hkind
    simp [hopen, hf.required hkind, hf.text hbody, bind, Except.bind]
  | list hkind hnodes hitems =>
    obtain ⟨f, hf, hopen⟩ := exists_kind hkind
    obtain ⟨cs, hlist, hmap⟩ := hf.mapM hnodes hitems hn.expr
    simp [hopen, hf.required hkind, hlist, hmap, bind, Except.bind]
  | range hkind ha hstart hb hstop =>
    obtain ⟨f, hf, hopen⟩ := exists_kind hkind
    simp [hopen, hf.required hkind, hn.readExpr_at hf ha hstart, hn.readExpr_at hf hb hstop, bind,
      Except.bind]
  | object hkind hobject =>
    obtain ⟨f, hf, hopen⟩ := exists_kind hkind
    simp [hopen, hf.required hkind, hn.readObject hf hobject, bind, Except.bind]
  | construct hkind hname hc hnull =>
    obtain ⟨f, hf, hopen⟩ := exists_kind hkind
    rcases hf.get_of_at hc with ⟨hlt, hget⟩ | ⟨hget, -⟩
    · simp [hopen, hf.required hkind, hf.required hname, Fields.read, hget, hnull, bind,
        Except.bind]
    · simp [hopen, hf.required hkind, hf.required hname, Fields.read, hget, bind, Except.bind]
  | constructWith hkind hname hc hobject =>
    obtain ⟨f, hf, hopen⟩ := exists_kind hkind
    obtain ⟨g, hg, hgopen, hnull⟩ := hobject.exists_fields
    rcases hf.get_of_at hc with ⟨hlt, hget⟩ | ⟨-, hnull'⟩
    · simp [hopen, hf.required hkind, hf.required hname, Fields.read, hget, hnull, hgopen,
        (hn.mono hlt).readObject hg hobject, bind, Except.bind]
    · simp [hnull] at hnull'
  | ifElse hkind ha hcondition hbs hyesLets hb hyes hcs hnoLets hc hno =>
    obtain ⟨f, hf, hopen⟩ := exists_kind hkind
    obtain ⟨yesCs, hyesList, hyesMap⟩ := hf.mapM hbs hyesLets hn.decl
    obtain ⟨noCs, hnoList, hnoMap⟩ := hf.mapM hcs hnoLets hn.decl
    simp [hopen, hf.required hkind, hn.readExpr_at hf ha hcondition, hn.readExpr_at hf hb hyes,
      hyesList, hyesMap, hn.readExpr_at hf hc hno, hnoList, hnoMap, bind, Except.bind]
  | caseOf hkind ha hsubject hnodes hbranches =>
    obtain ⟨f, hf, hopen⟩ := exists_kind hkind
    obtain ⟨cs, hlist, hmap⟩ := hf.mapM hnodes hbranches fun hc => (hn.mono hc).readBranch
    simp [hopen, hf.required hkind, hn.readExpr_at hf ha hsubject, hlist, hmap, bind, Except.bind]
  | binary hkind hoperator ha hleft hb hright =>
    obtain ⟨f, hf, hopen⟩ := exists_kind hkind
    simp [hopen, hf.required hkind, hf.required hoperator, hn.readExpr_at hf ha hleft,
      hn.readExpr_at hf hb hright, bind, Except.bind]
  | unary hkind hoperator ha hoperand =>
    obtain ⟨f, hf, hopen⟩ := exists_kind hkind
    simp [hopen, hf.required hkind, hf.required hoperator, hn.readExpr_at hf ha hoperand, bind,
      Except.bind]
  | leftPipe hkind ha hleft hb hright | rightPipe hkind ha hleft hb hright =>
    obtain ⟨f, hf, hopen⟩ := exists_kind hkind
    simp [hopen, hf.required hkind, hn.readExpr_at hf ha hleft, hn.readExpr_at hf hb hright, bind,
      Except.bind]
  | qualified hkind hpath ha hvalue =>
    obtain ⟨f, hf, hopen⟩ := exists_kind hkind
    simp [hopen, hf.required hkind, hf.texts hpath, hn.readExpr_at hf ha hvalue, bind, Except.bind]
  | call hkind hname hnodes hargs =>
    obtain ⟨f, hf, hopen⟩ := exists_kind hkind
    obtain ⟨cs, hlist, hmap⟩ := hf.mapM hnodes hargs hn.expr
    simp [hopen, hf.required hkind, hf.required hname, hlist, hmap, bind, Except.bind]
  | lambda hkind hlambda =>
    obtain ⟨f, hf, hopen⟩ := exists_kind hkind
    simp [hopen, hf.required hkind, hn.readLambda hf hlambda, bind, Except.bind]
  | lambdaCall hkind hc hlambda hnodes hargs =>
    obtain ⟨f, hf, hopen⟩ := exists_kind hkind
    obtain ⟨g, hg, hgopen, hnull⟩ := hlambda.exists_fields
    obtain ⟨cs, hlist, hmap⟩ := hf.mapM hnodes hargs hn.expr
    rcases hf.get_of_at hc with ⟨hlt, hget⟩ | ⟨-, hnull'⟩
    · simp [hopen, hf.required hkind, hget, hgopen, (hn.mono hlt).readLambda hg hlambda, hlist,
        hmap, bind, Except.bind]
    · simp [hnull] at hnull'

/-- …and so is a declaration. -/
theorem readDecl {d : Decl} (h : DeclNode n d) : readDecl n = .ok d := by
  rw [Document.readDecl]
  cases h with
  | imports hkind hnodes hmodules =>
    obtain ⟨f, hf, hopen⟩ := exists_kind hkind
    obtain ⟨cs, hlist, hmap⟩ := hf.mapM hnodes hmodules fun _ => readImport_of_importNode
    simp [hopen, hf.required hkind, hlist, hmap, bind, Except.bind]
  | exports hkind hnames =>
    obtain ⟨f, hf, hopen⟩ := exists_kind hkind
    simp [hopen, hf.required hkind, hf.texts hnames, bind, Except.bind]
  | union hkind hhead hnodes htags =>
    obtain ⟨f, hf, hopen⟩ := exists_kind hkind
    obtain ⟨cs, hlist, hmap⟩ := hf.mapM hnodes htags fun _ => readTag_of_tagNode
    simp [hopen, hf.required hkind, hf.headField hhead, hlist, hmap, bind, Except.bind]
  | typeAlias hkind hhead hnodes hproperties =>
    obtain ⟨f, hf, hopen⟩ := exists_kind hkind
    simp [hopen, hf.required hkind, hf.headField hhead, hf.typedNames hnodes hproperties, bind,
      Except.bind]
  | function hkind hname hresult hps hparams hls hlets ha hbody =>
    obtain ⟨f, hf, hopen⟩ := exists_kind hkind
    obtain ⟨ps, hpsList, hpsMap⟩ := hf.mapM hps hparams fun _ => readParam_of_paramNode
    obtain ⟨ls, hlsList, hlsMap⟩ := hf.mapM hls hlets hn.decl
    simp [hopen, hf.required hkind, hf.required hname, hf.typeField hresult, hpsList, hpsMap,
      hlsList, hlsMap, hn.readExpr_at hf ha hbody, bind, Except.bind]
  | const hkind hname htype hls hlets ha hvalue =>
    obtain ⟨f, hf, hopen⟩ := exists_kind hkind
    obtain ⟨ls, hlist, hmap⟩ := hf.mapM hls hlets hn.decl
    simp [hopen, hf.required hkind, hf.required hname, hf.typeField htype, hlist, hmap,
      hn.readExpr_at hf ha hvalue, bind, Except.bind]
  | comment hkind hbody | multilineComment hkind hbody =>
    obtain ⟨f, hf, hopen⟩ := exists_kind hkind
    simp [hopen, hf.required hkind, hf.text hbody, bind, Except.bind]

end ReadBelow

/-- **Everything below any node is read as what it stands for.** -/
theorem readBelow (n : Node) : ReadBelow n := by
  induction hsize : sizeOf n using Nat.strongRecOn generalizing n with
  | _ k ih =>
    subst hsize
    exact ⟨fun hc he => (ih _ hc _ rfl).readExpr he, fun hc hd => (ih _ hc _ rfl).readDecl hd⟩

/-- **A module is read back** from any node that represents it. -/
theorem readModule_of_moduleNode {m : Module} (h : ModuleNode n m) : readModule n = .ok m := by
  obtain ⟨hmapping, hname, ⟨nodes, hnodes, hbody⟩, herrors⟩ := h
  obtain ⟨f, hopen, hf⟩ := exists_fields hmapping
  obtain ⟨cs, hlist, hmap⟩ := hf.mapM hnodes hbody (readBelow n).decl
  simp [readModule, hopen, hf.text hname, hlist, hmap, hf.texts herrors, bind, Except.bind]

/-- **Every document of a module is read as this module**, and there is no module without one. -/
theorem moduleNode_read (m : Module) :
    (∃ root, ModuleNode root m) ∧
    ∀ root, ModuleNode root m →
      readModule root = .ok m ∧
      ∀ text, Yaml.readDocument text = some (some root) → Module.ofDocument text = .ok m := by
  refine ⟨exists_moduleNode m, fun root h => ?_⟩
  have hread : readModule root = .ok m := readModule_of_moduleNode h
  refine ⟨hread, fun text htext => ?_⟩
  rw [Module.ofDocument, htext]
  exact hread

/-- A document with fields that mean nothing, with one that is null and with the kind behind the
others, in which the name and the type are left out. -/
theorem moduleNode_read_shuffled :
    readModule (record [("version", word "2"), ("body", .sequence 1 [
        record [("value", word "1"), ("letBody", .empty 1), ("note", word "new"),
          ("name", word "one"), ("kind", word "Const")]])])
      = .ok ⟨"", [.const "one" .absent [] (.value "1")], []⟩ := by
  refine ((moduleNode_read _).2 _ ?_).1
  have hone : DeclNode (record [("value", word "1"), ("letBody", .empty 1), ("note", word "new"),
      ("name", word "one"), ("kind", word "Const")]) (.const "one" .absent [] (.value "1")) :=
    .const (says_record rfl) (says_record rfl) ⟨.empty 1, .inr ⟨rfl, rfl⟩, .absent rfl⟩
      ⟨.empty 1, at_record rfl, .inr ⟨rfl, rfl⟩⟩ .nil (at_record rfl) (.scalar (spells_word "1"))
  exact
    { isMapping := isMapping_record _
      name := ⟨.empty 1, .inr ⟨rfl, rfl⟩, .inr ⟨rfl, rfl⟩⟩
      body := ⟨_, lists_record rfl, .cons hone .nil⟩
      errors := ⟨[], ⟨.empty 1, .inr ⟨rfl, rfl⟩, .inr ⟨rfl, rfl⟩⟩, .nil⟩ }

end Document

end Derw

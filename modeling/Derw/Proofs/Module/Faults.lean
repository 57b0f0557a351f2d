import Derw.Diagnostic
import Derw.Proofs.Module.Reading
import Derw.Proofs.Yaml.Lines

/-!
# Proofs/Module/Faults — a fault is a node's

A fault says what is wrong with a node, and has the line of that node (`Fault.Blames`). The readers
only pass faults on, so a fault of the whole document blames a part of it, which is shown reader by
reader (`Located`) and then down the tree by size. One reader has no node at hand: a call of a
lambda that has no lambda is told without a line (`Fault.Arises.unplaced`).
-/

namespace Derw

open Yaml (Node Entry)

namespace Yaml.Node

variable {n c : Node} {key text : String}

/-- The value that is looked up, which is that of the last entry with this key. -/
def last (n : Node) (key : String) : Option Node := (n.under key).getLast?

/-- There is no value, or one that says nothing. -/
def Lacks (n : Node) (key : String) : Prop := ∀ c ∈ n.last key, c.isNull = true

/-- The value is this text. -/
def Tells (n : Node) (key text : String) : Prop := ∃ c ∈ n.last key, c.Spells text

/-- The last value of a key is one of the values inside the node. -/
theorem within_of_mem_last (h : c ∈ n.last key) : c.Within n := by
  have hc : c ∈ n.under key := List.mem_of_getLast? h
  cases n with
  | mapping l es =>
    obtain ⟨e, he, rfl⟩ := List.mem_map.mp hc
    exact .value (List.mem_of_mem_filter he) (.refl _)
  | _ => simp [under] at hc

end Yaml.Node

/-! ## Blame -/

/-- The node is what was expected. A sequence may be left out. -/
def Expected.Fits (n : Node) : Expected → Prop
  | mapping => n.IsMapping
  | sequence => n.isNull = true ∨ ∃ line items, n = .sequence line items
  | scalar | scalarFor _ => ∃ line style tag text, n = .scalar line style tag text
  | fixedTypeFor _ => ∃ name args, Document.TypeNode n (.fixed name args)

/-- The kinds of a family. -/
def Family.kinds : Family → List String
  | declaration => ["Import", "Export", "UnionType", "TypeAlias", "Function", "Const", "Comment",
    "MultilineComment"]
  | type => ["GenericType", "FixedType", "FunctionType"]
  | expression => ["Value", "StringValue", "FormatStringValue", "ListValue", "ListRange",
    "ObjectLiteral", "Constructor", "IfStatement", "CaseStatement", "InfixExpression",
    "PrefixExpression", "LeftPipe", "RightPipe", "ModuleReference", "FunctionCall", "Lambda",
    "LambdaCall"]
  | pattern => ["Default", "ListDestructure", "Destructure", "StringPattern", "FormatStringPattern",
    "EmptyList"]
  | listPart => ["ValuePart", "Destructure", "StringPattern", "FormatStringPattern", "EmptyList"]
  | argument => ["NamedArg", "UnusedArg"]

namespace Fault

/-- The fault is what is wrong with this node, and has its line. -/
inductive Blames : Fault → Node → Prop
  | expected {n : Node} {what : Expected} (h : ¬ what.Fits n) : Blames (.expected n.line what) n
  | missing {n : Node} {key : String} (hn : n.IsMapping) (h : n.Lacks key) :
    Blames (.missing n.line key) n
  | unknownKind {n : Node} {family : Family} {kind : String} (hkind : n.Tells "kind" kind)
    (h : kind ∉ family.kinds) : Blames (.unknownKind n.line family kind) n
  | unknownNamespace {n : Node} {name : String} (hname : n.Spells name)
    (h : name ∉ ["", "relative", "global"]) : Blames (.unknownNamespace n.line name) n

/-- Where a fault is told depends on the node that it blames, and nothing else does. -/
theorem Blames.line_eq {fault : Fault} {n : Node} (h : fault.Blames n) : fault.line = n.line := by
  cases h <;> rfl

/-- No fault of this kind has a reason that lies elsewhere. -/
theorem Blames.hasCause_eq {fault : Fault} {n : Node} (h : fault.Blames n) :
    fault.hasCause = false := by
  cases h <;> rfl

/-- The fault blames a part of the node, or there is a call in it without the lambda that is called,
which is told without a line. -/
inductive Arises (fault : Fault) (n : Node) : Prop
  | blamed {m : Node} (hm : m.Within n) (h : fault.Blames m)
  | unplaced {m : Node} (hm : m.Within n) (hkind : m.Tells "kind" "LambdaCall")
    (h : m.last "lambda" = none) (hfault : fault = .expected 0 .mapping)

/-- A fault that arises further in arises here too. -/
theorem Arises.mono {fault : Fault} {m n : Node} (h : fault.Arises m) (hmn : m.Within n) :
    fault.Arises n := by
  cases h with
  | blamed hm h => exact .blamed (hm.trans hmn) h
  | unplaced hm hkind h hfault => exact .unplaced (hm.trans hmn) hkind h hfault

end Fault

namespace Document

/-! ## Readers whose faults arise in a node -/

/-- If reading fails, then by a fault that arises in `n`. -/
def Located {α : Type} (n : Node) (x : Except Fault α) : Prop :=
  ∀ fault, x = .error fault → fault.Arises n

section Located

variable {α β : Type} {n : Node}

/-- A reader that succeeds has no fault. -/
theorem located_pure (a : α) : Located n (pure a : Except Fault α) := nofun

/-- A fault that blames the node itself. -/
theorem located_error {fault : Fault} (h : fault.Blames n) :
    Located n (.error fault : Except Fault α) := by
  rintro _ ⟨⟩
  exact .blamed (.refl n) h

/-- Reading a part of a node. -/
theorem Located.mono {m : Node} {x : Except Fault α} (h : Located m x) (hmn : m.Within n) :
    Located n x := fun fault hx => (h fault hx).mono hmn

/-- One reader after the other, the second where the first has succeeded. -/
theorem Located.bind {x : Except Fault α} {g : α → Except Fault β} (hx : Located n x)
    (hg : ∀ a, x = .ok a → Located n (g a)) : Located n (x >>= g) := by
  intro fault h
  cases x with
  | error e =>
    cases h
    exact hx fault rfl
  | ok a => exact hg a rfl fault h

/-- Reading one item after the other, up to the first fault. -/
theorem located_mapM {read : α → Except Fault β} {cs : List α}
    (h : ∀ c ∈ cs, Located n (read c)) : Located n (cs.mapM read) := by
  induction cs with
  | nil => exact located_pure _
  | cons c cs ih =>
    obtain ⟨hc, hcs⟩ := List.forall_mem_cons.mp h
    rw [List.mapM_cons]
    exact hc.bind fun _ _ => (ih hcs).bind fun _ _ => located_pure _

end Located

/-! ## Fields -/

variable {n : Node} {f : Fields n} {key : String} {α : Type}

/-- The fields are those of the mapping `n`. -/
structure Fields.Faithful (f : Fields n) : Prop where
  isMapping : n.IsMapping
  line_eq : f.line = n.line
  complete : f.Complete

/-- Reading the fields of a part of the node. -/
theorem located_fieldsIn {c : Node} (hc : c.Within n) {g : Fields c → Except Fault α}
    (h : ∀ f, f.Faithful → Located n (g f)) : Located n (fields c >>= g) := by
  cases c with
  | mapping l es =>
    obtain ⟨f, hopen, hf⟩ := exists_fields ⟨l, es, rfl⟩
    have hline : f.line = l := by
      cases hopen
      rfl
    rw [hopen]
    exact h f ⟨⟨l, es, rfl⟩, hline, hf⟩
  | _ =>
    refine Located.mono (located_error (.expected ?_)) hc
    rintro ⟨_, _, ⟨⟩⟩

/-- Reading its own fields. -/
theorem located_fields {g : Fields n → Except Fault α} (h : ∀ f, f.Faithful → Located n (g f)) :
    Located n (fields n >>= g) := located_fieldsIn (.refl n) h

/-- Reading its items: it is a list, empty, or to blame. -/
theorem located_items (c : Node) : Located c (items c) := by
  cases c with
  | sequence => exact located_pure _
  | _ =>
    rw [items]
    · split
      · exact located_pure _
      · refine located_error (.expected ?_)
        rintro (hnull | ⟨_, _, ⟨⟩⟩)
        contradiction
    · rintro _ _ ⟨⟩

/-- Items that have been read are inside the node. -/
theorem within_of_mem_items {c : Node} {ds : List (Child c)} (h : items c = .ok ds) {d : Child c}
    (hd : d ∈ ds) : d.1.Within c := by
  cases c with
  | sequence =>
    cases h
    obtain ⟨e, -, rfl⟩ := List.mem_map.mp hd
    exact .item e.2 (.refl _)
  | _ =>
    rw [items] at h
    · split at h
      · cases h
        cases hd
      · cases h
    · rintro _ _ ⟨⟩

/-- What has no text is no scalar. -/
theorem not_scalar {c : Node} (h : scalarText? c = none) :
    ¬ ∃ line style tag text, c = .scalar line style tag text := by
  rintro ⟨line, style, tag, text, rfl⟩
  cases h

/-- Reading a text. -/
theorem located_readText (c : Node) : Located c (readText c) := by
  rw [readText]
  split
  · exact located_pure _
  · next h => exact located_error (.expected (not_scalar h))

/-- A field that has been read as a text was one, unless it was empty. -/
theorem Fields.spells_of_text {c : Child n} {s : String} (hget : f.get key = some c)
    (hnull : ¬ c.1.isNull = true) (h : f.text key = .ok s) : c.1.Spells s := by
  obtain ⟨c, hlt⟩ := c
  rw [Fields.text, hget] at h
  cases c <;> simp_all [scalarText?, Node.Spells]

namespace Fields.Faithful

variable (hf : f.Faithful)
include hf

/-- What is looked up is the last value of the key. -/
theorem last_eq (key : String) : n.last key = (f.get key).map (·.1) := (hf.complete key).symm

/-- So it is one of its values. -/
theorem mem_last {c : Child n} (h : f.get key = some c) : c.1 ∈ n.last key := by
  rw [hf.last_eq, h]
  rfl

/-- And it is inside the node. -/
theorem within {c : Child n} (h : f.get key = some c) : c.1.Within n :=
  Node.within_of_mem_last (hf.mem_last h)

/-- Reading a field with a reader of its own. -/
theorem read {absent : α} {read : Child n → Except Fault α}
    (h : ∀ c : Child n, c.1.Within n → Located n (read c)) :
    Located n (f.read key absent read) := by
  rw [Fields.read]
  split
  · exact located_pure _
  · next c hc => exact h c (hf.within hc)

/-- Reading a text that may be left out. -/
theorem text (key : String) : Located n (f.text key) := by
  rw [Fields.text]
  split
  · exact located_pure _
  · next c hc =>
    refine Located.mono ?_ (hf.within hc)
    split
    · exact located_pure _
    · split
      · exact located_pure _
      · next h => exact located_error (.expected (not_scalar h))

/-- A key that is not found is not there. -/
theorem lacks (h : f.get key = none) : n.Lacks key := by
  intro c hc
  rw [hf.last_eq, h] at hc
  cases hc

/-- A key with an empty value is as good as none. -/
theorem lacks_of_isNull {c : Child n} (hget : f.get key = some c) (hnull : c.1.isNull = true) :
    n.Lacks key := by
  intro d hd
  rw [hf.last_eq, hget] at hd
  cases hd
  exact hnull

/-- To miss a key is to blame the node. -/
theorem missing (h : n.Lacks key) : Located n (.error (.missing f.line key) : Except Fault α) := by
  rw [hf.line_eq]
  exact located_error (.missing hf.isMapping h)

/-- Reading a text that must not be left out. -/
theorem required (key : String) : Located n (f.required key) := by
  rw [Fields.required]
  split
  · next h => exact hf.missing (hf.lacks h)
  · next c hc =>
    split
    · next hnull => exact hf.missing (hf.lacks_of_isNull hc hnull)
    · exact hf.text key

/-- A text that has been read is told by the node. -/
theorem tells {s : String} (h : f.required key = .ok s) : n.Tells key s := by
  rw [Fields.required] at h
  split at h
  · cases h
  · next c hc =>
    split at h
    · cases h
    · next hnull => exact ⟨c.1, hf.mem_last hc, spells_of_text hc hnull h⟩

/-- The items of a field are parts of the node. -/
theorem list {g : List (Child n) → Except Fault α}
    (h : ∀ cs : List (Child n), (∀ c ∈ cs, c.1.Within n) → Located n (g cs)) :
    Located n (f.list key >>= g) := by
  rw [Fields.list]
  split
  · exact h [] (by simp)
  · next c hc =>
    have hitems : Located n (items c.1) := (located_items c.1).mono (hf.within hc)
    cases hds : items c.1 with
    | error fault =>
      rw [hds] at hitems
      rintro _ ⟨⟩
      exact hitems fault rfl
    | ok ds =>
      refine h _ fun d hd => ?_
      obtain ⟨e, he, rfl⟩ := List.mem_map.mp hd
      exact (within_of_mem_items hds he).trans (hf.within hc)

/-- …and so it is enough to look at each. -/
theorem each {β : Type} {read : Child n → Except Fault β} {g : List β → Except Fault α}
    (hread : ∀ c : Child n, c.1.Within n → Located n (read c)) (hg : ∀ xs, Located n (g xs)) :
    Located n (f.list key >>= fun cs => cs.mapM read >>= g) :=
  hf.list fun _ hcs => (located_mapM fun c hc => hread c (hcs c hc)).bind fun xs _ => hg xs

/-- Reading a list of texts. -/
theorem texts (key : String) : Located n (f.texts key) :=
  hf.list fun _ hcs => located_mapM fun c hc => (located_readText c.1).mono (hcs c hc)

end Fields.Faithful

/-! ## Types -/

/-- Reading a type, by recursion on the node. -/
theorem located_readType (n : Node) : Located n (readType n) := by
  induction hsize : sizeOf n using Nat.strongRecOn generalizing n with
  | _ k ih =>
    subst hsize
    have hargs : ∀ c : Child n, c.1.Within n → Located n (readType c.1) :=
      fun c hc => (ih _ c.2 _ rfl).mono hc
    rw [readType]
    split
    · exact located_pure _
    split
    · exact located_pure _
    refine located_fields fun f hf => (hf.required _).bind fun kind hkind => ?_
    split
    · exact (hf.required _).bind fun _ _ => located_pure _
    · exact (hf.required _).bind fun _ _ => hf.each hargs fun _ => located_pure _
    · exact hf.each hargs fun _ => located_pure _
    · refine located_error (.unknownKind (hf.tells hkind) ?_)
      simp_all [Family.kinds]

namespace Fields.Faithful

variable (hf : f.Faithful)
include hf

/-- Reading the type behind a key. -/
theorem typeField (key : String) : Located n (typeField f key) :=
  hf.read fun c hc => (located_readType c.1).mono hc

/-- Reading the head of a union or alias. -/
theorem headField (key : String) : Located n (headField f key) := by
  rw [Document.headField]
  split
  · next h => exact hf.missing (hf.lacks h)
  · next c hc =>
    split
    · next hnull => exact hf.missing (hf.lacks_of_isNull hc hnull)
    · refine Located.mono ((located_readType c.1).bind fun t ht => ?_) (hf.within hc)
      split
      · exact located_pure _
      · next hfixed =>
        refine located_error (.expected ?_)
        rintro ⟨name, args, htype⟩
        rw [readType_of_typeNode htype] at ht
        exact hfixed name args (Except.ok.inj ht).symm

end Fields.Faithful

/-- Reading a field or property. -/
theorem located_readTypedName (n : Node) : Located n (readTypedName n) :=
  located_fields fun _ hf => (hf.required _).bind fun _ _ =>
    (hf.typeField _).bind fun _ _ => located_pure _

/-- Reading several of them. -/
theorem Fields.Faithful.typedNames (hf : f.Faithful) (key : String) :
    Located n (typedNames f key) :=
  hf.list fun _ hcs => located_mapM fun c hc => (located_readTypedName c.1).mono (hcs c hc)

/-- Reading a tag. -/
theorem located_readTag (n : Node) : Located n (readTag n) :=
  located_fields fun _ hf => (hf.required _).bind fun _ _ =>
    (hf.typedNames _).bind fun _ _ => located_pure _

/-! ## Imports, parameters and patterns -/

/-- Reading which kind of module is imported: one of two words, or to blame. -/
theorem Fields.Faithful.readNamespace (hf : f.Faithful) : Located n (readNamespace f) := by
  rw [Document.readNamespace]
  refine (hf.text _).bind fun name hname => ?_
  split
  · exact located_pure _
  · exact located_pure _
  · exact located_pure _
  · next hempty _ _ =>
    -- A namespace that is left out or null is the empty one, so there is a node to blame.
    cases hget : f.get "namespace" with
    | none =>
      rw [Fields.text, hget] at hname
      exact absurd (Except.ok.inj hname).symm hempty
    | some c =>
      have hnull : ¬ c.1.isNull = true := by
        intro hnull
        rw [Fields.text, hget] at hname
        exact hempty (by simpa [hnull] using hname.symm)
      refine Located.mono (located_error (.unknownNamespace ?_ ?_)) (hf.within hget)
      · exact spells_of_text hget hnull hname
      · simp_all

/-- Reading an import. -/
theorem located_readImport (n : Node) : Located n (readImport n) :=
  located_fields fun _ hf => (hf.required _).bind fun _ _ => (hf.text _).bind fun _ _ =>
    (hf.texts _).bind fun _ _ => hf.readNamespace.bind fun _ _ => located_pure _

/-- Reading a parameter, which has one of two kinds. -/
theorem located_readParam (n : Node) : Located n (readParam n) := by
  refine located_fields fun f hf => (hf.required _).bind fun kind hkind =>
    (hf.typeField _).bind fun type _ => ?_
  split
  · exact (hf.required _).bind fun _ _ => located_pure _
  · exact located_pure _
  · refine located_error (.unknownKind (hf.tells hkind) ?_)
    simp_all [Family.kinds]

/-- Reading what a shape of this kind asks for. -/
theorem Fields.Faithful.readShape (hf : f.Faithful) (kind : String) :
    Located n (readShape kind f) := by
  unfold Document.readShape
  split
  · exact (hf.required _).bind fun _ _ => (hf.text _).bind fun _ _ => located_pure _
  · exact (hf.text _).bind fun _ _ => located_pure _
  · exact (hf.text _).bind fun _ _ => located_pure _
  · exact located_pure _
  · exact located_pure _

/-- What is no shape has none of their kinds. -/
theorem not_mem_of_readShape {kind : String} (h : readShape kind f = .ok none) :
    kind ∉ ["Destructure", "StringPattern", "FormatStringPattern", "EmptyList"] := by
  have hsome : ∀ {x : Except Fault String} {g : String → Shape},
      (do return some (g (← x))) ≠ Except.ok none := by
    rintro (_ | _) _ ⟨⟩
  unfold readShape at h
  split at h
  · cases hname : f.required "constructor" with
    | error fault => rw [hname] at h; cases h
    | ok name => rw [hname] at h; exact absurd h hsome
  · exact absurd h hsome
  · exact absurd h hsome
  · cases h
  · simp_all

/-- Reading a part of a list pattern. -/
theorem located_readPart (n : Node) : Located n (readPart n) := by
  refine located_fields fun f hf => (hf.required _).bind fun kind hkind => ?_
  split
  · exact (hf.required _).bind fun _ _ => located_pure _
  · refine (hf.readShape kind).bind fun shape hshape => ?_
    split
    · exact located_pure _
    · have hkinds := not_mem_of_readShape hshape
      refine located_error (.unknownKind (hf.tells hkind) ?_)
      simp_all [Family.kinds]

/-- Reading a pattern. -/
theorem located_readPattern (n : Node) : Located n (readPattern n) := by
  rw [readPattern]
  split
  · exact located_pure _
  refine located_fields fun f hf => (hf.required _).bind fun kind hkind => ?_
  split
  · exact located_pure _
  · exact hf.each (fun c hc => (located_readPart c.1).mono hc) fun _ => located_pure _
  · refine (hf.readShape kind).bind fun shape hshape => ?_
    split
    · exact located_pure _
    · have hkinds := not_mem_of_readShape hshape
      refine located_error (.unknownKind (hf.tells hkind) ?_)
      simp_all [Family.kinds]

/-! ## Expressions and declarations -/

/-- The faults of everything below the node are located. -/
structure LocatedBelow (n : Node) : Prop where
  expr : ∀ {c : Node}, sizeOf c < sizeOf n → Located c (readExpr c)
  decl : ∀ {c : Node}, sizeOf c < sizeOf n → Located c (readDecl c)

namespace LocatedBelow

variable (hn : LocatedBelow n)
include hn

/-- What is known inside a node is known further in. -/
theorem mono {c : Node} (hc : sizeOf c < sizeOf n) : LocatedBelow c :=
  ⟨fun hlt => hn.expr (Nat.lt_trans hlt hc), fun hlt => hn.decl (Nat.lt_trans hlt hc)⟩

/-- Reading an expression further in. -/
theorem exprIn (c : Child n) (hc : c.1.Within n) : Located n (readExpr c.1) :=
  (hn.expr c.2).mono hc

/-- Reading a declaration further in. -/
theorem declIn (c : Child n) (hc : c.1.Within n) : Located n (readDecl c.1) :=
  (hn.decl c.2).mono hc

/-- Reading the expression behind a key, if there is one. -/
theorem exprAt (hf : f.Faithful) (key : String) :
    Located n (f.read key .absent fun c => readExpr c.1) :=
  hf.read hn.exprIn

/-- Reading a field of an object. -/
theorem readField : Located n (readField n) := by
  rw [Document.readField]
  exact located_fields fun _ hf => (hf.required _).bind fun _ _ =>
    (hn.exprAt hf _).bind fun _ _ => located_pure _

/-- Reading an object literal. -/
theorem readObject (hf : f.Faithful) : Located n (readObject n f) := by
  rw [Document.readObject]
  exact (hn.exprAt hf _).bind fun _ _ =>
    hf.each (fun c hc => (hn.mono c.2).readField.mono hc) fun _ => located_pure _

/-- Reading a lambda. -/
theorem readLambda (hf : f.Faithful) : Located n (readLambda n f) := by
  rw [Document.readLambda]
  exact (hf.texts _).bind fun _ _ => (hn.exprAt hf _).bind fun _ _ => located_pure _

/-- Reading a branch. -/
theorem readBranch : Located n (readBranch n) := by
  rw [Document.readBranch]
  exact located_fields fun _ hf =>
    (hf.read fun c hc => (located_readPattern c.1).mono hc).bind fun _ _ =>
      hf.each hn.declIn fun _ => (hn.exprAt hf _).bind fun _ _ => located_pure _

/-- Reading an expression, kind by kind. -/
theorem readExpr : Located n (readExpr n) := by
  rw [Document.readExpr]
  split
  · exact located_pure _
  split
  · exact located_pure _
  refine located_fields fun f hf => (hf.required _).bind fun kind hkind => ?_
  have hat := hn.exprAt hf
  split
  · exact (hf.text _).bind fun _ _ => located_pure _
  · exact (hf.text _).bind fun _ _ => located_pure _
  · exact (hf.text _).bind fun _ _ => located_pure _
  · exact hf.each hn.exprIn fun _ => located_pure _
  · exact (hat _).bind fun _ _ => (hat _).bind fun _ _ => located_pure _
  · exact (hn.readObject hf).bind fun _ _ => located_pure _
  · -- The record of a constructor is read from the child that holds it.
    refine (hf.required _).bind fun name _ => hf.read fun c hc => Located.mono ?_ hc
    obtain ⟨c, hlt⟩ := c
    dsimp only
    split
    · exact located_pure _
    · exact located_fields fun g hg => ((hn.mono hlt).readObject hg).bind fun _ _ => located_pure _
  · exact (hat _).bind fun _ _ => (hat _).bind fun _ _ => hf.each hn.declIn fun _ =>
      (hat _).bind fun _ _ => hf.each hn.declIn fun _ => located_pure _
  · exact (hat _).bind fun _ _ =>
      hf.each (fun c hc => (hn.mono c.2).readBranch.mono hc) fun _ => located_pure _
  · exact (hf.required _).bind fun _ _ => (hat _).bind fun _ _ => (hat _).bind fun _ _ =>
      located_pure _
  · exact (hf.required _).bind fun _ _ => (hat _).bind fun _ _ => located_pure _
  · exact (hat _).bind fun _ _ => (hat _).bind fun _ _ => located_pure _
  · exact (hat _).bind fun _ _ => (hat _).bind fun _ _ => located_pure _
  · exact (hf.texts _).bind fun _ _ => (hat _).bind fun _ _ => located_pure _
  · exact (hf.required _).bind fun _ _ => hf.each hn.exprIn fun _ => located_pure _
  · exact (hn.readLambda hf).bind fun _ _ => located_pure _
  · -- So is the lambda of a call; without that child there is no node to blame.
    split
    · next hget =>
      rintro _ ⟨⟩
      refine .unplaced (.refl n) (hf.tells hkind) ?_ rfl
      rw [hf.last_eq, hget]
      rfl
    · next c hlt hget =>
      exact located_fieldsIn (hf.within hget) fun g hg =>
        (((hn.mono hlt).readLambda hg).mono (hf.within hget)).bind fun _ _ =>
          hf.each hn.exprIn fun _ => located_pure _
  · refine located_error (.unknownKind (hf.tells hkind) ?_)
    simp_all [Family.kinds]

/-- Reading a declaration, kind by kind. -/
theorem readDecl : Located n (readDecl n) := by
  rw [Document.readDecl]
  refine located_fields fun f hf => (hf.required _).bind fun kind hkind => ?_
  have hbody := hn.exprAt hf
  split
  · exact hf.each (fun c hc => (located_readImport c.1).mono hc) fun _ => located_pure _
  · exact (hf.texts _).bind fun _ _ => located_pure _
  · exact (hf.headField _).bind fun _ _ =>
      hf.each (fun c hc => (located_readTag c.1).mono hc) fun _ => located_pure _
  · exact (hf.headField _).bind fun _ _ => (hf.typedNames _).bind fun _ _ => located_pure _
  · exact (hf.required _).bind fun _ _ => (hf.typeField _).bind fun _ _ =>
      hf.each (fun c hc => (located_readParam c.1).mono hc) fun _ =>
        hf.each hn.declIn fun _ => (hbody _).bind fun _ _ => located_pure _
  · exact (hf.required _).bind fun _ _ => (hf.typeField _).bind fun _ _ =>
      hf.each hn.declIn fun _ => (hbody _).bind fun _ _ => located_pure _
  · exact (hf.text _).bind fun _ _ => located_pure _
  · exact (hf.text _).bind fun _ _ => located_pure _
  · refine located_error (.unknownKind (hf.tells hkind) ?_)
    simp_all [Family.kinds]

end LocatedBelow

/-- **All that is read in a node is blamed on a node in it.** By induction on its size. -/
theorem locatedBelow (n : Node) : LocatedBelow n := by
  induction hsize : sizeOf n using Nat.strongRecOn generalizing n with
  | _ k ih =>
    subst hsize
    exact ⟨fun hc => (ih _ hc _ rfl).readExpr, fun hc => (ih _ hc _ rfl).readDecl⟩

/-- **A root node is read, or a fault arises in it.** -/
theorem located_readModule (n : Node) : Located n (readModule n) := by
  have hn : LocatedBelow n := locatedBelow n
  exact located_fields fun f hf => (hf.text _).bind fun _ _ => hf.each hn.declIn fun _ =>
    (hf.texts _).bind fun _ _ => located_pure _

end Document

/-- **A text that is a document, but no module, has a fault with a place in it**: the fault blames a
node of the document and has the line of this node, unless there is a call in the document without
the lambda that is called. -/
theorem Module.ofDocument_fault {text : String} {root : Node} {fault : Fault}
    (hroot : Yaml.readDocument text = some (some root))
    (hfault : Module.ofDocument text = .error fault) :
    fault.diagnostic.code = "D001" ∧ fault.diagnostic.cause = none ∧
    ((∃ n : Node, n.Within root ∧ fault.Blames n ∧ 1 ≤ fault.diagnostic.line ∧
        fault.diagnostic.line = n.line) ∨
      fault = .expected 0 .mapping ∧
        ∃ n : Node, n.Within root ∧ n.Tells "kind" "LambdaCall" ∧ n.last "lambda" = none) := by
  have harises : fault.Arises root := by
    rw [Module.ofDocument, hroot] at hfault
    exact Document.located_readModule root fault hfault
  cases harises with
  | @blamed n hn h =>
    have hpos : (1 : Int) ≤ n.line := by exact_mod_cast Yaml.readDocument_numbered hroot n hn
    have hline : fault.diagnostic.line = n.line := by simp [Fault.diagnostic, h.line_eq]
    refine ⟨rfl, by simp [Fault.diagnostic, h.hasCause_eq], .inl ⟨n, hn, h, ?_, hline⟩⟩
    rw [hline]
    exact hpos
  | @unplaced n hn hkind h hfault =>
    subst hfault
    exact ⟨rfl, rfl, .inr ⟨rfl, n, hn, hkind, h⟩⟩

/-- The tokens of a text decide what document it is. -/
theorem Yaml.readDocument_of_scan {text : String} {root : Option Node} (ts : List Yaml.Token)
    (hts : (Yaml.glyphs text).map Yaml.scan = some ts) (h : Yaml.firstDocument ts = some root) :
    Yaml.readDocument text = some root := by
  obtain ⟨gs, hgs, rfl⟩ := Option.map_eq_some_iff.mp hts
  rw [Yaml.readDocument, hgs]
  exact h

/-- A scalar without quotes and tag. -/
def Yaml.Node.bare (line : Nat) (text : String) : Node := .scalar line .bare none text

/-- A body that is no sequence, in the second line. -/
theorem Module.ofDocument_fault_body :
    let root : Node := .mapping 1 [.mk (.bare 1 "name") (.bare 1 "M"),
      .mk (.bare 2 "body") (.bare 2 "1")]
    Yaml.readDocument "name: M\nbody: 1" = some (some root) ∧
      Module.ofDocument "name: M\nbody: 1" = .error (.expected 2 .sequence) ∧
      ∃ n : Node, n.Within root ∧ (Fault.expected 2 .sequence).Blames n ∧ n.line = 2 := by
  intro root
  have hroot : Yaml.readDocument "name: M\nbody: 1" = some (some root) :=
    Yaml.readDocument_of_scan [⟨0, .blockMapping⟩,
      ⟨0, .key⟩, ⟨0, .scalar .bare "name"⟩, ⟨0, .value⟩, ⟨0, .scalar .bare "M"⟩,
      ⟨1, .key⟩, ⟨1, .scalar .bare "body"⟩, ⟨1, .value⟩, ⟨1, .scalar .bare "1"⟩,
      ⟨2, .blockEnd⟩, ⟨2, .textEnd⟩] (by decide +kernel) rfl
  have hfault : Module.ofDocument "name: M\nbody: 1" = .error (.expected 2 .sequence) := by
    rw [Module.ofDocument, hroot]
    rfl
  obtain ⟨-, -, ⟨n, hn, hblames, -, -⟩ | ⟨⟨⟩, -⟩⟩ := Module.ofDocument_fault hroot hfault
  exact ⟨hroot, hfault, n, hn, hblames, hblames.line_eq.symm⟩

/-- A call without its lambda is told without a line. -/
theorem Module.ofDocument_unplaced :
    let text := "body:\n- kind: Const\n  name: c\n  value:\n    kind: LambdaCall"
    ∃ root fault, Yaml.readDocument text = some (some root) ∧
      Module.ofDocument text = .error fault ∧ fault.diagnostic.line = 0 := by
  intro text
  let call : Node := .mapping 5 [.mk (.bare 5 "kind") (.bare 5 "LambdaCall")]
  let const : Node := .mapping 2 [.mk (.bare 2 "kind") (.bare 2 "Const"),
    .mk (.bare 3 "name") (.bare 3 "c"), .mk (.bare 4 "value") call]
  let root : Node := .mapping 1 [.mk (.bare 1 "body") (.sequence 2 [const])]
  have hroot : Yaml.readDocument text = some (some root) :=
    Yaml.readDocument_of_scan [⟨0, .blockMapping⟩,
      ⟨0, .key⟩, ⟨0, .scalar .bare "body"⟩, ⟨0, .value⟩, ⟨1, .entry⟩, ⟨1, .blockMapping⟩,
      ⟨1, .key⟩, ⟨1, .scalar .bare "kind"⟩, ⟨1, .value⟩, ⟨1, .scalar .bare "Const"⟩,
      ⟨2, .key⟩, ⟨2, .scalar .bare "name"⟩, ⟨2, .value⟩, ⟨2, .scalar .bare "c"⟩,
      ⟨3, .key⟩, ⟨3, .scalar .bare "value"⟩, ⟨3, .value⟩, ⟨4, .blockMapping⟩,
      ⟨4, .key⟩, ⟨4, .scalar .bare "kind"⟩, ⟨4, .value⟩, ⟨4, .scalar .bare "LambdaCall"⟩,
      ⟨5, .blockEnd⟩, ⟨5, .blockEnd⟩, ⟨5, .blockEnd⟩, ⟨5, .textEnd⟩] (by decide +kernel) rfl
  have hcall : Document.readExpr call = .error (.expected 0 .mapping) := by
    rw [Document.readExpr]
    rfl
  have hconst : Document.readDecl const = .error (.expected 0 .mapping) := by
    rw [Document.readDecl]
    change (Document.readExpr call >>= _) = _
    rw [hcall]
    rfl
  have hfault : Module.ofDocument text = .error (.expected 0 .mapping) := by
    rw [Module.ofDocument, hroot]
    change ([const].mapM Document.readDecl >>= _) = _
    rw [List.mapM_cons, hconst]
    rfl
  exact ⟨root, _, hroot, hfault, rfl⟩

end Derw

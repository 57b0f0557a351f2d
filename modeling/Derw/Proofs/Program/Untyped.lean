import Derw.Script.Program
import Mathlib.Data.List.Forall2

/-!
# Proofs/Program/Untyped — an untyped program does not depend on types

`untyped` takes every annotation out of a module, in nested `let`s too: the types of constants,
parameters and results, those of the fields of tags and aliases, the parameters of an alias and all
of the head of a union, which names nothing but a type. Two modules differ in types only if they are
the same without them.

The program without types is then the same text. Types are carried into the lowered program and only
its writer leaves them out, so the two programs are not the same trees. They are written alike
(`Term.Alike`), whatever stands around them, and that is what goes through the lowering
(`alike_lower`), also for what a pipe hands on.
-/

namespace Derw

/-! ## Modules without types -/

/-- A parameter keeps its name, or its lack of one. -/
def Param.untyped (p : Param) : Param := ⟨p.name, .absent⟩

/-- A property of an alias, or a field of a tag. -/
def TypedName.untyped (f : TypedName) : TypedName := ⟨f.name, .absent⟩

/-- A tag keeps the names of its fields, which its constructor takes. -/
def Tag.untyped (t : Tag) : Tag := ⟨t.name, t.fields.map TypedName.untyped⟩

mutual

/-- Expressions have no types of their own: what they lose are those of the `let`s inside them. -/
def Expr.untyped : Expr → Expr
  | .absent => .absent
  | .value body => .value body
  | .text body => .text body
  | .format body => .format body
  | .list items => .list (untypedExprs items)
  | .range start stop => .range start.untyped stop.untyped
  | .object base fields => .object base.untyped (untypedFields fields)
  | .construct name => .construct name
  | .constructWith name base fields => .constructWith name base.untyped (untypedFields fields)
  | .ifElse condition yesLets yes noLets no =>
    .ifElse condition.untyped (untypedDecls yesLets) yes.untyped (untypedDecls noLets) no.untyped
  | .caseOf subject branches => .caseOf subject.untyped (untypedBranches branches)
  | .binary operator left right => .binary operator left.untyped right.untyped
  | .unary operator operand => .unary operator operand.untyped
  | .leftPipe left right => .leftPipe left.untyped right.untyped
  | .rightPipe target value => .rightPipe target.untyped value.untyped
  | .qualified path value => .qualified path value.untyped
  | .call name args => .call name (untypedExprs args)
  | .lambda params body => .lambda params body.untyped
  | .lambdaCall params body args => .lambdaCall params body.untyped (untypedExprs args)

/-- The items of a list, or arguments. -/
def untypedExprs : List Expr → List Expr
  | [] => []
  | e :: es => e.untyped :: untypedExprs es

def untypedFields : List Field → List Field
  | [] => []
  | .mk name value :: fs => .mk name value.untyped :: untypedFields fs

def untypedBranches : List Branch → List Branch
  | [] => []
  | .mk pattern lets body :: bs =>
    .mk pattern (untypedDecls lets) body.untyped :: untypedBranches bs

/-- A union keeps its tags only. Its head names a type, and no value. -/
def Decl.untyped : Decl → Decl
  | .imports modules => .imports modules
  | .exports names => .exports names
  | .union _ tags => .union ⟨"", []⟩ (tags.map Tag.untyped)
  | .typeAlias head properties => .typeAlias ⟨head.name, []⟩ (properties.map TypedName.untyped)
  | .function name params _ lets body =>
    .function name (params.map Param.untyped) .absent (untypedDecls lets) body.untyped
  | .const name _ lets value => .const name .absent (untypedDecls lets) value.untyped
  | .comment body => .comment body
  | .multilineComment body => .multilineComment body

/-- The declarations of a module, or the `let`s of a body. -/
def untypedDecls : List Decl → List Decl
  | [] => []
  | d :: ds => d.untyped :: untypedDecls ds

end

/-- So what is known of mapped lists applies. -/
theorem untypedDecls_eq_map (ds : List Decl) : untypedDecls ds = ds.map Decl.untyped := by
  induction ds with
  | nil => rfl
  | cons d ds ih => rw [untypedDecls, ih, List.map_cons]

/-- A body with `let`s keeps having some, so a constant is wrapped in a function as before. -/
theorem isEmpty_untypedDecls (ds : List Decl) : (untypedDecls ds).isEmpty = ds.isEmpty := by
  cases ds <;> rfl

/-- The module without its types. -/
def Module.untyped (m : Module) : Module := { m with body := untypedDecls m.body }

namespace Script

/-- Whether an expression is left out decides how others are written. -/
theorem isAbsent_untyped (e : Expr) : isAbsent e.untyped = isAbsent e := by cases e <;> rfl

/-- An arrow puts brackets around a body that is an object. -/
theorem isObject_untyped (e : Expr) : isObject e.untyped = isObject e := by cases e <;> rfl

/-! ## Programs that are written alike -/

section

variable (s : Style)

/-- Terms with the same text, wherever they stand. -/
def Term.Alike (t u : Term) : Prop :=
  ∀ depth parent right, t.print s depth parent right = u.print s depth parent right

/-- The same for terms with commas between them. -/
def TermsAlike (ts us : List Term) : Prop := ∀ depth, printTerms s depth ts = printTerms s depth us

def EntriesAlike (es fs : List Entry) : Prop :=
  ∀ depth, printEntries s depth es = printEntries s depth fs

/-- Statements with the same texts, one by one. -/
def StmtsAlike (ts us : List Stmt) : Prop :=
  ∀ depth, ts.map (·.print s depth) = us.map (·.print s depth)

/-- Branches of the same patterns, with bodies that are written alike. -/
def BranchesAlike (bs cs : List (Pattern × List Stmt)) : Prop :=
  List.Forall₂ (fun b c => b.1 = c.1 ∧ StmtsAlike s b.2 c.2) bs cs

/-- Both forms of a lowered expression are written alike. -/
structure Lowered.Alike (k l : Lowered) : Prop where
  term : k.term.Alike s l.term
  stmts : StmtsAlike s k.stmts l.stmts

/-- What a pipe hands on, in the same role and written alike. -/
inductive Inflow.Alike : Inflow → Inflow → Prop
  | nothing : Alike .nothing .nothing
  | argument {a b : Term} (h : a.Alike s b) : Alike (.argument a) (.argument b)
  | chain {a b : Term} (h : a.Alike s b) : Alike (.chain a) (.chain b)

end

variable {s : Style}

/-- Statements are written one after the other, with nothing that depends on their neighbours. -/
theorem printStmts_eq_join (depth : Nat) (ts : List Stmt) :
    printStmts s depth ts = String.join (ts.map (·.print s depth)) := by
  induction ts with
  | nil => rfl
  | cons t ts ih => rw [printStmts, ih, List.map_cons, String.join_cons]

/-- So a block of them is written alike. -/
theorem StmtsAlike.printStmts {ts us : List Stmt} (h : StmtsAlike s ts us) (depth : Nat) :
    printStmts s depth ts = printStmts s depth us := by
  rw [printStmts_eq_join, printStmts_eq_join, h depth]

/-- `let`s before a body. -/
theorem StmtsAlike.append {ts us vs ws : List Stmt} (h : StmtsAlike s ts us)
    (h' : StmtsAlike s vs ws) : StmtsAlike s (ts ++ vs) (us ++ ws) := fun depth => by
  rw [List.map_append, List.map_append, h depth, h' depth]

/-- A block of one statement. -/
theorem stmtsAlike_singleton {t u : Stmt} (h : ∀ depth, t.print s depth = u.print s depth) :
    StmtsAlike s [t] [u] := fun depth => congrArg ([·]) (h depth)

/-- A term that is returned where statements are wanted. -/
theorem alike_ofTerm {t u : Term} (h : t.Alike s u) :
    (Lowered.ofTerm t).Alike s (Lowered.ofTerm u) :=
  ⟨h, stmtsAlike_singleton fun depth => by rw [Stmt.print, Stmt.print, h depth]⟩

/-- Brackets do not show what stands in them. -/
theorem Term.Alike.grouped {t u : Term} (h : t.Alike s u) (b : Bool) :
    (if b then Term.group t else t).Alike s (if b then .group u else u) := by
  cases b with
  | true =>
    intro depth parent right
    rw [if_pos rfl, if_pos rfl, print_group, print_group, h]
  | false => exact h

/-- A body that is called on the spot. -/
theorem Term.Alike.invoked {ts us : List Stmt} (h : StmtsAlike s ts us) :
    (Term.invoked ts).Alike s (.invoked us) := fun depth parent right => by
  rw [print_invoked, print_invoked, h.printStmts]

/-- A conditional as a statement. -/
theorem StmtsAlike.ifElse {c c' : Term} {ts us vs ws : List Stmt} (hc : c.Alike s c')
    (hyes : StmtsAlike s ts us) (hno : StmtsAlike s vs ws) :
    StmtsAlike s [.ifElse c ts vs] [.ifElse c' us ws] := stmtsAlike_singleton fun depth => by
  rw [Stmt.print, Stmt.print, hc, hyes.printStmts, hno.printStmts]

/-- An operator looks at its operands' strengths only through their texts. -/
theorem alike_lowerBinary (operator : String) {l l' r r' : Term} (hl : l.Alike s l')
    (hr : r.Alike s r') : (lowerBinary operator l r).Alike s (lowerBinary operator l' r') := by
  intro depth parent right
  unfold lowerBinary
  split
  next => rw [print_concat, print_concat, hl, hr]
  next => rw [print_cons, print_cons, hl, hr]
  next => rw [print_binary, print_binary, hl, hr]

/-- An object with what it extends, if there is something. -/
theorem EntriesAlike.entriesOf {es fs : List Entry} (h : EntriesAlike s es fs) (hasBase : Bool)
    {t u : Term} (hbase : t.Alike s u) :
    EntriesAlike s (entriesOf hasBase t es) (entriesOf hasBase u fs) := fun depth => by
  cases hasBase with
  | true => rw [Script.entriesOf, Script.entriesOf, if_pos rfl, if_pos rfl, printEntries,
      printEntries, hbase, h]
  | false => exact h depth

/-- An object literal. -/
theorem EntriesAlike.object {es fs : List Entry} (h : EntriesAlike s es fs) :
    (Term.object es).Alike s (.object fs) := fun depth parent right => by
  rw [print_object, print_object, h]

theorem TermsAlike.singleton {t u : Term} (h : t.Alike s u) : TermsAlike s [t] [u] :=
  fun depth => congrArg ([·]) (h depth lowest false)

theorem TermsAlike.append {ts us vs ws : List Term} (h : TermsAlike s ts us)
    (h' : TermsAlike s vs ws) : TermsAlike s (ts ++ vs) (us ++ ws) := fun depth => by
  rw [printTerms_append, printTerms_append, h depth, h' depth]

/-- A call, whose arguments are written with commas between them. -/
theorem TermsAlike.call {ts us : List Term} (h : TermsAlike s ts us) (name : String) :
    (Term.call name ts).Alike s (.call name us) := fun depth parent right => by
  rw [print_call, print_call, h]

/-- An arrow that is called on the spot. -/
theorem TermsAlike.arrowCall {ts us : List Term} (h : TermsAlike s ts us) (params : List String)
    {t u : Term} (hbody : t.Alike s u) :
    (Term.arrowCall params t ts).Alike s (.arrowCall params u us) := fun depth parent right => by
  rw [print_arrowCall, print_arrowCall, hbody, h]

/-- What is handed on becomes an argument, or none. -/
theorem Inflow.Alike.values {i k : Inflow} (h : i.Alike s k) :
    TermsAlike s i.value?.toList k.value?.toList := by
  cases h with
  | nothing => exact fun _ => rfl
  | argument h => exact TermsAlike.singleton h
  | chain h => exact TermsAlike.singleton h

/-! ## Cases -/

/-- A match is written around whatever stands for its body. -/
theorem Nest.print_congr (subject : String) {body body' : Nat → String}
    (h : ∀ depth, body depth = body' depth) (nest : Nest) (depth : Nat) :
    nest.print subject body depth = nest.print subject body' depth := by
  rw [funext h]

/-- Which form a case takes depends on the patterns alone. -/
theorem BranchesAlike.patterns {bs cs : List (Pattern × List Stmt)} (h : BranchesAlike s bs cs) :
    bs.map (·.1) = cs.map (·.1) := by
  induction h with
  | nil => rfl
  | cons hb _ ih => rw [List.map_cons, List.map_cons, hb.1, ih]

/-- The arms of a `switch`. -/
theorem BranchesAlike.printArms {bs cs : List (Pattern × List Stmt)} (h : BranchesAlike s bs cs)
    (subject : String) (depth : Nat) :
    printArms s subject depth (bs.map armOf) = printArms s subject depth (cs.map armOf) := by
  induction h with
  | nil => rfl
  | @cons b c bs cs hb _ ih =>
    obtain ⟨pattern, body⟩ := b
    obtain ⟨rfl, hbody⟩ := hb
    rw [List.map_cons, List.map_cons, armOf, armOf]
    dsimp only
    split <;> rw [Script.printArms, Script.printArms, ih, hbody.printStmts]

/-- All of a case: its subject, and the branches in the form that the patterns ask for. -/
theorem BranchesAlike.caseStmts {bs cs : List (Pattern × List Stmt)} (h : BranchesAlike s bs cs)
    (subject : String) {t u : Term} (ht : t.Alike s u) :
    StmtsAlike s (caseStmts subject t bs) (caseStmts subject u cs) := by
  have hhold : StmtsAlike s [.hold subject t] [.hold subject u] :=
    stmtsAlike_singleton fun depth => by rw [Stmt.print, Stmt.print, ht]
  refine hhold.append ?_
  rw [h.patterns]
  have hchain : StmtsAlike s (bs.map fun b => .branch subject (branchMatch b.1) b.2)
      (cs.map fun b => .branch subject (branchMatch b.1) b.2) := fun depth => by
    rw [List.map_map, List.map_map]
    induction h with
    | nil => rfl
    | @cons b c bs cs hb _ ih =>
      rw [List.map_cons, List.map_cons, ih]
      congr 1
      rw [Function.comp_apply, Function.comp_apply, Stmt.print, Stmt.print, hb.1]
      exact Nest.print_congr _ (fun d => hb.2.printStmts d) _ _
  split
  next =>
    exact stmtsAlike_singleton fun depth => by rw [Stmt.print, Stmt.print, h.printArms]
  next => exact hchain
  next => exact hchain

/-! ## Lowering -/

/-- What comes before the type is written, the type is not. -/
theorem annotated_untyped (hs : s.typed = false) (name : String) (type : Ty) :
    s.annotated name type = name := by
  rw [Style.annotated, hs]
  rfl

/-- So only names are left of a function's head. -/
theorem functionHead_untyped (hs : s.typed = false) (name : String) (params : List Parameter)
    (result : Ty) :
    s.functionHead name params result
      = "function " ++ name ++ "(" ++ Text.join ", " (params.map (·.name)) ++ ")" := by
  simp [Style.functionHead, hs, annotated_untyped hs]

/-- The head of a function does not tell what the types were. -/
theorem functionHead_alike (hs : s.typed = false) (name : String) (params : List Param)
    (result : Ty) :
    s.functionHead name (parametersOf (params.map Param.untyped)) .absent
      = s.functionHead name (parametersOf params) result := by
  have hnames : (parametersOf (params.map Param.untyped)).map (·.name)
      = (parametersOf params).map (·.name) := by
    refine List.ext_getElem (by simp [parametersOf]) fun i _ _ => ?_
    simp [parametersOf, Param.untyped, Name.paramName]
  rw [functionHead_untyped hs, functionHead_untyped hs, hnames]

mutual

/-- **Expressions are lowered alike**, for all that a pipe hands on to them. The induction has to
say it of both forms, since a branch asks for statements. -/
theorem alike_lower (hs : s.typed = false) (depth : Nat) {i k : Inflow} (h : i.Alike s k) :
    ∀ e : Expr, (lower depth i e.untyped).Alike s (lower depth k e)
  | .absent => alike_ofTerm fun _ _ _ => rfl
  | .value body => alike_ofTerm <| by
    cases h with
    | nothing => exact fun _ _ _ => rfl
    | argument h => exact (TermsAlike.singleton h).call body
    | chain h => exact (TermsAlike.singleton h).call body
  | .text body => alike_ofTerm fun _ _ _ => rfl
  | .format body => alike_ofTerm fun _ _ _ => rfl
  | .list items => alike_ofTerm fun d _ _ => by
    rw [print_list, print_list, alike_lowerAll hs depth items d]
  | .range start stop => alike_ofTerm fun d _ _ => by
    rw [print_range, print_range, (alike_lower hs depth .nothing start).term,
      (alike_lower hs depth .nothing stop).term]
  | .object base fields => alike_ofTerm <| by
    rw [isAbsent_untyped]
    exact ((alike_lowerFields hs depth fields).entriesOf _
      (alike_lower hs depth .nothing base).term).object
  | .construct name => alike_ofTerm fun _ _ _ => rfl
  | .constructWith name base fields => alike_ofTerm <| by
    rw [isAbsent_untyped]
    exact (TermsAlike.singleton ((alike_lowerFields hs depth fields).entriesOf _
      (alike_lower hs depth .nothing base).term).object).call name
  | .ifElse condition yesLets yes noLets no => by
    have hc := (alike_lower hs depth .nothing condition).term
    have hy := alike_lower hs depth .nothing yes
    have hn := alike_lower hs depth .nothing no
    have hys := (alike_lowerLets hs depth yesLets).append hy.stmts
    have hns := (alike_lowerLets hs depth noLets).append hn.stmts
    have hstmts := StmtsAlike.ifElse hc hys hns
    refine ⟨?_, hstmts⟩
    rw [Expr.untyped, lower, lower, isEmpty_untypedDecls, isEmpty_untypedDecls]
    dsimp only
    split
    next =>
      intro d parent right
      rw [print_ternary, print_ternary, hc, hy.term, hn.term]
    next => exact .invoked hstmts
  | .caseOf subject branches => by
    have hstmts := (alike_lowerBranches hs (depth + 1) branches).caseStmts (subjectName depth)
      (alike_lower hs depth .nothing subject).term
    exact ⟨.invoked hstmts, hstmts⟩
  | .binary operator left right => alike_ofTerm <|
    alike_lowerBinary operator (alike_lower hs depth .nothing left).term
      (alike_lower hs depth .nothing right).term
  | .unary operator operand => alike_ofTerm fun d _ _ => by
    rw [print_unary, print_unary, (alike_lower hs depth .nothing operand).term]
  | .leftPipe left right => alike_ofTerm <| by
    refine (alike_lower hs depth (.chain ?_) right).term
    cases h with
    | nothing => exact (alike_lower hs depth .nothing left).term
    | argument h => exact (alike_lower hs depth .nothing left).term
    | chain h => exact (alike_lower hs depth (.argument h) left).term
  | .rightPipe target value => alike_ofTerm
    (alike_lower hs depth (.argument (alike_lower hs depth .nothing value).term) target).term
  | .qualified path value => alike_ofTerm fun d _ _ => by
    rw [print_qualified, print_qualified]
    cases h with
    | nothing => exact congrArg _ ((alike_lower hs depth .nothing value).term _ _ _)
    | argument h => exact congrArg _ ((alike_lower hs depth (.argument h) value).term _ _ _)
    | chain h => exact congrArg _ ((alike_lower hs depth (.argument h) value).term _ _ _)
  | .call name args => alike_ofTerm (((alike_lowerAll hs depth args).append h.values).call name)
  | .lambda params body => alike_ofTerm <| by
    have hbody := (alike_lower hs depth .nothing body).term.grouped (isObject body)
    rw [isObject_untyped]
    cases h with
    | nothing =>
      intro d parent right
      rw [Inflow.value?]
      dsimp only
      rw [print_arrow, print_arrow, hbody]
    | argument h => exact (TermsAlike.singleton h).arrowCall params hbody
    | chain h => exact (TermsAlike.singleton h).arrowCall params hbody
  | .lambdaCall params body args => alike_ofTerm <| by
    rw [isObject_untyped]
    exact (alike_lowerAll hs depth args).arrowCall params
      ((alike_lower hs depth .nothing body).term.grouped (isObject body))

/-- Items and arguments. -/
theorem alike_lowerAll (hs : s.typed = false) (depth : Nat) :
    ∀ es : List Expr, TermsAlike s (lowerAll depth (untypedExprs es)) (lowerAll depth es)
  | [] => fun _ => rfl
  | e :: es => (TermsAlike.singleton (alike_lower hs depth .nothing e).term).append
    (alike_lowerAll hs depth es)

/-- The fields of an object. -/
theorem alike_lowerFields (hs : s.typed = false) (depth : Nat) :
    ∀ fs : List Field, EntriesAlike s (lowerFields depth (untypedFields fs)) (lowerFields depth fs)
  | [] => fun _ => rfl
  | .mk name value :: fs => fun d => by
    rw [untypedFields, lowerFields, lowerFields, printEntries, printEntries,
      (alike_lower hs depth .nothing value).term, alike_lowerFields hs depth fs d]

/-- The branches of a case, each with its `let`s. -/
theorem alike_lowerBranches (hs : s.typed = false) (depth : Nat) : ∀ bs : List Branch,
    BranchesAlike s (lowerBranches depth (untypedBranches bs)) (lowerBranches depth bs)
  | [] => .nil
  | .mk _ lets body :: bs =>
    .cons ⟨rfl, (alike_lowerLets hs depth lets).append (alike_lower hs depth .nothing body).stmts⟩
      (alike_lowerBranches hs depth bs)

/-- Functions and constants. The other declarations become no statements. -/
theorem alike_lowerDecl (hs : s.typed = false) (depth : Nat) :
    ∀ d : Decl, StmtsAlike s (lowerDecl depth d.untyped) (lowerDecl depth d)
  | .function name params result lets body => stmtsAlike_singleton fun n => by
    have hbody := (alike_lowerLets hs depth lets).append (alike_lower hs depth .nothing body).stmts
    rw [Stmt.print, Stmt.print, hbody.printStmts, functionHead_alike hs]
  | .const name type lets value => stmtsAlike_singleton fun n => by
    have hvalue := alike_lower hs depth .nothing value
    have hbody := (alike_lowerLets hs depth lets).append hvalue.stmts
    rw [Stmt.print, Stmt.print, annotated_untyped hs, annotated_untyped hs, isEmpty_untypedDecls]
    split
    next => rw [hvalue.term]
    next => rw [Term.Alike.invoked hbody]
  | .imports _ | .exports _ | .union .. | .typeAlias .. | .comment _ | .multilineComment _ =>
    fun _ => rfl

/-- The `let`s of a body. -/
theorem alike_lowerLets (hs : s.typed = false) (depth : Nat) :
    ∀ ds : List Decl, StmtsAlike s (lowerLets depth (untypedDecls ds)) (lowerLets depth ds)
  | [] => fun _ => rfl
  | d :: ds => (alike_lowerDecl hs depth d).append (alike_lowerLets hs depth ds)

end

/-! ## Declarations -/

/-- Of a constructor, only the name is written. -/
theorem print_constructor_untyped (hs : s.typed = false) (h h' : TypeName)
    (hname : h.name = h'.name) (tagged : Bool) (fields fields' : List TypedName) :
    (Item.constructor h tagged fields).print s = (Item.constructor h' tagged fields').print s := by
  simp only [Item.print, Style.constructorHead, hs, Bool.false_eq_true, if_false, kindField, hname]

/-- The type that a union declares is left out, its constructors stay. -/
theorem filter_union_items (hs : s.typed = false) (head : TypeHead) (tags : List Tag) :
    (itemsOf (.union head tags)).filter (fun i => s.typed || !i.isType)
      = tags.map fun t => .constructor (tagType t) true t.fields := by
  rw [itemsOf, List.filter_append, hs]
  induction tags with
  | nil => rfl
  | cons t ts ih =>
    rw [List.flatMap_cons, List.filter_append, List.append_assoc]
    exact congrArg _ ih

/-- A declaration at the top level. -/
theorem declText_untyped (hs : s.typed = false) (d : Decl) :
    declText s d.untyped = declText s d := by
  cases d with
  | imports | exports | comment | multilineComment => rfl
  | union head tags =>
    rw [Decl.untyped, declText, declText, filter_union_items hs, filter_union_items hs,
      List.map_map, List.map_map, List.map_map]
    refine congrArg _ (List.map_congr_left fun t _ => ?_)
    exact print_constructor_untyped hs (tagType t.untyped) (tagType t) rfl true _ _
  | typeAlias head properties =>
    rw [Decl.untyped, declText, declText, itemsOf, itemsOf, hs]
    exact congrArg (fun text => Text.join "\n" [text])
      (print_constructor_untyped hs (headType ⟨head.name, []⟩) (headType head) rfl false _ _)
  | function name params result lets body =>
    have halike := (alike_lowerDecl hs 0 (.function name params result lets body)).printStmts 0
    rw [Decl.untyped] at halike ⊢
    rw [declText_function, declText_function, halike]
  | const name type lets value =>
    have halike := (alike_lowerDecl hs 0 (.const name type lets value)).printStmts 0
    rw [Decl.untyped] at halike ⊢
    rw [declText_const, declText_const, halike]

/-- All declarations, with the same blank lines between them. -/
theorem programText_untyped (hs : s.typed = false) (body : List Decl) :
    programText s (untypedDecls body) = programText s body := by
  rw [programText, programText, untypedDecls_eq_map, List.map_map]
  congr 2
  exact List.map_congr_left fun d _ => declText_untyped hs d

end Script

/-- Imports have no types. -/
theorem importsOf_untyped (body : List Decl) : importsOf (untypedDecls body) = importsOf body := by
  rw [importsOf, importsOf, untypedDecls_eq_map, List.flatMap_map]
  refine List.flatMap_congr fun d _ => ?_
  cases d <;> rfl

/-- **The untyped program of a module is that of the module without types.** -/
theorem Module.compile_untyped (m : Module) :
    m.untyped.compile .javaScript = m.compile .javaScript := by
  rw [compile, compile, untyped, Script.styleFor, importsOf_untyped]
  exact Script.programText_untyped rfl m.body

/-- **An untyped program does not depend on types.** Two modules that differ in annotations only
compile to the same text. -/
theorem Module.compile_eq_of_untyped_eq {m₁ m₂ : Module} (h : m₁.untyped = m₂.untyped) :
    m₁.compile .javaScript = m₂.compile .javaScript := by
  rw [← m₁.compile_untyped, h, m₂.compile_untyped]

/-- Two unions, two aliases, and two functions with a `let` inside a case. Where types are written,
the texts are different. -/
theorem Module.compile_eq_maybe_option :
    let a : Ty := .generic "a"
    let body (t : Ty) : Expr := .caseOf (.value "m")
      [.mk (.shape (.tag "Just" "\x7b value \x7d")) [.const "v" t [] (.value "value")] (.value "v"),
        .mk .anything [] (.lambda ["x"] (.value "x"))]
    let m₁ : Module := ⟨"Main",
      [.union ⟨"Maybe", [a]⟩ [⟨"Just", [⟨"value", a⟩]⟩], .typeAlias ⟨"Box", [a]⟩ [⟨"item", a⟩],
        .function "get" [⟨some "m", .fixed "Maybe" [a]⟩] a [] (body a)], []⟩
    let m₂ : Module := ⟨"Main",
      [.union ⟨"Option", []⟩ [⟨"Just", [⟨"value", .absent⟩]⟩],
        .typeAlias ⟨"Box", []⟩ [⟨"item", .absent⟩],
        .function "get" [⟨some "m", .absent⟩] (.fixed "Number" []) [] (body .absent)], []⟩
    m₁.untyped = m₂.untyped ∧ m₁.compile .javaScript = m₂.compile .javaScript ∧
      m₁.compile .typeScript ≠ m₂.compile .typeScript :=
  ⟨rfl, Module.compile_eq_of_untyped_eq rfl, by decide +kernel⟩

end Derw

import Derw.Proofs.Scope.Match

/-!
# Proofs/Scope/Lowering — what holds of the scopes of all lowered programs

A lowered program puts scopes together in a few ways only: terms one after the other, `let`s before
a body, parameters and bodies in blocks, and for a case the value of its subject, its declaration,
and its branches. `ScopeLaws` are properties that are kept by each of them. They hold of all scopes
that come of lowering (`ScopeLaws.lower`, `ScopeLaws.lowerDecl`), by one induction for all such
properties.

The properties may depend on the names that a module declares. `Expr.declares` lists these; what
counts for a pattern is a parameter.
-/

namespace Derw

open Script

/-! ## The names that a module declares -/

section

variable (ofPattern : Pattern → List String)

mutual

/-- The names of the functions and constants in an expression, of their parameters and of those of
lambdas, and what `ofPattern` says of its patterns. -/
def Expr.declares : Expr → List String
  | .absent | .value _ | .text _ | .format _ | .construct _ => []
  | .list items => declaresOfExprs items
  | .range start stop => start.declares ++ stop.declares
  | .object base fields | .constructWith _ base fields =>
    base.declares ++ declaresOfFields fields
  | .ifElse condition yesLets yes noLets no =>
    condition.declares ++ (declaresOfLets yesLets ++ yes.declares) ++
      (declaresOfLets noLets ++ no.declares)
  | .caseOf subject branches => subject.declares ++ declaresOfBranches branches
  | .binary _ left right | .leftPipe left right | .rightPipe left right =>
    left.declares ++ right.declares
  | .unary _ operand => operand.declares
  | .qualified _ value => value.declares
  | .call _ args => declaresOfExprs args
  | .lambda params body => params ++ body.declares
  | .lambdaCall params body args => params ++ body.declares ++ declaresOfExprs args

/-- The names in the items of a list, or in arguments. -/
def declaresOfExprs : List Expr → List String
  | [] => []
  | e :: es => e.declares ++ declaresOfExprs es

/-- The names in the values of fields. -/
def declaresOfFields : List Field → List String
  | [] => []
  | .mk _ value :: fs => value.declares ++ declaresOfFields fs

/-- The names in branches: those of the pattern, of the `let`s and of the body. -/
def declaresOfBranches : List Branch → List String
  | [] => []
  | .mk pattern lets body :: bs =>
    ofPattern pattern ++ (declaresOfLets lets ++ body.declares) ++ declaresOfBranches bs

/-- A parameter without a name is declared as its position. -/
def Decl.declares : Decl → List String
  | .function name params _ lets body =>
    name :: Name.paramNames params ++ (declaresOfLets lets ++ body.declares)
  | .const name _ lets value => name :: (declaresOfLets lets ++ value.declares)
  | .imports _ | .exports _ | .union .. | .typeAlias .. | .comment _ | .multilineComment _ => []

/-- The names that `let`s declare, with those inside them. -/
def declaresOfLets : List Decl → List String
  | [] => []
  | d :: ds => d.declares ++ declaresOfLets ds

end

end

namespace Script

/-! ## Laws -/

/-- Properties of the scopes of terms, of `let`s, of bodies inside so many cases, and of what
follows where a case holds its subject, kept by all ways of putting scopes together. Names of the
module are `ok`. -/
structure ScopeLaws (fields : String → List String) (ofPattern : Pattern → List String)
    (ok : String → Prop) where
  term : Scope → Prop
  lets : Scope → Prop
  body : Nat → Scope → Prop
  after : Nat → Site → Scope → Prop
  ok_counters : ∀ n ∈ ["_v", "_i"], ok n
  term_done : term .done
  term_mention : ∀ {n s}, term s → term (.mention n none s)
  term_append : ∀ {s t}, term s → term t → term (s ++ t)
  term_block : ∀ {depth s}, body depth s → term (.block s .done)
  term_arrow : ∀ {site ns s}, (∀ n ∈ ns, ok n) → term s →
    term (.block (.declareAll site ns s) .done)
  lets_done : lets .done
  lets_append : ∀ {s t}, lets s → lets t → lets (s ++ t)
  lets_const : ∀ {n site s}, ok n → term s → lets (s ++ .declare n site .done)
  lets_function : ∀ {n site ns depth s}, ok n → (∀ m ∈ ns, ok m) → body depth s →
    lets (.declare n site (.block (.declareAll site ns s) .done))
  body_term : ∀ {depth s}, term s → body depth s
  body_lets : ∀ {depth s t}, lets s → body depth t → body depth (s ++ t)
  body_case : ∀ {depth site s t}, term s → after depth site t →
    body depth (s ++ .declare (subjectName depth) site t)
  after_done : ∀ {depth held}, after depth held .done
  after_append : ∀ {depth held s t}, after depth held s → after depth held t →
    after depth held (s ++ t)
  after_switch : ∀ {depth held s}, after depth held s →
    after depth held (.mention (subjectName depth) (some held) (.block s .done))
  after_arm : ∀ {depth held site p s}, (∀ n ∈ ofPattern p, ok n) → body (depth + 1) s →
    after depth held ((armMatch p).scopes fields (subjectName depth, some held) site s)
  after_branch : ∀ {depth held site p s}, (∀ n ∈ ofPattern p, ok n) → body (depth + 1) s →
    after depth held ((branchMatch p).scopes fields (subjectName depth, some held) site s)

/-- The program calls parameters by their names in the module, or by their positions. -/
theorem names_parametersOf (params : List Param) :
    (parametersOf params).map (·.name) = Name.paramNames params := by
  simp [parametersOf, Name.paramNames, List.mapIdx_eq_zipIdx_map]

/-- Statements one after the other, the later ones wherever they stand then. -/
theorem exists_scopeOfStmts_append (fields : String → List String) (held site : Site)
    (xs ys : List Stmt) : ∃ held' site', scopeOfStmts fields held site (xs ++ ys)
      = scopeOfStmts fields held site xs ++ scopeOfStmts fields held' site' ys := by
  induction xs generalizing held site with
  | nil => exact ⟨held, site, rfl⟩
  | cons x xs ih =>
    obtain ⟨held', site', h⟩ := ih (x.holder held (0 :: site)) (1 :: site)
    refine ⟨held', site', ?_⟩
    rw [List.cons_append, scopeOfStmts, h, ← Scope.append_assoc, scopeOfStmts]

namespace ScopeLaws

variable {fields : String → List String} {ofPattern : Pattern → List String} {ok : String → Prop}
  (L : ScopeLaws fields ofPattern ok)

/-- The scope of a term has the property, wherever the term stands. -/
def Term (t : Term) : Prop := ∀ foreign site, L.term (t.scopes fields foreign site)

/-- All terms of a list have it. -/
def Terms (ts : List Script.Term) : Prop := ∀ t ∈ ts, L.Term t

/-- All values of an object have it. -/
def Entries (es : List Entry) : Prop := ∀ site, L.term (scopeOfEntries fields site es)

/-- The scope of `let`s has it, wherever they stand and whichever case is held. -/
def Lets (ss : List Stmt) : Prop := ∀ held site, L.lets (scopeOfStmts fields held site ss)

/-- The scope of a body inside so many cases has it. -/
def Body (depth : Nat) (ss : List Stmt) : Prop :=
  ∀ held site, L.body depth (scopeOfStmts fields held site ss)

/-- Branches with patterns and bodies that are fine inside so many cases. -/
def Branches (depth : Nat) (bs : List (Pattern × List Stmt)) : Prop :=
  ∀ b ∈ bs, (∀ n ∈ ofPattern b.1, ok n) ∧ L.Body depth b.2

/-- Both forms of a lowered expression. -/
structure Holds (depth : Nat) (l : Lowered) : Prop where
  term : L.Term l.term
  stmts : L.Body depth l.stmts

variable {L} {depth : Nat} {t : Script.Term} {ts : List Script.Term} {site : Site} {s : Scope}

/-! ### Terms -/

/-- Mentions of names of the module change nothing. -/
theorem term_readMentions (names : List String) (h : L.term s) :
    L.term (.mentionAll (readMentions names) s) := by
  induction names with
  | nil => exact h
  | cons n ns ih => exact L.term_mention ih

/-- Terms with commas between them. -/
theorem Terms.scope (h : L.Terms ts) (site : Site) : L.term (scopeOfTerms fields site ts) := by
  induction ts generalizing site with
  | nil => exact L.term_done
  | cons t ts ih =>
    obtain ⟨ht, hts⟩ := List.forall_mem_cons.mp h
    exact L.term_append (ht false _) (ih hts _)

/-- A call mentions the function, and then its arguments. -/
theorem Terms.call (h : L.Terms ts) (name : String) : L.Term (.call name ts) :=
  fun _ _ => term_readMentions _ (h.scope _)

/-- What an object extends comes before its entries. -/
theorem Entries.entriesOf {es : List Entry} (hasBase : Bool) (ht : L.Term t) (hes : L.Entries es) :
    L.Entries (entriesOf hasBase t es) := by
  cases hasBase with
  | false => exact hes
  | true => exact fun _ => L.term_append (ht false _) (hes _)

/-- Brackets are no block. -/
theorem term_grouped (b : Bool) (h : L.Term t) : L.Term (if b then .group t else t) := by
  cases b with
  | false => exact h
  | true => exact fun _ _ => h false _

/-- Each way to write an operator has its operands from left to right. -/
theorem term_lowerBinary (operator : String) {l r : Script.Term} (hl : L.Term l) (hr : L.Term r) :
    L.Term (lowerBinary operator l r) := by
  have hboth : ∀ site : Site,
      L.term (l.scopes fields false (0 :: site) ++ r.scopes fields false (1 :: site)) :=
    fun _ => L.term_append (hl false _) (hr false _)
  unfold lowerBinary
  split <;> exact fun _ _ => hboth _

/-- An arrow that is called on the spot: its block, then the arguments. -/
theorem term_arrowCall {params : List String} (hparams : ∀ n ∈ params, ok n) (ht : L.Term t)
    (hts : L.Terms ts) : L.Term (.arrowCall params t ts) :=
  fun _ _ => L.term_append (L.term_arrow hparams (ht false _)) (hts.scope _)

/-- Nothing is handed on. -/
theorem terms_nothing : L.Terms Inflow.nothing.value?.toList := fun _ h => absurd h List.not_mem_nil

/-- A term is handed on as an argument. -/
theorem terms_argument (h : L.Term t) : L.Terms (Inflow.argument t).value?.toList :=
  List.forall_mem_singleton.mpr h

/-- A term is handed on along a chain. -/
theorem terms_chain (h : L.Term t) : L.Terms (Inflow.chain t).value?.toList :=
  List.forall_mem_singleton.mpr h

/-! ### Statements -/

/-- A term, and the statement that returns it. -/
theorem holds_ofTerm (h : L.Term t) : L.Holds depth (.ofTerm t) where
  term := h
  stmts := fun _ _ => by
    rw [Lowered.ofTerm, scopeOfStmts, scopeOfStmts, Scope.append_done]
    exact L.body_term (h false _)

/-- The property of a body does not depend on where it stands, so `let`s can come before it. -/
theorem Lets.body {xs ys : List Stmt} (hxs : L.Lets xs) (hys : L.Body depth ys) :
    L.Body depth (xs ++ ys) := by
  intro held site
  obtain ⟨held', site', h⟩ := exists_scopeOfStmts_append fields held site xs ys
  rw [h]
  exact L.body_lets (hxs _ _) (hys _ _)

/-- One `let` after the other. -/
theorem Lets.append {xs ys : List Stmt} (hxs : L.Lets xs) (hys : L.Lets ys) :
    L.Lets (xs ++ ys) := by
  intro held site
  obtain ⟨held', site', h⟩ := exists_scopeOfStmts_append fields held site xs ys
  rw [h]
  exact L.lets_append (hxs _ _) (hys _ _)

/-- A body that is called on the spot has a block of its own. -/
theorem Body.invoked {ss : List Stmt} (h : L.Body depth ss) : L.Term (.invoked ss) :=
  fun _ _ => L.term_block (h _ _)

/-- A conditional, which may be a term of its own. -/
theorem holds_ifElse {c y n : Script.Term} {ys ns : List Stmt} (plain : Bool) (hc : L.Term c)
    (hy : L.Term y) (hn : L.Term n) (hys : L.Body depth ys) (hns : L.Body depth ns) :
    L.Holds depth
      ⟨if plain then .ternary c y n else .invoked [.ifElse c ys ns], [.ifElse c ys ns]⟩ := by
  have hstmts : L.Body depth [.ifElse c ys ns] := by
    intro held site
    rw [scopeOfStmts, scopeOfStmts, Scope.append_done]
    exact L.body_term (L.term_append (hc false _)
      (L.term_append (L.term_block (hys _ _)) (L.term_block (hns _ _))))
  refine ⟨?_, hstmts⟩
  cases plain with
  | true => exact fun _ _ => L.term_append (L.term_append (hc false _) (hy false _)) (hn false _)
  | false => exact hstmts.invoked

/-! ### Cases -/

variable {held : Site} {bs : List (Pattern × List Stmt)}

/-- The arms of a `switch`, one after the other inside its block. -/
theorem Branches.arms (h : L.Branches (depth + 1) bs) (site : Site) :
    L.after depth held
      (scopeOfArms fields (subjectName depth, some held) site (bs.map armOf)) := by
  induction bs generalizing site with
  | nil => exact L.after_done
  | cons b bs ih =>
    obtain ⟨⟨hpattern, hbody⟩, hbs⟩ := List.forall_mem_cons.mp h
    have harm : L.after depth held ((armMatch b.1).scopes fields (subjectName depth, some held)
        (0 :: site) (scopeOfStmts fields site (0 :: site) b.2)) :=
      L.after_arm hpattern (hbody _ _)
    rw [scopes_armMatch] at harm
    rw [List.map_cons, ← Prod.eta b, armOf_eq]
    exact L.after_append harm (ih hbs _)

/-- Branches that are tried in turn. -/
theorem Branches.chain (h : L.Branches (depth + 1) bs) (site : Site) :
    L.after depth held (scopeOfStmts fields held site
      (bs.map fun b => .branch (subjectName depth) (branchMatch b.1) b.2)) := by
  induction bs generalizing site with
  | nil => exact L.after_done
  | cons b bs ih =>
    obtain ⟨⟨hpattern, hbody⟩, hbs⟩ := List.forall_mem_cons.mp h
    exact L.after_append (L.after_branch hpattern (hbody _ _)) (ih hbs _)

/-- The statements of a case: its subject, and branches that look at it. -/
theorem Branches.body_caseStmts (h : L.Branches (depth + 1) bs) (ht : L.Term t) :
    L.Body depth (caseStmts (subjectName depth) t bs) := by
  intro held site
  have hcase : ∀ ss : List Stmt,
      L.after depth (0 :: site) (scopeOfStmts fields (0 :: site) (1 :: site) ss) →
        L.body depth (scopeOfStmts fields held site (.hold (subjectName depth) t :: ss)) := by
    intro ss hss
    rw [scopeOfStmts, Stmt.scopes, Scope.append_assoc]
    exact L.body_case (ht false _) hss
  rw [caseStmts]
  refine hcase _ ?_
  cases dispatchOf (bs.map (·.1)) with
  | byTag =>
    rw [scopeOfStmts, scopeOfStmts, Scope.append_done]
    exact L.after_switch (h.arms _)
  | byLength => exact h.chain _
  | byValue => exact h.chain _

end ScopeLaws

end Script

/-! ## The lowering -/

section

variable {fields : String → List String} {ofPattern : Pattern → List String} {ok : String → Prop}
  (L : ScopeLaws fields ofPattern ok)

open ScopeLaws

mutual

/-- **Every expression keeps the laws**, if all that is handed on to it does, as a term and as a
body. -/
theorem holds_lower (depth : Nat) (inflow : Inflow) (hin : L.Terms inflow.value?.toList) :
    ∀ e : Expr, (∀ n ∈ e.declares ofPattern, ok n) → L.Holds depth (lower depth inflow e)
  | .absent, _ | .text _, _ => holds_ofTerm fun _ _ => L.term_done
  | .value body, _ => holds_ofTerm <| by
    cases inflow with
    | nothing => exact fun _ _ => term_readMentions _ L.term_done
    | argument a | chain a => exact hin.call body
  | .format body, _ => holds_ofTerm fun _ _ => term_readMentions _ L.term_done
  | .list items, h => holds_ofTerm fun _ _ => (holds_lowerAll depth items h).scope _
  | .range start stop, h => holds_ofTerm fun _ _ => by
    obtain ⟨hstart, hstop⟩ := List.forall_mem_append.mp h
    have hstart := (holds_lower depth .nothing terms_nothing start hstart).term
    have hstop := (holds_lower depth .nothing terms_nothing stop hstop).term
    refine L.term_append (L.term_append (hstop false _) (hstart false _)) ?_
    exact L.term_arrow L.ok_counters (L.term_mention (hstart false _))
  | .object base fs, h => holds_ofTerm <| by
    obtain ⟨hbase, hfs⟩ := List.forall_mem_append.mp h
    have hbase := (holds_lower depth .nothing terms_nothing base hbase).term
    exact fun _ _ => (holds_lowerFields depth fs hfs).entriesOf _ hbase _
  | .construct name, _ => holds_ofTerm <| by
    have hempty : L.Term (.object []) := fun _ _ => L.term_done
    exact Terms.call (List.forall_mem_singleton.mpr hempty) name
  | .constructWith name base fs, h => holds_ofTerm <| by
    obtain ⟨hbase, hfs⟩ := List.forall_mem_append.mp h
    have hbase := (holds_lower depth .nothing terms_nothing base hbase).term
    have hobject : L.Term (.object (entriesOf (!isAbsent base) (lower depth .nothing base).term
        (lowerFields depth fs))) :=
      fun _ _ => (holds_lowerFields depth fs hfs).entriesOf _ hbase _
    exact Terms.call (List.forall_mem_singleton.mpr hobject) name
  | .ifElse condition yesLets yes noLets no, h => by
    obtain ⟨h, hno⟩ := List.forall_mem_append.mp h
    obtain ⟨hc, hyes⟩ := List.forall_mem_append.mp h
    obtain ⟨hyesLets, hyes⟩ := List.forall_mem_append.mp hyes
    obtain ⟨hnoLets, hno⟩ := List.forall_mem_append.mp hno
    have hc := holds_lower depth .nothing terms_nothing condition hc
    have hyes := holds_lower depth .nothing terms_nothing yes hyes
    have hno := holds_lower depth .nothing terms_nothing no hno
    exact holds_ifElse _ hc.term hyes.term hno.term
      ((holds_lowerLets depth yesLets hyesLets).body hyes.stmts)
      ((holds_lowerLets depth noLets hnoLets).body hno.stmts)
  | .caseOf subject branches, h => by
    obtain ⟨hsubject, hbranches⟩ := List.forall_mem_append.mp h
    have hsubject := (holds_lower depth .nothing terms_nothing subject hsubject).term
    have hstmts := (holds_lowerBranches (depth + 1) branches hbranches).body_caseStmts hsubject
    exact ⟨hstmts.invoked, hstmts⟩
  | .binary operator left right, h => holds_ofTerm <| by
    obtain ⟨hleft, hright⟩ := List.forall_mem_append.mp h
    exact term_lowerBinary operator (holds_lower depth .nothing terms_nothing left hleft).term
      (holds_lower depth .nothing terms_nothing right hright).term
  | .unary operator operand, h => holds_ofTerm fun _ _ =>
    (holds_lower depth .nothing terms_nothing operand h).term false _
  | .leftPipe left right, h => holds_ofTerm <| by
    obtain ⟨hleft, hright⟩ := List.forall_mem_append.mp h
    refine (holds_lower depth _ (terms_chain ?_) right hright).term
    cases inflow with
    | nothing | argument a => exact (holds_lower depth .nothing terms_nothing left hleft).term
    | chain a => exact (holds_lower depth (.argument a) hin left hleft).term
  | .rightPipe target value, h => holds_ofTerm <| by
    obtain ⟨htarget, hvalue⟩ := List.forall_mem_append.mp h
    have hvalue := (holds_lower depth .nothing terms_nothing value hvalue).term
    exact (holds_lower depth _ (terms_argument hvalue) target htarget).term
  | .qualified path value, h => holds_ofTerm fun _ _ => by
    refine term_readMentions _ ?_
    cases inflow with
    | nothing => exact (holds_lower depth .nothing terms_nothing value h).term true _
    | argument a | chain a => exact (holds_lower depth (.argument a) hin value h).term true _
  | .call name args, h => holds_ofTerm <|
    Terms.call (List.forall_mem_append.mpr ⟨holds_lowerAll depth args h, hin⟩) name
  | .lambda params body, h => holds_ofTerm <| by
    obtain ⟨hparams, hbody⟩ := List.forall_mem_append.mp h
    have hbody := (holds_lower depth .nothing terms_nothing body hbody).term
    have hbody := term_grouped (isObject body) hbody
    cases inflow with
    | nothing => exact fun _ _ => L.term_arrow hparams (hbody false _)
    | argument a | chain a => exact term_arrowCall hparams hbody hin
  | .lambdaCall params body args, h => holds_ofTerm <| by
    obtain ⟨h, hargs⟩ := List.forall_mem_append.mp h
    obtain ⟨hparams, hbody⟩ := List.forall_mem_append.mp h
    have hbody := (holds_lower depth .nothing terms_nothing body hbody).term
    exact term_arrowCall hparams (term_grouped _ hbody) (holds_lowerAll depth args hargs)

/-- Items and arguments. -/
theorem holds_lowerAll (depth : Nat) : ∀ es : List Expr,
    (∀ n ∈ declaresOfExprs ofPattern es, ok n) → L.Terms (lowerAll depth es)
  | [], _ => terms_nothing
  | e :: es, h => by
    obtain ⟨he, hes⟩ := List.forall_mem_append.mp h
    exact List.forall_mem_cons.mpr
      ⟨(holds_lower depth .nothing terms_nothing e he).term, holds_lowerAll depth es hes⟩

/-- The fields of an object. -/
theorem holds_lowerFields (depth : Nat) : ∀ fs : List Field,
    (∀ n ∈ declaresOfFields ofPattern fs, ok n) → L.Entries (lowerFields depth fs)
  | [], _ => fun _ => L.term_done
  | .mk _ value :: fs, h => by
    obtain ⟨hvalue, hfs⟩ := List.forall_mem_append.mp h
    have hvalue := (holds_lower depth .nothing terms_nothing value hvalue).term
    exact fun _ => L.term_append (hvalue false _) (holds_lowerFields depth fs hfs _)

/-- The branches of a case, each with its `let`s before its body. -/
theorem holds_lowerBranches (depth : Nat) : ∀ bs : List Branch,
    (∀ n ∈ declaresOfBranches ofPattern bs, ok n) → L.Branches depth (lowerBranches depth bs)
  | [], _ => fun _ h => absurd h List.not_mem_nil
  | .mk pattern lets body :: bs, h => by
    obtain ⟨h, hbs⟩ := List.forall_mem_append.mp h
    obtain ⟨hpattern, h⟩ := List.forall_mem_append.mp h
    obtain ⟨hlets, hbody⟩ := List.forall_mem_append.mp h
    have hbody := (holds_lower depth .nothing terms_nothing body hbody).stmts
    exact List.forall_mem_cons.mpr
      ⟨⟨hpattern, (holds_lowerLets depth lets hlets).body hbody⟩, holds_lowerBranches depth bs hbs⟩

/-- Functions and constants. Other declarations have no scope. -/
theorem holds_lowerDecl (depth : Nat) : ∀ d : Decl,
    (∀ n ∈ d.declares ofPattern, ok n) → L.Lets (lowerDecl depth d)
  | .function name params result lets body, h => by
    obtain ⟨hnames, h⟩ := List.forall_mem_append.mp h
    obtain ⟨hname, hparams⟩ := List.forall_mem_cons.mp hnames
    obtain ⟨hlets, hbody⟩ := List.forall_mem_append.mp h
    have hbody := (holds_lower depth .nothing terms_nothing body hbody).stmts
    intro held site
    rw [lowerDecl, scopeOfStmts, scopeOfStmts, Scope.append_done, Stmt.scopes, names_parametersOf]
    exact L.lets_function hname hparams ((holds_lowerLets depth lets hlets).body hbody _ _)
  | .const name type lets value, h => by
    obtain ⟨hname, h⟩ := List.forall_mem_cons.mp h
    obtain ⟨hlets, hvalue⟩ := List.forall_mem_append.mp h
    have hvalue := holds_lower depth .nothing terms_nothing value hvalue
    intro held site
    rw [lowerDecl, scopeOfStmts, scopeOfStmts, Scope.append_done, Stmt.scopes]
    refine L.lets_const hname ?_
    split
    next => exact hvalue.term false _
    next => exact ((holds_lowerLets depth lets hlets).body hvalue.stmts).invoked false _
  | .imports _, _ | .exports _, _ | .union .., _ | .typeAlias .., _ | .comment _, _
  | .multilineComment _, _ => fun _ _ => L.lets_done

/-- The `let`s of a body. -/
theorem holds_lowerLets (depth : Nat) : ∀ ds : List Decl,
    (∀ n ∈ declaresOfLets ofPattern ds, ok n) → L.Lets (lowerLets depth ds)
  | [], _ => fun _ _ => L.lets_done
  | d :: ds, h => by
    obtain ⟨hd, hds⟩ := List.forall_mem_append.mp h
    exact (holds_lowerDecl depth d hd).append (holds_lowerLets depth ds hds)

end

end

end Derw

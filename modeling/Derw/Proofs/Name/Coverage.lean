import Derw.Name.Missing
import Derw.Proofs.Name.Pipe
import Derw.Proofs.Program.Bindings
import Derw.Proofs.Program.Reads

/-!
# Proofs/Name/Coverage — the checker of names and the names that a program reads

The checker walks through a declaration as the module spells it, while its program is made of terms
and statements, where pipes have turned into calls, cases into switches and guards, and `let`s into
functions. Still the walk meets the names that the program reads. What it passes over can be told
from the expression alone (`Expr.overlooked`): the callees of constructors, the formats of patterns,
and words that it takes for numbers.

The proof goes through the lowering, form by form, with what flows in from a pipe on the side
(`Lowered.Covers`): the names of a lowered expression are in its usage, are overlooked, or have come
in with the inflow, which in turn is covered where it comes from (`Covered.through`).
-/

namespace Derw

open Name (inTemplate leadingName numberName templateNames Usage)
open Script

/-! ## The names that are overlooked -/

mutual

/-- The names of an expression that its program may read although its usage does not list them: the
callees of constructors, unless they belong to another module (`foreign`), the names in the formats
of patterns, and the words that are taken for numbers. -/
def Expr.overlooked (foreign : Bool) : Expr → List String
  | .absent | .text _ => []
  | .value body => if foreign then [] else (numberName body).toList
  | .format body => inTemplate numberName body
  | .list items => overlookedOfExprs items
  | .range start stop => start.overlooked false ++ stop.overlooked false
  | .object base fields => base.overlooked false ++ overlookedOfFields fields
  | .construct name => if foreign then [] else (leadingName name).toList
  | .constructWith name base fields =>
    (if foreign then [] else (leadingName name).toList) ++
      (base.overlooked false ++ overlookedOfFields fields)
  | .ifElse condition yesLets yes noLets no =>
    condition.overlooked false ++ overlookedOfLets yesLets ++ yes.overlooked false ++
      overlookedOfLets noLets ++ no.overlooked false
  | .caseOf subject branches => subject.overlooked false ++ overlookedOfBranches branches
  | .binary _ left right => left.overlooked false ++ right.overlooked false
  | .unary _ operand => operand.overlooked false
  | .leftPipe left right => left.overlooked false ++ right.overlooked false
  | .rightPipe left right => left.overlooked false ++ right.overlooked false
  | .qualified _ value => value.overlooked true
  | .call name args =>
    (if foreign then [] else (numberName name).toList) ++ overlookedOfExprs args
  | .lambda _ body => body.overlooked false
  | .lambdaCall _ body args => body.overlooked false ++ overlookedOfExprs args

def overlookedOfExprs : List Expr → List String
  | [] => []
  | e :: es => e.overlooked false ++ overlookedOfExprs es

def overlookedOfFields : List Field → List String
  | [] => []
  | .mk _ value :: fs => value.overlooked false ++ overlookedOfFields fs

def overlookedOfBranches : List Branch → List String
  | [] => []
  | .mk pattern lets body :: bs =>
    pattern.formatNames ++ overlookedOfLets lets ++ body.overlooked false ++ overlookedOfBranches bs

def Decl.overlooked : Decl → List String
  | .function _ _ _ lets body => overlookedOfLets lets ++ body.overlooked false
  | .const _ _ lets value => overlookedOfLets lets ++ value.overlooked false
  | .imports _ | .exports _ | .union .. | .typeAlias .. | .comment _ | .multilineComment _ => []

def overlookedOfLets : List Decl → List String
  | [] => []
  | d :: ds => d.overlooked ++ overlookedOfLets ds

end

/-! ## Covered names -/

/-- Each of the names `ns` is read by the usage or is one of `os`. -/
def Covered (u : Usage) (os ns : List String) : Prop := ∀ n ∈ ns, n ∈ u.read ∨ n ∈ os

section

variable {u v : Usage} {os ps ns ms : List String}

theorem covered_nil : Covered u os [] := fun _ h => absurd h List.not_mem_nil

theorem covered_self (ns : List String) : Covered u ns ns := fun _ hn => .inr hn

/-- The callee of a value or a call. -/
theorem covered_callee (foreign : Bool) (text : String) :
    Covered (if foreign then {} else .readsAll (Name.valueName text).toList)
      (if foreign then [] else (numberName text).toList)
      (if foreign then [] else (leadingName text).toList) := by
  cases foreign with
  | true => exact covered_nil
  | false =>
    intro n hn
    have hname : n ∈ leadingName text := Option.mem_toList.mp hn
    exact (Name.mem_valueName hname).imp Option.mem_toList.mpr Option.mem_toList.mpr

/-- The names in a template are read, or overlooked. -/
theorem covered_format (body : String) :
    Covered (.readsAll (Name.interpolatedNames body)) (inTemplate numberName body)
      (templateNames body) :=
  fun _ => Name.mem_interpolatedNames

/-- A path is read by its first name, whatever is overlooked. -/
theorem covered_path (path : List String) :
    Covered (.reads (Text.join "." path)) os (pathName path) :=
  fun _ hn => .inl hn

namespace Covered

/-- Fewer names to cover. -/
theorem subset (h : Covered u os ns) (hsub : ms ⊆ ns) : Covered u os ms :=
  fun n hn => h n (hsub hn)

/-- Side by side. -/
theorem append (hu : Covered u os ns) (hv : Covered v ps ms) :
    Covered (u ++ v) (os ++ ps) (ns ++ ms) := by
  intro n hn
  rw [Usage.read_append, List.mem_append, List.mem_append]
  rcases List.mem_append.mp hn with hn | hn
  · exact (hu n hn).imp .inl .inl
  · exact (hv n hn).imp .inr .inr

theorem comm (h : Covered (u ++ v) (os ++ ps) ns) : Covered (v ++ u) (ps ++ os) ns := by
  intro n hn
  have h := h n hn
  rw [Usage.read_append, List.mem_append, List.mem_append] at h ⊢
  exact h.imp Or.symm Or.symm

/-- Other names flow in, and are dropped. -/
theorem after (ms : List String) (h : Covered u os ns) : Covered u (ms ++ os) ns :=
  fun n hn => (h n hn).imp_right (List.mem_append_right _)

/-- Other names flow in, and are read last. -/
theorem inflow (ms : List String) (h : Covered u os ns) : Covered u (ms ++ os) (ns ++ ms) := by
  intro n hn
  rcases List.mem_append.mp hn with hn | hn
  · exact h.after ms n hn
  · exact .inr (List.mem_append_left _ hn)

/-- What flows in is covered where it comes from. -/
theorem through (hin : Covered u os ms) (h : Covered v (ms ++ ps) ns) :
    Covered (u ++ v) (os ++ ps) ns := by
  intro n hn
  rw [Usage.read_append, List.mem_append, List.mem_append]
  rcases h n hn with hn | hn
  · exact .inl (.inr hn)
  · rcases List.mem_append.mp hn with hn | hn
    · exact (hin n hn).imp .inl .inl
    · exact .inr (.inr hn)

end Covered

end

/-! ## Covered expressions -/

namespace Script

/-- The names that flow into an expression. -/
def Inflow.reads (i : Inflow) : List String := readsOfTerms i.value?.toList

/-- In both of its forms a lowered expression reads what flows in and what the usage of the
expression lists or overlooks. -/
structure Lowered.Covers (l : Lowered) (inflow : Inflow) (e : Expr) : Prop where
  term : ∀ foreign,
    Covered (e.usage foreign) (inflow.reads ++ e.overlooked foreign) (l.term.reads foreign)
  stmts : Covered (e.usage false) (inflow.reads ++ e.overlooked false) (readsOfStmts l.stmts)

variable {t : Term} {inflow : Inflow} {e : Expr}

/-- A term covers the expression alone and behind a module path. -/
theorem covers_ofTerm (h : ∀ foreign,
    Covered (e.usage foreign) (inflow.reads ++ e.overlooked foreign) (t.reads foreign)) :
    (Lowered.ofTerm t).Covers inflow e where
  term := h
  stmts := by
    rw [Lowered.ofTerm, readsOfStmts_singleton]
    exact h false

/-- An expression that drops what flows in. -/
theorem covers_alone (h : ∀ foreign,
    Covered (e.usage foreign) (e.overlooked foreign) (t.reads foreign)) :
    (Lowered.ofTerm t).Covers inflow e :=
  covers_ofTerm fun foreign => (h foreign).after _

/-- A conditional reads the same in both of its forms. -/
theorem covers_ifElse (plain : Bool) {c y n : Lowered} {condition yes no : Expr}
    {yesLets noLets : List Decl} {ys ns : List Stmt} (hc : c.Covers .nothing condition)
    (hys : Covered (usageOfLets yesLets) (overlookedOfLets yesLets) (readsOfStmts ys))
    (hy : y.Covers .nothing yes)
    (hns : Covered (usageOfLets noLets) (overlookedOfLets noLets) (readsOfStmts ns))
    (hn : n.Covers .nothing no) :
    let stmts := [.ifElse c.term (ys ++ y.stmts) (ns ++ n.stmts)]
    (Lowered.mk (if plain then .ternary c.term y.term n.term else .invoked stmts) stmts).Covers
      inflow (.ifElse condition yesLets yes noLets no) := by
  have hstmts := ((((hc.term false).append hys).append hy.stmts).append hns).append hn.stmts
  have hterms := ((((hc.term false).append hys).append (hy.term false)).append hns).append
    (hn.term false)
  have hreads : readsOfStmts [.ifElse c.term (ys ++ y.stmts) (ns ++ n.stmts)]
      = c.term.reads false ++ readsOfStmts ys ++ readsOfStmts y.stmts ++ readsOfStmts ns
        ++ readsOfStmts n.stmts := by
    rw [readsOfStmts_singleton, Stmt.reads, readsOfStmts_append, readsOfStmts_append]
    simp only [List.append_assoc]
  rw [← hreads] at hstmts
  refine ⟨fun foreign => ?_, hstmts.after _⟩
  cases plain with
  | true =>
    refine (hterms.after _).subset (append_subset_append ?_ (List.Subset.refl _))
    refine List.subset_append_of_subset_left _ ?_
    exact append_subset_append (List.subset_append_left _ _) (List.Subset.refl _)
  | false => exact hstmts.after _

end Script

/-! ## The walk and the lowering -/

mutual

/-- The lowering of an expression covers it, one case for each. -/
theorem covers_lower (depth : Nat) (inflow : Inflow) :
    ∀ e : Expr, (lower depth inflow e).Covers inflow e
  | .absent => covers_alone fun _ => covered_nil
  | .value body => covers_ofTerm fun foreign => by
    cases inflow with
    | nothing => exact covered_callee foreign body
    | argument a => exact (covered_callee foreign body).inflow _
    | chain a => exact (covered_callee foreign body).inflow _
  | .text body => covers_alone fun _ => covered_nil
  | .format body => covers_alone fun _ => covered_format body
  | .list items => covers_alone fun _ => covered_lowerAll depth items
  | .range start stop => covers_alone fun _ =>
    ((covers_lower depth .nothing start).term false).append
      ((covers_lower depth .nothing stop).term false)
  | .object base fields => covers_alone fun _ =>
    (((covers_lower depth .nothing base).term false).append
      (covered_lowerFields depth fields)).subset (readsOfEntries_entriesOf_subset _ _ _)
  | .construct name => covers_alone fun foreign =>
    (covered_self _).subset (List.append_subset.mpr ⟨List.Subset.refl _, List.nil_subset _⟩)
  | .constructWith name base fields => covers_alone fun foreign => by
    have hobject := ((covers_lower depth .nothing base).term false).append
      (covered_lowerFields depth fields)
    have hname : Covered {} (if foreign then [] else (leadingName name).toList) _ := covered_self _
    refine (hname.append hobject).subset (append_subset_append (List.Subset.refl _) ?_)
    rw [readsOfTerms_singleton]
    exact readsOfEntries_entriesOf_subset _ _ _
  | .ifElse condition yesLets yes noLets no =>
    covers_ifElse (yesLets.isEmpty && noLets.isEmpty) (covers_lower depth .nothing condition)
      (covered_lowerLets depth yesLets) (covers_lower depth .nothing yes)
      (covered_lowerLets depth noLets) (covers_lower depth .nothing no)
  | .caseOf subject branches => by
    have hsubject := (covers_lower depth .nothing subject).term false
    have hstmts := (hsubject.append (covered_lowerBranches (depth + 1) branches)).subset
      (readsOfStmts_caseStmts_subset (subjectName depth) _ _)
    exact ⟨fun _ => hstmts.after _, hstmts.after _⟩
  | .binary operator left right => covers_alone fun foreign => by
    rw [reads_lowerBinary]
    exact ((covers_lower depth .nothing left).term false).append
      ((covers_lower depth .nothing right).term false)
  | .unary operator operand => covers_alone fun _ =>
    (covers_lower depth .nothing operand).term false
  | .leftPipe left right => by
    -- A chain goes on through the left side; an argument does not get there.
    obtain ⟨through, hthrough, hleft⟩ : ∃ through : Term,
        lower depth inflow (.leftPipe left right)
          = .ofTerm (lower depth (.chain through) right).term ∧
        Covered (left.usage false) (inflow.reads ++ left.overlooked false)
          (readsOfTerms [through]) := by
      simp only [readsOfTerms_singleton]
      cases inflow with
      | nothing => exact ⟨_, rfl, (covers_lower depth .nothing left).term false⟩
      | argument a => exact ⟨_, rfl, ((covers_lower depth .nothing left).term false).after _⟩
      | chain a => exact ⟨_, rfl, (covers_lower depth (.argument a) left).term false⟩
    have hpipe := hleft.through ((covers_lower depth (.chain through) right).term false)
    rw [List.append_assoc] at hpipe
    rw [hthrough]
    exact covers_ofTerm fun foreign => hpipe.subset (Term.reads_subset _ foreign)
  | .rightPipe target value => covers_alone fun foreign => by
    have hvalue := (covers_lower depth .nothing value).term false
    rw [← readsOfTerms_singleton] at hvalue
    have htarget := (covers_lower depth
      (.argument (lower depth .nothing value).term) target).term false
    exact (hvalue.through htarget).comm.subset (Term.reads_subset _ foreign)
  | .qualified path value => covers_ofTerm fun _ => by
    have hpath : Covered (.reads (Text.join "." path)) [] (pathName path) := covered_path path
    cases inflow with
    | nothing => exact hpath.append ((covers_lower depth .nothing value).term true)
    | argument a => exact hpath.append ((covers_lower depth (.argument a) value).term true)
    | chain a => exact hpath.append ((covers_lower depth (.argument a) value).term true)
  | .call name args => covers_ofTerm fun foreign => by
    have hcall := ((covered_callee foreign name).append (covered_lowerAll depth args)).inflow
      inflow.reads
    rw [applied, Term.reads, readsOfTerms_append, ← List.append_assoc]
    exact hcall
  | .lambda params body => covers_ofTerm fun foreign => by
    have hbody := (covers_lower depth .nothing body).term false
    rw [← reads_grouped (isObject body)] at hbody
    cases inflow with
    | nothing => exact hbody
    | argument a => exact hbody.inflow _
    | chain a => exact hbody.inflow _
  | .lambdaCall params body args => covers_alone fun _ => by
    have hbody := (covers_lower depth .nothing body).term false
    rw [← reads_grouped (isObject body)] at hbody
    exact hbody.append (covered_lowerAll depth args)

theorem covered_lowerAll (depth : Nat) : ∀ es : List Expr,
    Covered (usageOfExprs es) (overlookedOfExprs es) (readsOfTerms (lowerAll depth es))
  | [] => covered_nil
  | e :: es => ((covers_lower depth .nothing e).term false).append (covered_lowerAll depth es)

theorem covered_lowerFields (depth : Nat) : ∀ fs : List Field,
    Covered (usageOfFields fs) (overlookedOfFields fs) (readsOfEntries (lowerFields depth fs))
  | [] => covered_nil
  | .mk _ value :: fs =>
    ((covers_lower depth .nothing value).term false).append (covered_lowerFields depth fs)

theorem covered_lowerBranches (depth : Nat) : ∀ bs : List Branch,
    Covered (usageOfBranches bs) (overlookedOfBranches bs)
      (readsOfBranches (lowerBranches depth bs))
  | [] => covered_nil
  | .mk pattern lets body :: bs => by
    have hpattern : Covered (.defines (Name.patternNames pattern)) pattern.formatNames _ :=
      covered_self _
    have hbranch := (hpattern.append (covered_lowerLets depth lets)).append
      (covers_lower depth .nothing body).stmts
    rw [lowerBranches, readsOfBranches, readsOfStmts_append, ← List.append_assoc]
    exact hbranch.append (covered_lowerBranches depth bs)

/-- The lowering of a declaration covers it. -/
theorem covered_lowerDecl (depth : Nat) (bound : Bool) : ∀ d : Decl,
    Covered (d.usage bound) d.overlooked (readsOfStmts (lowerDecl depth d))
  | .function name params result lets body => by
    rw [lowerDecl, readsOfStmts_singleton, Stmt.reads, readsOfStmts_append]
    exact (covered_lowerLets depth lets).append (covers_lower depth .nothing body).stmts
  | .const name type lets value => by
    have hlets := covered_lowerLets depth lets
    have hvalue := covers_lower depth .nothing value
    rw [lowerDecl, readsOfStmts_singleton, Stmt.reads]
    split
    next => exact (hlets.append (hvalue.term false)).subset (List.subset_append_right _ _)
    next =>
      rw [Term.reads, readsOfStmts_append]
      exact hlets.append hvalue.stmts
  | .imports _ | .exports _ | .union .. | .typeAlias .. | .comment _ | .multilineComment _ =>
    covered_nil

theorem covered_lowerLets (depth : Nat) : ∀ ds : List Decl,
    Covered (usageOfLets ds) (overlookedOfLets ds) (readsOfStmts (lowerLets depth ds))
  | [] => covered_nil
  | d :: ds => by
    rw [lowerLets, readsOfStmts_append]
    exact (covered_lowerDecl depth true d).append (covered_lowerLets depth ds)

end

/-! ## Known, global or reported -/

/-- Each name that a declaration reads is in its scope, belongs to the surroundings, or is
reported. -/
theorem Name.Checker.known_or_reported (c : Checker) {m : Module} {d : Decl} (hd : d ∈ m.body)
    {scope name : String} (hscope : scopeName? d = some scope)
    (hread : name ∈ (d.usage false).read) :
    let known := inScope (topLevelNames m.body) d
    name ∈ known ∨ c.isGlobal name = true ∨ c.message scope name known ∈ (c.check m).errors := by
  intro known
  by_cases hknown : name ∈ known
  · exact .inl hknown
  by_cases hglobal : c.isGlobal name = true
  · exact .inr (.inl hglobal)
  refine .inr (.inr ?_)
  rw [Bool.not_eq_true] at hglobal
  have hmissing : name ∈ c.missingNames (topLevelNames m.body) d := by
    refine List.mem_filter.mpr ⟨Text.mem_distinct.mpr hread, ?_⟩
    simpa using ⟨hknown, hglobal⟩
  have hall : c.message scope name known
      ∈ m.body.flatMap (c.declMessages (topLevelNames m.body)) := by
    refine List.mem_flatMap.mpr ⟨d, hd, ?_⟩
    rw [declMessages, hscope]
    exact List.mem_map_of_mem hmissing
  rw [check, Module.withErrors, List.mem_append]
  by_cases hold : c.message scope name known ∈ m.errors
  · exact .inl hold
  · refine .inr (List.mem_filter.mpr ⟨Text.mem_distinct.mpr hall, ?_⟩)
    simpa using hold

end Derw

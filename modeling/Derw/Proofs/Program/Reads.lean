import Derw.Proofs.Match.Plan
import Derw.Proofs.Name.Interpolation
import Derw.Script.Lower

/-!
# Proofs/Program/Reads — the names that a program reads

A term reads the name that it starts with, if it is a name, a path or a call; a template reads the
names in its interpolations, and so does a test against a format. Everything else reads what its
parts read. Left out are the names that only the program has, such as the subject of a case: they
are always bound where they stand.

A match reads what the formats of its pattern read, whether it is laid out with searches or in one
declaration (`formatNames_branchMatch_subset`). So a case reads its subject, the formats of its
patterns and the bodies of its branches, however these are told apart.
-/

namespace Derw

open Name (leadingName templateNames)

/-! ## Formats -/

/-- The names that a shape reads in its test. -/
def Shape.formatNames : Shape → List String
  | .format body => templateNames body
  | .tag .. | .text _ | .empty => []

/-- The names that a part of a list pattern reads. -/
def Part.formatNames : Part → List String
  | .binder _ => []
  | .shape s => s.formatNames

/-- The names in the formats of a pattern. -/
def Pattern.formatNames : Pattern → List String
  | .shape s => s.formatNames
  | .list parts => parts.flatMap Part.formatNames
  | .anything => []

namespace Script

/-- The names in the format that a test compares with. -/
def Test.formatNames : Test → List String
  | .format body => templateNames body
  | .tag _ | .text _ | .empty => []

/-- The names that a condition reads, besides the variables of the match. -/
def Cond.formatNames : Cond → List String
  | .passes _ test => test.formatNames
  | .lengthAtLeast _ | .lengthOver _ | .lengthIs _ => []

/-- The names in the formats that a match compares with. -/
def Nest.formatNames : Nest → List String
  | .body => []
  | .bind _ rest | .scope rest => rest.formatNames
  | .guard conditions rest => conditions.flatMap Cond.formatNames ++ rest.formatNames
  | .search _ _ test rest => test.formatNames ++ rest.formatNames

/-- The names that a step of a plan reads. -/
def Step.formatNames : Step → List String
  | .check c => c.formatNames
  | .bind _ => []
  | .scan _ _ test => test.formatNames

/-! ## Terms and statements -/

/-- The name of the module that a path leads to. -/
def pathName (path : List String) : List String :=
  let name := Text.join "." path
  if name.isEmpty then [] else [name]

mutual

/-- The names of the module that a term reads. Behind a module path (`foreign`) a name and the
callee of a call belong to the other module. -/
def Term.reads (foreign : Bool) : Term → List String
  | .undefined | .text _ => []
  | .raw text => if foreign then [] else (leadingName text).toList
  | .template body => templateNames body
  | .list items => readsOfTerms items
  | .range start stop => start.reads false ++ stop.reads false
  | .object entries => readsOfEntries entries
  | .ternary condition yes no => condition.reads false ++ yes.reads false ++ no.reads false
  | .invoked body => readsOfStmts body
  | .binary _ left right => left.reads false ++ right.reads false
  | .unary _ operand => operand.reads false
  | .concat left right => left.reads false ++ right.reads false
  | .cons head tail => head.reads false ++ tail.reads false
  | .qualified path value => pathName path ++ value.reads true
  | .call name args => (if foreign then [] else (leadingName name).toList) ++ readsOfTerms args
  | .arrow _ body => body.reads false
  | .arrowCall _ body args => body.reads false ++ readsOfTerms args
  | .group inner => inner.reads false

/-- The names that terms read one after the other. -/
def readsOfTerms : List Term → List String
  | [] => []
  | t :: ts => t.reads false ++ readsOfTerms ts

/-- The names that the entries of an object read. -/
def readsOfEntries : List Entry → List String
  | [] => []
  | .spread value :: es | .field _ value :: es => value.reads false ++ readsOfEntries es

/-- The names that a statement reads. -/
def Stmt.reads : Stmt → List String
  | .return value | .const _ _ value | .hold _ value => value.reads false
  | .function _ _ _ body => readsOfStmts body
  | .ifElse condition yes no => condition.reads false ++ readsOfStmts yes ++ readsOfStmts no
  | .switch _ arms => readsOfArms arms
  | .branch _ nest body => nest.formatNames ++ readsOfStmts body

/-- The names that the arms of a `switch` read. -/
def readsOfArms : List Arm → List String
  | [] => []
  | .mk _ _ body :: as => readsOfStmts body ++ readsOfArms as

/-- The names of the module that statements read. -/
def readsOfStmts : List Stmt → List String
  | [] => []
  | t :: ts => t.reads ++ readsOfStmts ts

end

/-- Behind a module path a term reads less: its own first name is one of the other module. -/
theorem Term.reads_subset (t : Term) (foreign : Bool) : t.reads foreign ⊆ t.reads false := by
  cases foreign with
  | false => exact List.Subset.refl _
  | true =>
    cases t with
    | raw => exact List.nil_subset _
    | call => exact List.subset_append_right _ _
    | undefined | text | template | list | range | object | ternary | invoked | binary | unary
    | concat | cons | qualified | arrow | arrowCall | group => exact List.Subset.refl _

theorem readsOfTerms_singleton (t : Term) : readsOfTerms [t] = t.reads false := List.append_nil _

/-- Terms read independently of each other. -/
theorem readsOfTerms_append (ts us : List Term) :
    readsOfTerms (ts ++ us) = readsOfTerms ts ++ readsOfTerms us := by
  induction ts with
  | nil => rfl
  | cons t ts ih => rw [List.cons_append, readsOfTerms, readsOfTerms, ih, List.append_assoc]

theorem readsOfStmts_singleton (s : Stmt) : readsOfStmts [s] = s.reads := List.append_nil _

/-- So do statements. -/
theorem readsOfStmts_append (ts us : List Stmt) :
    readsOfStmts (ts ++ us) = readsOfStmts ts ++ readsOfStmts us := by
  induction ts with
  | nil => rfl
  | cons t ts ih => rw [List.cons_append, readsOfStmts, readsOfStmts, ih, List.append_assoc]

/-- Whichever way an operator is written, it reads what its operands read. -/
theorem reads_lowerBinary (operator : String) (l r : Term) (foreign : Bool) :
    (lowerBinary operator l r).reads foreign = l.reads false ++ r.reads false := by
  unfold lowerBinary
  split <;> rfl

/-- An object reads what it extends, if there is something. -/
theorem readsOfEntries_entriesOf_subset (hasBase : Bool) (base : Term) (es : List Entry) :
    readsOfEntries (entriesOf hasBase base es) ⊆ base.reads false ++ readsOfEntries es := by
  cases hasBase with
  | true => exact List.Subset.refl _
  | false => exact List.subset_append_right _ _

/-- Brackets read nothing. -/
theorem reads_grouped (b : Bool) (t : Term) :
    (if b then Term.group t else t).reads false = t.reads false := by
  cases b <;> rfl

/-! ## Matches -/

/-- A test reads what its shape reads. -/
theorem formatNames_testOf (s : Shape) : (testOf s).formatNames = s.formatNames := by
  cases s <;> rfl

/-- Guards read before what they guard. -/
theorem Nest.formatNames_guarded (cs : List Cond) (n : Nest) :
    (Nest.guarded cs n).formatNames = cs.flatMap Cond.formatNames ++ n.formatNames := by
  unfold Nest.guarded
  split
  next h =>
    rw [List.isEmpty_iff.mp h]
    rfl
  next => rfl

/-- Declarations of fields and elements read no names of the module. -/
theorem Nest.formatNames_binds (bs : List Bind) (n : Nest) :
    (Nest.binds bs n).formatNames = n.formatNames := by
  induction bs with
  | nil => rfl
  | cons b bs ih => exact ih

/-- Nesting the steps of a plan neither loses nor adds a read. -/
theorem Nest.formatNames_ofSteps (pending : List Cond) (ss : List Step) :
    (Nest.ofSteps pending ss).formatNames
      = pending.flatMap Cond.formatNames ++ ss.flatMap Step.formatNames := by
  fun_induction Nest.ofSteps pending ss with
  | case1 => exact formatNames_guarded _ _
  | case2 pending c ss ih =>
    rw [ih, List.flatMap_append, List.append_assoc, List.flatMap_singleton]
    rfl
  | case3 pending b ss ih =>
    rw [formatNames_guarded, formatNames, ih]
    rfl
  | case4 pending id start test ss ih =>
    rw [formatNames_guarded, formatNames, ih]
    rfl

/-- Only the test of an element reads names, if it is made. -/
theorem formatNames_elementSteps (position : Nat) (s : Shape) (index : Index) (check : Bool) :
    (elementSteps position s index check).flatMap Step.formatNames
      = if check then s.formatNames else [] := by
  have hfields : ∀ bs : List Bind, (bs.map Step.bind).flatMap Step.formatNames = [] := by
    simp [Step.formatNames]
  cases check <;>
    simp [elementSteps, hfields, Step.formatNames, Cond.formatNames, formatNames_testOf]

/-- The element after a gap is tested by the search for it, every other one where it stands. -/
theorem formatNames_planFrom (position scans : Nat) (cursor : Index) (parts : List Part) :
    (planFrom position scans cursor parts).flatMap Step.formatNames
      = parts.flatMap Part.formatNames := by
  fun_induction planFrom position scans cursor parts with
  | case1 | case2 | case3 => rfl
  | case4 position scans cursor name s ps hgap found ih =>
    simp [ih, formatNames_elementSteps, Step.formatNames, formatNames_testOf, Part.formatNames]
  | case5 position scans cursor name s ps hgap ih => exact ih
  | case6 position scans cursor name other ps ih => exact ih
  | case7 position scans cursor s ps _ ih =>
    simp [ih, formatNames_elementSteps, Step.formatNames, Cond.formatNames, Part.formatNames]

/-- The same where all elements are declared at once. -/
theorem formatNames_elementChecks (position : Nat) (part : Part) :
    (elementChecks position part).flatMap Cond.formatNames = part.formatNames := by
  cases part with
  | binder => rfl
  | shape s => simp [elementChecks, Cond.formatNames, formatNames_testOf, Part.formatNames]

/-- All tests of a pattern without gaps. -/
theorem formatNames_allChecks_subset (fixed : List Part) :
    (fixed.mapIdx elementChecks).flatten.flatMap Cond.formatNames
      ⊆ fixed.flatMap Part.formatNames := by
  intro n hn
  obtain ⟨c, hc, hn⟩ := List.mem_flatMap.mp hn
  obtain ⟨cs, hcs, hc⟩ := List.mem_flatten.mp hc
  obtain ⟨i, hi, rfl⟩ := List.mem_mapIdx.mp hcs
  refine List.mem_flatMap.mpr ⟨fixed[i], List.getElem_mem hi, ?_⟩
  rw [← formatNames_elementChecks i]
  exact List.mem_flatMap.mpr ⟨c, hc, hn⟩

/-- A pattern without gaps reads what its parts read. -/
theorem formatNames_gapless_subset (parts : List Part) :
    (gapless parts).formatNames ⊆ parts.flatMap Part.formatNames := by
  have hchecks : (gapless parts).formatNames
      = ((parts.take (requiredLength parts)).mapIdx elementChecks).flatten.flatMap
          Cond.formatNames := by
    unfold gapless
    simp only [Nest.formatNames]
    split <;> split <;>
      simp [Nest.formatNames, Nest.formatNames_guarded, Nest.formatNames_binds, Cond.formatNames]
  rw [hchecks]
  refine List.Subset.trans (formatNames_allChecks_subset _) fun n hn => ?_
  obtain ⟨part, hpart, hn⟩ := List.mem_flatMap.mp hn
  exact List.mem_flatMap.mpr ⟨part, List.mem_of_mem_take hpart, hn⟩

/-- **The match of a branch reads no more than the formats of its pattern.** -/
theorem formatNames_branchMatch_subset (p : Pattern) :
    (branchMatch p).formatNames ⊆ p.formatNames := by
  cases p with
  | shape s =>
    simp [branchMatch, Nest.formatNames, Nest.formatNames_binds, Cond.formatNames,
      formatNames_testOf, Pattern.formatNames]
  | list parts =>
    rw [branchMatch, listMatch]
    split
    next => exact List.nil_subset _
    next =>
      split
      next =>
        rw [Nest.formatNames_ofSteps, plan, formatNames_planFrom]
        exact List.Subset.refl _
      next => exact formatNames_gapless_subset parts
  | anything => exact List.nil_subset _

/-! ## Cases -/

/-- Two lists of names next to each other. -/
theorem append_subset_append {as bs cs ds : List String} (h : as ⊆ cs) (h' : bs ⊆ ds) :
    as ++ bs ⊆ cs ++ ds :=
  List.append_subset.mpr
    ⟨List.subset_append_of_subset_left _ h, List.subset_append_of_subset_right _ h'⟩

/-- The names that the branches of a case read, those in the formats of their patterns included. -/
def readsOfBranches : List (Pattern × List Stmt) → List String
  | [] => []
  | (pattern, body) :: bs => pattern.formatNames ++ readsOfStmts body ++ readsOfBranches bs

/-- Arms read no more than their bodies: tags are texts. -/
theorem readsOfArms_subset (bs : List (Pattern × List Stmt)) :
    readsOfArms (bs.map armOf) ⊆ readsOfBranches bs := by
  induction bs with
  | nil => exact List.Subset.refl _
  | cons b bs ih =>
    obtain ⟨tag, binds, harm⟩ : ∃ tag binds, armOf b = .mk tag binds b.2 := by
      unfold armOf
      split <;> exact ⟨_, _, rfl⟩
    rw [List.map_cons, harm, readsOfArms, readsOfBranches]
    exact append_subset_append (List.subset_append_right _ _) ih

/-- Branches that are tried in turn read what their patterns and bodies read. -/
theorem readsOfStmts_branches_subset (subject : String) (bs : List (Pattern × List Stmt)) :
    readsOfStmts (bs.map fun b => .branch subject (branchMatch b.1) b.2) ⊆ readsOfBranches bs := by
  induction bs with
  | nil => exact List.Subset.refl _
  | cons b bs ih =>
    rw [List.map_cons, readsOfStmts, Stmt.reads, readsOfBranches]
    have hmatch := formatNames_branchMatch_subset b.1
    exact append_subset_append (append_subset_append hmatch (List.Subset.refl _)) ih

/-- However its branches are told apart, a case reads what its subject and its branches read. -/
theorem readsOfStmts_caseStmts_subset (subject : String) (value : Term)
    (bs : List (Pattern × List Stmt)) :
    readsOfStmts (caseStmts subject value bs) ⊆ value.reads false ++ readsOfBranches bs := by
  rw [caseStmts, readsOfStmts, Stmt.reads]
  refine append_subset_append (List.Subset.refl _) ?_
  split
  next =>
    rw [readsOfStmts_singleton, Stmt.reads]
    exact readsOfArms_subset bs
  next => exact readsOfStmts_branches_subset subject bs
  next => exact readsOfStmts_branches_subset subject bs

end Script

end Derw

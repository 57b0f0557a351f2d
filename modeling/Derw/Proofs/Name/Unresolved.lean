import Derw.Name.Missing
import Derw.Proofs.Name.Listing
import Derw.Proofs.Name.Pipe

/-!
# Proofs/Name/Unresolved — every unresolved name is reported, once and in order

A declaration is a list of places (`Decl.places`): itself, and each expression, branch and `let`
declaration inside it, at any depth. What a place defines and reads is its own matter (`Place.own`),
and `Decl.usage_eq` says that the walk through a declaration collects exactly that. So a name is
unresolved in a declaration if it is read at one of its places, and neither a place nor the module
nor the host explains it (`Unresolved`). The parameters of a lambda explain nothing.

What is said about an unresolved name has a position, that of the declaration and then that of the
first place to read the name. One text may be said at several: two functions may have one name. A
check says each text where it comes first and leaves out what the module says already. These
conditions (`Reports`) are met by one list only (`Reports.unique`).
-/

namespace Derw

open Name (Usage)

/-! ## Places -/

/-- A place in a declaration. -/
inductive Place
  /-- An expression, which may stand behind a module path. -/
  | expr (foreign : Bool) (e : Expr)
  | branch (pattern : Pattern)
  /-- A declaration, which may stand in a `let`. -/
  | decl (bound : Bool) (d : Decl)

/-- What a place itself defines and reads: a branch defines the names of its pattern, a declaration
those of its parameters and in a `let` its own; a value and a callee read the first name of a path,
unless they belong to another module, a format the names in its interpolations, and a value of
another module the path to it. -/
def Place.own : Place → Usage
  | expr foreign (.value text) | expr foreign (.call text _) =>
    if foreign then {} else .readsAll (Name.valueName text).toList
  | expr _ (.format body) => .readsAll (Name.interpolatedNames body)
  | expr _ (.qualified path _) => .reads (Text.join "." path)
  | expr .. => {}
  | branch pattern => .defines (Name.patternNames pattern)
  | decl bound (.function name params ..) =>
    .defines (if bound then [name] else []) ++ .defines (Name.paramNames params)
  | decl bound (.const name ..) => .defines (if bound then [name] else [])
  | decl .. => {}

mutual

/-- The places inside an expression at any depth, in the order of the source. -/
def Expr.inside : Expr → List Place
  | .absent | .value _ | .text _ | .format _ | .construct _ => []
  | .list items | .call _ items => placesOfExprs items
  | .range e f | .binary _ e f | .leftPipe e f | .rightPipe e f =>
    (.expr false e :: e.inside) ++ .expr false f :: f.inside
  | .object base fields | .constructWith _ base fields =>
    (.expr false base :: base.inside) ++ placesOfFields fields
  | .ifElse condition yesLets yes noLets no =>
    (.expr false condition :: condition.inside) ++ placesOfLets yesLets
      ++ (.expr false yes :: yes.inside) ++ placesOfLets noLets ++ .expr false no :: no.inside
  | .caseOf subject branches =>
    (.expr false subject :: subject.inside) ++ placesOfBranches branches
  | .unary _ e | .lambda _ e => .expr false e :: e.inside
  | .qualified _ value => .expr true value :: value.inside
  | .lambdaCall _ body args => (.expr false body :: body.inside) ++ placesOfExprs args

def placesOfExprs : List Expr → List Place
  | [] => []
  | e :: es => (.expr false e :: e.inside) ++ placesOfExprs es

def placesOfFields : List Field → List Place
  | [] => []
  | .mk _ value :: fs => (.expr false value :: value.inside) ++ placesOfFields fs

def placesOfBranches : List Branch → List Place
  | [] => []
  | .mk pattern lets body :: bs =>
    (.branch pattern :: placesOfLets lets) ++ (.expr false body :: body.inside)
      ++ placesOfBranches bs

/-- What is in a declaration, in the order the walk comes by. -/
def Decl.inside : Decl → List Place
  | .function _ _ _ lets e | .const _ _ lets e => placesOfLets lets ++ .expr false e :: e.inside
  | .imports _ | .exports _ | .union .. | .typeAlias .. | .comment _ | .multilineComment _ => []

def placesOfLets : List Decl → List Place
  | [] => []
  | d :: ds => (.decl true d :: d.inside) ++ placesOfLets ds

end

/-- A declaration at the top level and all places inside it, in the order of the source. -/
def Decl.places (d : Decl) : List Place := .decl false d :: d.inside

/-! ## The walk through the places -/

/-- What places define and read one after the other. -/
def usageOfPlaces (ps : List Place) : Usage :=
  ⟨ps.flatMap (·.own.defined), ps.flatMap (·.own.read)⟩

/-- The usage of places taken one list after another. -/
theorem usageOfPlaces_append (ps qs : List Place) :
    usageOfPlaces (ps ++ qs) = usageOfPlaces ps ++ usageOfPlaces qs :=
  congrArg₂ Usage.mk List.flatMap_append List.flatMap_append

mutual

/-- The walk through an expression meets the place itself and then those inside. -/
theorem Expr.usage_eq (foreign : Bool) :
    ∀ e : Expr, e.usage foreign = usageOfPlaces (.expr foreign e :: e.inside)
  | .absent | .text _ | .construct _ => rfl
  | .value _ | .format _ => (Usage.append_empty _).symm
  | .list items => usageOfExprs_eq items
  | .range e f | .binary _ e f | .leftPipe e f | .rightPipe e f => by
    rw [Expr.usage, e.usage_eq false, f.usage_eq false, ← usageOfPlaces_append]
    rfl
  | .object base fields | .constructWith _ base fields => by
    rw [Expr.usage, base.usage_eq false, usageOfFields_eq fields, ← usageOfPlaces_append]
    rfl
  | .ifElse condition yesLets yes noLets no => by
    rw [Expr.usage, condition.usage_eq false, usageOfLets_eq yesLets, yes.usage_eq false,
      usageOfLets_eq noLets, no.usage_eq false]
    simp only [← usageOfPlaces_append]
    rfl
  | .caseOf subject branches => by
    rw [Expr.usage, subject.usage_eq false, usageOfBranches_eq branches, ← usageOfPlaces_append]
    rfl
  | .unary _ e | .lambda _ e => e.usage_eq false
  | .qualified path value => congrArg (Usage.reads (Text.join "." path) ++ ·) (value.usage_eq true)
  | .call name args => congrArg (_ ++ ·) (usageOfExprs_eq args)
  | .lambdaCall _ body args => by
    rw [Expr.usage, body.usage_eq false, usageOfExprs_eq args, ← usageOfPlaces_append]
    rfl

theorem usageOfExprs_eq : ∀ es : List Expr, usageOfExprs es = usageOfPlaces (placesOfExprs es)
  | [] => rfl
  | e :: es => by
    rw [usageOfExprs, e.usage_eq false, usageOfExprs_eq es, ← usageOfPlaces_append, placesOfExprs]

theorem usageOfFields_eq : ∀ fs : List Field, usageOfFields fs = usageOfPlaces (placesOfFields fs)
  | [] => rfl
  | .mk _ value :: fs => by
    rw [usageOfFields, value.usage_eq false, usageOfFields_eq fs, ← usageOfPlaces_append,
      placesOfFields]

theorem usageOfBranches_eq :
    ∀ bs : List Branch, usageOfBranches bs = usageOfPlaces (placesOfBranches bs)
  | [] => rfl
  | .mk pattern lets body :: bs => by
    rw [usageOfBranches, usageOfLets_eq lets, body.usage_eq false, usageOfBranches_eq bs,
      placesOfBranches, usageOfPlaces_append, usageOfPlaces_append]
    rfl

/-- The walk through a declaration does the same. -/
theorem Decl.usage_eq (bound : Bool) :
    ∀ d : Decl, d.usage bound = usageOfPlaces (.decl bound d :: d.inside)
  | .function name params result lets body => by
    rw [Decl.usage, usageOfLets_eq lets, body.usage_eq false, Usage.append_assoc,
      ← usageOfPlaces_append]
    rfl
  | .const name type lets value => by
    rw [Decl.usage, usageOfLets_eq lets, value.usage_eq false, Usage.append_assoc,
      ← usageOfPlaces_append]
    rfl
  | .imports _ | .exports _ | .union .. | .typeAlias .. | .comment _ | .multilineComment _ => rfl

theorem usageOfLets_eq : ∀ ds : List Decl, usageOfLets ds = usageOfPlaces (placesOfLets ds)
  | [] => rfl
  | d :: ds => by
    rw [usageOfLets, d.usage_eq true, usageOfLets_eq ds, ← usageOfPlaces_append, placesOfLets]

end

/-- The names defined in a declaration, at any depth. -/
def Decl.definitions (d : Decl) : List String := d.places.flatMap (·.own.defined)

/-- The names read in a declaration, at any depth, in the order of the source. -/
def Decl.references (d : Decl) : List String := d.places.flatMap (·.own.read)

/-- A declaration of the module introduces and reads what the walk has found. -/
theorem Decl.usage_top (d : Decl) : d.usage false = ⟨d.definitions, d.references⟩ :=
  d.usage_eq false

namespace Name.Checker

/-! ## Unresolved names -/

/-- The declaration `d` of a module reads the name, and nothing explains it. -/
structure Unresolved (c : Checker) (m : Module) (d : Decl) (name : String) : Prop where
  read : name ∈ d.references
  not_visible : ∀ e ∈ m.body, name ∉ visibleNames e
  not_defined : name ∉ d.definitions
  not_host : ¬hostScope.toList <+: name.toList
  not_matched : ∀ g ∈ c.globals, g name = false

/-- The function or constant at position `i` leaves a name unresolved which it reads first at
position `j`, and this is what is said about it. -/
def ReportsAt (c : Checker) (m : Module) (i j : Nat) (text : String) : Prop :=
  ∃ d scope name, m.body[i]? = some d ∧ scopeName? d = some scope ∧ c.Unresolved m d name ∧
    d.references.idxOf name = j ∧
    text = c.message scope name (Text.distinct (topLevelNames m.body ++ d.definitions))

/-- The messages report what a module leaves unresolved and does not say yet. -/
structure Reports (c : Checker) (m : Module) (messages : List String) : Prop where
  nodup : messages.Nodup
  fresh : ∀ text ∈ messages, text ∉ m.errors
  complete : ∀ text i j, c.ReportsAt m i j text → text ∈ m.errors ++ messages
  sound : ∀ text ∈ messages, ∃ i j, c.ReportsAt m i j text
  /-- They come by declaration, and then by what is read first. -/
  ordered : messages.Pairwise fun t u => ∃ i j, c.ReportsAt m i j t ∧
    ∀ k l, c.ReportsAt m k l u → i < k ∨ i = k ∧ j < l

section

variable {c : Checker} {m : Module} {d : Decl} {xs ys : List String} {name : String}

/-- A listed message is one of an unresolved name, and one the module does not have yet. -/
theorem Reports.mem_iff (h : c.Reports m xs) {text : String} :
    text ∈ xs ↔ text ∉ m.errors ∧ ∃ i j, c.ReportsAt m i j text := by
  refine ⟨fun ht => ⟨h.fresh text ht, h.sound text ht⟩, fun ⟨hnew, i, j, hat⟩ => ?_⟩
  exact (List.mem_append.mp (h.complete text i j hat)).resolve_left hnew

/-- There is one list of such messages. -/
theorem Reports.unique (hxs : c.Reports m xs) (hys : c.Reports m ys) : xs = ys := by
  have hperm : xs.Perm ys := (List.perm_ext_iff_of_nodup hxs.nodup hys.nodup).mpr fun text =>
    hxs.mem_iff.trans hys.mem_iff.symm
  refine hperm.eq_of_pairwise (fun t u _ _ htu hut => ?_) hxs.ordered hys.ordered
  obtain ⟨i, j, ht, hbefore⟩ := htu
  obtain ⟨k, l, hu, hafter⟩ := hut
  have h₁ := hbefore k l hu
  have h₂ := hafter i j ht
  omega

/-- No one knows the name: not the host, and not a pattern of the configuration. -/
theorem isGlobal_eq_false_iff : c.isGlobal name = false ↔
    ¬hostScope.toList <+: name.toList ∧ ∀ g ∈ c.globals, g name = false := by
  rw [isGlobal, Bool.or_eq_false_iff, List.any_eq_false, ← Bool.not_eq_true,
    List.isPrefixOf_iff_prefix]
  simp only [Bool.not_eq_true]

theorem inScope_eq (topLevel : List String) (d : Decl) :
    inScope topLevel d = Text.distinct (topLevel ++ d.definitions) := by
  rw [inScope, Decl.usage_top]

/-- What the checker misses is what is unresolved. -/
theorem mem_missingNames :
    name ∈ c.missingNames (topLevelNames m.body) d ↔ c.Unresolved m d name := by
  have hscope : (inScope (topLevelNames m.body) d).contains name = false ↔
      (∀ e ∈ m.body, name ∉ visibleNames e) ∧ name ∉ d.definitions := by
    rw [← Bool.not_eq_true, List.contains_iff_mem, inScope_eq, Text.mem_distinct, List.mem_append,
      topLevelNames, Text.mem_distinct, List.mem_flatMap, not_or, not_exists]
    simp only [not_and]
  rw [missingNames, List.mem_filter, Text.mem_distinct, Bool.and_eq_true, Bool.not_eq_true',
    Bool.not_eq_true', hscope, isGlobal_eq_false_iff, Decl.usage_top]
  constructor
  · rintro ⟨hread, ⟨hvisible, hdefined⟩, hhost, hmatched⟩
    exact ⟨hread, hvisible, hdefined, hhost, hmatched⟩
  · exact fun h => ⟨h.read, ⟨h.not_visible, h.not_defined⟩, h.not_host, h.not_matched⟩

end

/-! ## Messages with their positions -/

/-- The messages about a declaration, each with the position of the declaration and that of the name
in it. -/
def placed (c : Checker) (m : Module) (x : Decl × Nat) : List ((Nat × Nat) × String) :=
  match scopeName? x.1 with
  | none => []
  | some scope => (c.missingNames (topLevelNames m.body) x.1).map fun name =>
    ((x.2, x.1.references.idxOf name), c.message scope name (inScope (topLevelNames m.body) x.1))

/-- All messages with their positions, those the module has already among them. -/
def placedAll (c : Checker) (m : Module) : List ((Nat × Nat) × String) :=
  m.body.zipIdx.flatMap (c.placed m)

section

variable (c : Checker) (m : Module)

theorem map_placed (x : Decl × Nat) :
    (c.placed m x).map (·.2) = c.declMessages (topLevelNames m.body) x.1 := by
  rw [placed, declMessages]
  cases scopeName? x.1 with
  | none => rfl
  | some scope => exact List.map_map

/-- Without the positions they are the messages in the checker's order. -/
theorem map_placedAll :
    (c.placedAll m).map (·.2) = m.body.flatMap (c.declMessages (topLevelNames m.body)) := by
  calc (c.placedAll m).map (·.2)
    _ = m.body.zipIdx.flatMap fun x => c.declMessages (topLevelNames m.body) x.1 := by
      rw [placedAll, List.map_flatMap]
      simp only [map_placed]
    _ = (m.body.zipIdx.map Prod.fst).flatMap (c.declMessages (topLevelNames m.body)) :=
      (List.flatMap_map ..).symm
    _ = m.body.flatMap (c.declMessages (topLevelNames m.body)) := by rw [List.zipIdx_map_fst]

/-- A message has every position at which a missing name gives it. -/
theorem mem_placedAll {i j : Nat} {text : String} :
    ((i, j), text) ∈ c.placedAll m ↔ c.ReportsAt m i j text := by
  rw [placedAll, List.mem_flatMap]
  constructor
  · rintro ⟨⟨d, k⟩, hd, htext⟩
    rw [placed] at htext
    cases hscope : scopeName? d with
    | none => simp [hscope] at htext
    | some scope =>
      simp only [hscope] at htext
      obtain ⟨name, hname, heq⟩ := List.mem_map.mp htext
      obtain ⟨⟨rfl, rfl⟩, rfl⟩ := by simpa only [Prod.mk.injEq] using heq
      exact ⟨d, scope, name, List.mk_mem_zipIdx_iff_getElem?.mp hd, hscope,
        mem_missingNames.mp hname, rfl, by rw [inScope_eq]⟩
  · rintro ⟨d, scope, name, hd, hscope, hname, rfl, rfl⟩
    refine ⟨(d, i), List.mk_mem_zipIdx_iff_getElem?.mpr hd, ?_⟩
    rw [placed]
    simp only [hscope]
    rw [← inScope_eq]
    exact List.mem_map_of_mem (mem_missingNames.mpr hname)

/-- In a declaration they come in the order of the names. -/
theorem pairwise_placed (x : Decl × Nat) :
    (c.placed m x).Pairwise fun r s => r.1.1 = s.1.1 ∧ r.1.2 < s.1.2 := by
  rw [placed]
  cases scopeName? x.1 with
  | none => exact .nil
  | some scope =>
    refine List.pairwise_map.mpr ?_
    rw [missingNames, Decl.usage_top]
    exact ((Text.pairwise_idxOf_distinct x.1.references).filter _).imp fun h => ⟨rfl, h⟩

theorem position_of_mem_placed {x : Decl × Nat} {r : (Nat × Nat) × String}
    (h : r ∈ c.placed m x) : r.1.1 = x.2 := by
  rw [placed] at h
  cases hscope : scopeName? x.1 with
  | none => simp [hscope] at h
  | some scope =>
    simp only [hscope] at h
    obtain ⟨name, -, rfl⟩ := List.mem_map.mp h
    rfl

/-- The positions go up. -/
theorem pairwise_placedAll :
    (c.placedAll m).Pairwise fun r s => r.1.1 < s.1.1 ∨ r.1.1 = s.1.1 ∧ r.1.2 < s.1.2 := by
  rw [placedAll, List.pairwise_flatMap]
  refine ⟨fun x _ => (c.pairwise_placed m x).imp .inr, ?_⟩
  have hpositions : m.body.zipIdx.Pairwise fun x y => x.2 < y.2 := by
    rw [← List.pairwise_map (f := Prod.snd) (R := (· < ·)), List.zipIdx_map_snd]
    exact List.pairwise_lt_range'
  refine hpositions.imp fun hlt r hr s hs => .inl ?_
  rwa [c.position_of_mem_placed m hr, c.position_of_mem_placed m hs]

/-- The fresh messages are the first ones of each text, at the positions above. -/
theorem reports_freshMessages : c.Reports m (c.freshMessages m) := by
  have hmem : ∀ {text}, text ∈ Text.distinct ((c.placedAll m).map (·.2)) ↔
      ∃ i j, c.ReportsAt m i j text := by
    intro text
    rw [Text.mem_distinct, List.mem_map]
    constructor
    · rintro ⟨⟨⟨i, j⟩, text⟩, hr, rfl⟩
      exact ⟨i, j, (c.mem_placedAll m).mp hr⟩
    · rintro ⟨i, j, h⟩
      exact ⟨((i, j), text), (c.mem_placedAll m).mpr h, rfl⟩
  have hfresh : c.freshMessages m
      = (Text.distinct ((c.placedAll m).map (·.2))).filter (!m.errors.contains ·) := by
    rw [map_placedAll]
    rfl
  rw [hfresh]
  refine ⟨(Text.nodup_distinct _).filter _, fun text h => ?_, fun text i j h => ?_,
    fun text h => ?_, ?_⟩
  · simpa using (List.mem_filter.mp h).2
  · rw [List.mem_append, List.mem_filter]
    by_cases hold : text ∈ m.errors
    · exact .inl hold
    · exact .inr ⟨hmem.mpr ⟨i, j, h⟩, by simpa using hold⟩
  · exact hmem.mp (List.mem_filter.mp h).1
  · have hfirst := Text.pairwise_distinct
      (R := fun p q : Nat × Nat => p.1 < q.1 ∨ p.1 = q.1 ∧ p.2 < q.2) (c.pairwise_placedAll m)
    refine (hfirst.filter _).imp ?_
    rintro t u ⟨⟨i, j⟩, ht, hbefore⟩
    exact ⟨i, j, (c.mem_placedAll m).mp ht, fun k l hu =>
      hbefore (k, l) ((c.mem_placedAll m).mpr hu)⟩

end

/-- **Unresolved names are reported soundly and completely.** Checking a module adds messages to it
and changes nothing else, and these are the one list of the messages about names that a function or
constant leaves unresolved, without those that the module has already. -/
theorem check_eq_iff (c : Checker) (m m' : Module) :
    c.check m = m' ↔ ∃ messages, m' = m.withErrors messages ∧ c.Reports m messages := by
  have hreports := c.reports_freshMessages m
  constructor
  · rintro rfl
    exact ⟨c.freshMessages m, rfl, hreports⟩
  · rintro ⟨messages, rfl, hmessages⟩
    rw [check, hreports.unique hmessages]

/-- Two constants of one name miss the same name, and of two names that one of them misses the
module complains already. -/
example :
    let m : Module :=
      { name := "Main"
        body := [.const "total" .absent [] (.list [.value "zeros", .value "x", .value "zeros"]),
          .const "total" .absent [] (.binary "+" (.value "x.y") (.value "totl"))]
        errors := ["failed to find 'zeros' in scope of 'total'"] }
    (({ maxDistance := 1 } : Checker).check m).errors
      = ["failed to find 'zeros' in scope of 'total'", "failed to find 'x' in scope of 'total'",
        "failed to find 'totl' in scope of 'total', perhaps you meant: total"] := by
  decide +kernel

end Name.Checker

end Derw

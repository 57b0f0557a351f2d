import Derw.Proofs.Scope.Program

/-!
# Proofs/Scope/Sites — every form has a site of its own

A site is the way to a form of the program. The forms that declare names are functions and
constants, the cases (which declare their subjects), branches and arms (which declare what their
patterns make up and bind), arrows, and ranges with their counters. No two of them have the same
site, and the scope of a program declares names at their sites only (`sites_apart`). So a mention
that knows its site knows the one form that it is meant for.

The site of a form inside another one extends the site of the other one, and two forms that stand
side by side go on from it by different turns (`Turned`).
-/

namespace Derw.Script

/-! ## Sites of declarations -/

namespace Scope

/-- The sites of all declarations, in the block itself or in one inside. -/
def sites : Scope → List Site
  | done => []
  | declare _ site rest => site :: rest.sites
  | mention _ _ rest => rest.sites
  | block inner rest => inner.sites ++ rest.sites

variable {s t : Scope} {site : Site} {l m : List Site}

/-- Statements one after the other. -/
@[simp] theorem sites_append : (s ++ t).sites = s.sites ++ t.sites := by
  induction s with
  | done => rfl
  | declare n place rest ih => exact congrArg (place :: ·) ih
  | mention n owner rest ih => exact ih
  | block inner rest _ ih =>
    have hrest : (rest ++ t).sites = rest.sites ++ t.sites := ih
    change inner.sites ++ (rest ++ t).sites = _
    rw [hrest, ← List.append_assoc]
    rfl

/-- Mentions declare nothing. -/
@[simp] theorem sites_mentionAll (mentions : List Mention) :
    (mentionAll mentions s).sites = s.sites := by
  induction mentions with
  | nil => rfl
  | cons m ms ih => exact ih

/-- A block at the end. -/
@[simp] theorem sites_block_done : (block s done).sites = s.sites := List.append_nil _

/-- A block, and what comes after it. -/
theorem sites_block_subset (hs : s.sites ⊆ l) (ht : t.sites ⊆ m) :
    (block s t).sites ⊆ l ++ m :=
  List.append_subset.mpr
    ⟨List.subset_append_of_subset_left _ hs, List.subset_append_of_subset_right _ ht⟩

/-- The same without a block. -/
theorem sites_append_subset (hs : s.sites ⊆ l) (ht : t.sites ⊆ m) : (s ++ t).sites ⊆ l ++ m := by
  rw [sites_append]
  exact sites_block_subset hs ht

/-- Names that one form declares. -/
theorem sites_declareAll_subset (names : List String) (hsite : site ∈ l) (h : s.sites ⊆ l) :
    (declareAll site names s).sites ⊆ l := by
  induction names with
  | nil => exact h
  | cons n ns ih => exact List.cons_subset.mpr ⟨hsite, ih⟩

end Scope

/-! ## Sites of forms -/

mutual

/-- The sites of the forms in a term that declare names, where the term itself is at `site`. -/
def Term.sites (site : Site) : Term → List Site
  | .undefined | .text _ | .raw _ | .template _ => []
  | .list items | .call _ items => sitesOfTerms site items
  | .range start stop =>
    site :: (stop.sites (0 :: site) ++ start.sites (1 :: site) ++ start.sites (2 :: site))
  | .object entries => sitesOfEntries site entries
  | .ternary condition yes no =>
    condition.sites (0 :: site) ++ yes.sites (1 :: site) ++ no.sites (2 :: site)
  | .invoked body => sitesOfStmts site body
  | .binary _ left right | .concat left right | .cons left right =>
    left.sites (0 :: site) ++ right.sites (1 :: site)
  | .unary _ inner | .qualified _ inner | .group inner => inner.sites (0 :: site)
  | .arrow _ body => site :: body.sites (0 :: site)
  | .arrowCall _ body args => site :: (body.sites (0 :: site) ++ sitesOfTerms (1 :: site) args)

/-- The items of a list, or arguments. -/
def sitesOfTerms (site : Site) : List Term → List Site
  | [] => []
  | t :: ts => t.sites (0 :: site) ++ sitesOfTerms (1 :: site) ts

/-- The values of an object. -/
def sitesOfEntries (site : Site) : List Entry → List Site
  | [] => []
  | .spread value :: es | .field _ value :: es =>
    value.sites (0 :: site) ++ sitesOfEntries (1 :: site) es

/-- The same in a statement. -/
def Stmt.sites (site : Site) : Stmt → List Site
  | .return value => value.sites (0 :: site)
  | .const _ _ value | .hold _ value => site :: value.sites (0 :: site)
  | .function _ _ _ body | .branch _ _ body => site :: sitesOfStmts (0 :: site) body
  | .ifElse condition yes no =>
    condition.sites (0 :: site) ++ sitesOfStmts (1 :: site) yes ++ sitesOfStmts (2 :: site) no
  | .switch _ arms => sitesOfArms (0 :: site) arms

/-- An arm is a form of its own, which its body is inside of. -/
def sitesOfArms (site : Site) : List Arm → List Site
  | [] => []
  | .mk _ _ body :: as =>
    (0 :: site) :: sitesOfStmts (0 :: site) body ++ sitesOfArms (1 :: site) as

/-- Statements of one block. -/
def sitesOfStmts (site : Site) : List Stmt → List Site
  | [] => []
  | t :: ts => t.sites (0 :: site) ++ sitesOfStmts (1 :: site) ts

end

/-! ## Different forms, different sites -/

/-- Different sites, all of them at `site` or inside it. -/
structure Under (site : Site) (sites : List Site) : Prop where
  nodup : sites.Nodup
  suffix : ∀ σ ∈ sites, site <:+ σ

/-- Different sites inside `site`, which go on from it by one of these turns. -/
structure Turned (site : Site) (turns : List Nat) (sites : List Site) : Prop where
  nodup : sites.Nodup
  turned : ∀ σ ∈ sites, ∃ i ∈ turns, i :: site <:+ σ

section

variable {site : Site} {i : Nat} {is js : List Nat} {l m : List Site}

/-- No sites at all. -/
theorem Under.nil (site : Site) : Under site [] := ⟨.nil, by simp⟩

/-- Whatever is inside a site goes on from the site around it by one turn. -/
theorem Under.turn (h : Under (i :: site) l) : Turned site [i] l :=
  ⟨h.nodup, fun σ hσ => ⟨i, List.mem_singleton_self i, h.suffix σ hσ⟩⟩

namespace Turned

/-- Side by side, by different turns. -/
theorem append (hl : Turned site is l) (hm : Turned site js m) (h : ∀ i ∈ is, i ∉ js) :
    Turned site (is ++ js) (l ++ m) := by
  refine ⟨List.nodup_append.mpr ⟨hl.nodup, hm.nodup, ?_⟩,
    List.forall_mem_append.mpr ⟨fun σ hσ => ?_, fun σ hσ => ?_⟩⟩
  · rintro σ hσl τ hτm rfl
    obtain ⟨i, hi, hσi⟩ := hl.turned σ hσl
    obtain ⟨j, hj, hσj⟩ := hm.turned σ hτm
    -- Ends of one site that have the same length are the same.
    have hsuffix := List.suffix_of_suffix_length_le hσi hσj (by simp)
    obtain ⟨rfl, -⟩ := List.cons.inj (hsuffix.eq_of_length (by simp))
    exact h i hi hj
  · obtain ⟨i, hi, hσi⟩ := hl.turned σ hσ
    exact ⟨i, List.mem_append_left _ hi, hσi⟩
  · obtain ⟨j, hj, hσj⟩ := hm.turned σ hσ
    exact ⟨j, List.mem_append_right _ hj, hσj⟩

/-- How they go on does not matter from further out. -/
theorem under (h : Turned site is l) : Under site l := by
  refine ⟨h.nodup, fun σ hσ => ?_⟩
  obtain ⟨i, -, hi⟩ := h.turned σ hσ
  exact (List.suffix_cons i site).trans hi

/-- A form at `site`, with others inside it. -/
theorem cons (h : Turned site is l) : Under site (site :: l) := by
  refine ⟨List.nodup_cons.mpr ⟨fun hsite => ?_, h.nodup⟩,
    List.forall_mem_cons.mpr ⟨List.suffix_refl _, h.under.suffix⟩⟩
  obtain ⟨i, -, hi⟩ := h.turned site hsite
  exact absurd hi.length_le (by simp)

end Turned

/-- Two forms, or lists of forms, next to each other. -/
theorem Under.append (hl : Under (0 :: site) l) (hm : Under (1 :: site) m) :
    Turned site [0, 1] (l ++ m) := hl.turn.append hm.turn (by decide)

end

mutual

/-- **Different forms of a term have different sites.** Each part of it takes a turn of its own. -/
theorem under_sites (site : Site) : ∀ t : Term, Under site (t.sites site)
  | .undefined | .text _ | .raw _ | .template _ => .nil site
  | .list items | .call _ items => under_sitesOfTerms site items
  | .range start stop =>
    (((under_sites _ stop).append (under_sites _ start)).append (under_sites _ start).turn
      (by decide)).cons
  | .object entries => under_sitesOfEntries site entries
  | .ternary condition yes no =>
    (((under_sites _ condition).append (under_sites _ yes)).append (under_sites _ no).turn
      (by decide)).under
  | .invoked body => (turned_sitesOfStmts site body).under
  | .binary _ left right | .concat left right | .cons left right =>
    ((under_sites _ left).append (under_sites _ right)).under
  | .unary _ inner | .qualified _ inner | .group inner => (under_sites _ inner).turn.under
  | .arrow _ body => (under_sites _ body).turn.cons
  | .arrowCall _ body args => ((under_sites _ body).append (under_sitesOfTerms _ args)).cons

/-- The items of a list, or arguments: each turns off from the way to those behind it. -/
theorem under_sitesOfTerms (site : Site) : ∀ ts : List Term, Under site (sitesOfTerms site ts)
  | [] => .nil site
  | t :: ts => ((under_sites _ t).append (under_sitesOfTerms _ ts)).under

/-- The values of an object. -/
theorem under_sitesOfEntries (site : Site) :
    ∀ es : List Entry, Under site (sitesOfEntries site es)
  | [] => .nil site
  | .spread value :: es | .field _ value :: es =>
    ((under_sites _ value).append (under_sitesOfEntries _ es)).under

/-- The forms of a statement, itself included if it declares names. -/
theorem under_stmtSites (site : Site) : ∀ t : Stmt, Under site (t.sites site)
  | .return value => (under_sites _ value).turn.under
  | .const _ _ value | .hold _ value => (under_sites _ value).turn.cons
  | .function _ _ _ body | .branch _ _ body => (turned_sitesOfStmts _ body).under.turn.cons
  | .ifElse condition yes no =>
    (((under_sites _ condition).append (turned_sitesOfStmts _ yes).under).append
      (turned_sitesOfStmts _ no).under.turn (by decide)).under
  | .switch _ arms => (under_sitesOfArms _ arms).turn.under

/-- The arms of a `switch`. -/
theorem under_sitesOfArms (site : Site) : ∀ as : List Arm, Under site (sitesOfArms site as)
  | [] => .nil site
  | .mk _ _ body :: as =>
    ((turned_sitesOfStmts _ body).cons.append (under_sitesOfArms _ as)).under

/-- The statements of a block. -/
theorem turned_sitesOfStmts (site : Site) :
    ∀ ts : List Stmt, Turned site [0, 1] (sitesOfStmts site ts)
  | [] => ⟨.nil, fun _ h => absurd h List.not_mem_nil⟩
  | t :: ts => (under_stmtSites _ t).append (turned_sitesOfStmts _ ts).under

end

/-! ## Declarations stand at forms -/

variable (fields : String → List String)

/-- The fields of a value are declared at the site of the match, or of the arm. -/
theorem sites_bindsScope_subset {subject : Mention} {site : Site} {binds : List Bind}
    {rest : Scope} {l : List Site} (hsite : site ∈ l) (h : rest.sites ⊆ l) :
    (bindsScope fields subject site binds rest).sites ⊆ l := by
  induction binds with
  | nil => exact h
  | cons b bs ih =>
    rw [bindsScope, List.foldr_cons, Scope.sites_mentionAll]
    exact Scope.sites_declareAll_subset _ hsite ih

/-- A match declares at its own site what its body does not declare. -/
theorem Code.sites_scopes_subset {subject : Mention} {site : Site} {body : Scope} {l : List Site}
    (hsite : site ∈ l) (hbody : body.sites ⊆ l) (c : Code) :
    (c.scopes fields subject site body).sites ⊆ l := by
  induction c with
  | done => exact List.nil_subset _
  | hole rest ih =>
    rw [scopes, Scope.sites_append]
    exact List.append_subset.mpr ⟨hbody, ih⟩
  | const b rest ih => exact sites_bindsScope_subset fields hsite ih
  | letFound id rest ih => exact List.cons_subset.mpr ⟨hsite, ih⟩
  | setFound id rest ih =>
    rw [scopes, Scope.sites_mentionAll]
    exact ih
  | exit rest ih => exact ih
  | when guards inner rest ihInner ih =>
    rw [scopes, Scope.sites_mentionAll]
    exact List.append_subset.mpr ⟨ihInner, ih⟩
  | each id start inner rest ihInner ih =>
    rw [scopes, Scope.sites, Scope.sites_mentionAll, Scope.sites, Scope.sites_mentionAll,
      Scope.sites, Scope.sites, List.append_nil]
    exact List.append_subset.mpr ⟨List.cons_subset.mpr ⟨hsite, ihInner⟩, ih⟩
  | block inner rest ihInner ih => exact List.append_subset.mpr ⟨ihInner, ih⟩

/-- A block of its own, with parameters. -/
theorem Scope.sites_parameters_subset (site : Site) (names : List String) {s : Scope}
    {l : List Site} (h : s.sites ⊆ l) :
    (Scope.block (.declareAll site names s) .done).sites ⊆ site :: l := by
  rw [sites_block_done]
  exact sites_declareAll_subset names List.mem_cons_self (List.subset_cons_of_subset _ h)

mutual

/-- **The scope of a term declares names at its forms only.** -/
theorem sites_scopes (foreign : Bool) (site : Site) :
    ∀ t : Term, (t.scopes fields foreign site).sites ⊆ t.sites site
  | .undefined | .text _ => List.nil_subset _
  | .raw _ | .template _ => by
    rw [Term.scopes, Scope.sites_mentionAll]
    exact List.nil_subset _
  | .list items => sites_scopeOfTerms site items
  | .call _ items => by
    rw [Term.scopes, Scope.sites_mentionAll]
    exact sites_scopeOfTerms site items
  | .range start stop => by
    have hcounter : (Scope.mention "_i" none (start.scopes fields false (2 :: site))).sites
        ⊆ start.sites (2 :: site) := sites_scopes false _ start
    have hfirst := Scope.sites_append_subset (sites_scopes false (0 :: site) stop)
      (sites_scopes false (1 :: site) start)
    have harrow := Scope.sites_parameters_subset site ["_v", "_i"] hcounter
    exact List.Subset.trans (Scope.sites_append_subset hfirst harrow) List.perm_middle.subset
  | .object entries => sites_scopeOfEntries site entries
  | .ternary condition yes no =>
    Scope.sites_append_subset
      (Scope.sites_append_subset (sites_scopes false _ condition) (sites_scopes false _ yes))
      (sites_scopes false _ no)
  | .invoked body => by
    rw [Term.scopes, Scope.sites_block_done]
    exact sites_scopeOfStmts site site body
  | .binary _ left right | .concat left right | .cons left right =>
    Scope.sites_append_subset (sites_scopes false _ left) (sites_scopes false _ right)
  | .unary _ inner | .group inner => sites_scopes false (0 :: site) inner
  | .qualified _ inner => by
    rw [Term.scopes, Scope.sites_mentionAll]
    exact sites_scopes true (0 :: site) inner
  | .arrow params body => Scope.sites_parameters_subset site params (sites_scopes false _ body)
  | .arrowCall params body args => by
    rw [Term.scopes, Term.sites, ← List.cons_append]
    refine Scope.sites_block_subset ?_ (sites_scopeOfTerms _ args)
    exact Scope.sites_declareAll_subset _ List.mem_cons_self
      (List.subset_cons_of_subset _ (sites_scopes false _ body))

/-- The items of a list, or arguments. -/
theorem sites_scopeOfTerms (site : Site) :
    ∀ ts : List Term, (scopeOfTerms fields site ts).sites ⊆ sitesOfTerms site ts
  | [] => List.nil_subset _
  | t :: ts => Scope.sites_append_subset (sites_scopes false _ t) (sites_scopeOfTerms _ ts)

/-- The values of an object. -/
theorem sites_scopeOfEntries (site : Site) :
    ∀ es : List Entry, (scopeOfEntries fields site es).sites ⊆ sitesOfEntries site es
  | [] => List.nil_subset _
  | .spread value :: es | .field _ value :: es =>
    Scope.sites_append_subset (sites_scopes false _ value) (sites_scopeOfEntries _ es)

/-- A statement declares at its own site, or leaves it to the forms inside it. -/
theorem sites_stmtScopes (held site : Site) :
    ∀ t : Stmt, (t.scopes fields held site).sites ⊆ t.sites site
  | .return value => sites_scopes false (0 :: site) value
  | .const name _ value | .hold name value => by
    rw [Stmt.scopes, Scope.sites_append]
    exact List.append_subset.mpr
      ⟨List.subset_cons_of_subset _ (sites_scopes false _ value), by simp [Scope.sites, Stmt.sites]⟩
  | .function name params _ body =>
    List.cons_subset.mpr
      ⟨List.mem_cons_self, Scope.sites_parameters_subset site _ (sites_scopeOfStmts _ _ body)⟩
  | .ifElse condition yes no => by
    rw [Stmt.sites, List.append_assoc]
    refine Scope.sites_append_subset (sites_scopes false _ condition)
      (Scope.sites_block_subset (sites_scopeOfStmts _ _ yes) ?_)
    rw [Scope.sites_block_done]
    exact sites_scopeOfStmts _ _ no
  | .switch subject arms => by
    rw [Stmt.scopes, Scope.sites, Scope.sites_block_done]
    exact sites_scopeOfArms _ (0 :: site) arms
  | .branch subject nest body =>
    Code.sites_scopes_subset fields List.mem_cons_self
      (List.subset_cons_of_subset _ (sites_scopeOfStmts _ _ body)) nest.code

/-- The arms of a `switch`. -/
theorem sites_scopeOfArms (subject : Mention) (site : Site) :
    ∀ as : List Arm, (scopeOfArms fields subject site as).sites ⊆ sitesOfArms site as
  | [] => List.nil_subset _
  | .mk _ _ body :: as =>
    Scope.sites_block_subset
      (sites_bindsScope_subset fields List.mem_cons_self
        (List.subset_cons_of_subset _ (sites_scopeOfStmts _ _ body)))
      (sites_scopeOfArms subject _ as)

/-- The statements of a block. -/
theorem sites_scopeOfStmts (held site : Site) :
    ∀ ts : List Stmt, (scopeOfStmts fields held site ts).sites ⊆ sitesOfStmts site ts
  | [] => List.nil_subset _
  | t :: ts => Scope.sites_append_subset (sites_stmtScopes held _ t) (sites_scopeOfStmts _ _ ts)

end

/-- **Different forms have different sites**, in every term and in all statements, and the scope of
a program declares nothing anywhere else. -/
theorem sites_apart (site : Site) :
    (∀ t : Term, (t.sites site).Nodup ∧
      ∀ foreign, (t.scopes fields foreign site).sites ⊆ t.sites site) ∧
    ∀ ss : List Stmt, (sitesOfStmts site ss).Nodup ∧
      ∀ held, (scopeOfStmts fields held site ss).sites ⊆ sitesOfStmts site ss :=
  ⟨fun t => ⟨(under_sites site t).nodup, fun foreign => sites_scopes fields foreign site t⟩,
    fun ss => ⟨(turned_sitesOfStmts site ss).nodup,
      fun held => sites_scopeOfStmts fields held site ss⟩⟩

end Derw.Script

import Derw.Proofs.Scope.Lowering
import Derw.Proofs.Scope.Match

/-!
# Proofs/Scope/Temporaries — temporaries get to their own declarations

Only subjects are numbered by how deep a case stands. Elements, searches and their counters are
numbered within a pattern, and start again in the next one. Still no mention of a temporary is
caught by another case or pattern: the scopes of lowered programs are tidy (`tidyLaws`). A term
declares nothing in the block around it, `let`s declare names of the module there, and a body at
most the subject of one case.
-/

namespace Derw.Script

variable {fields : String → List String} {depth : Nat} {held site : Site} {s : Scope}

/-- A scope that declares names of the module alone has no temporary among its own. -/
theorem Scope.not_mem_locals (h : ∀ n ∈ s.locals, isTemporary n = false) {n : String}
    (htemp : isTemporary n = true) : n ∉ s.locals := by
  intro hn
  rw [h n hn] at htemp
  cases htemp

theorem below_subject : Below 0 0 [(subjectName depth, held)] :=
  List.forall_mem_singleton.mpr (.inl ⟨depth, rfl⟩)

/-- The body of a branch declares at most the subject of a case that is one deeper. -/
theorem hosts_body (hs : s.Tidy [])
    (hlocals : ∀ n ∈ s.locals, isTemporary n = true → n = subjectName (depth + 1)) :
    Hosts [(subjectName depth, held)] s := by
  refine ⟨hs, fun x hx htemp => ?_⟩
  obtain rfl := hlocals x hx htemp
  refine ⟨fun hmem => ?_, depth + 1, rfl⟩
  have hsame := subjectName_injective (List.mem_singleton.mp hmem)
  exact Nat.succ_ne_self depth hsame

/-- A match around the body of a branch. -/
theorem Nest.Clean.tidy_branch {n : Nest}
    (h : n.Clean fields site [(subjectName depth, held)]) (hs : s.Tidy [])
    (hlocals : ∀ n ∈ s.locals, isTemporary n = true → n = subjectName (depth + 1)) :
    (n.scopes fields (subjectName depth, some held) site s).Tidy [(subjectName depth, held)] :=
  h.tidy List.mem_cons_self (List.forall_mem_singleton.mpr (isTemporary_subjectName depth))
    (hosts_body hs hlocals)

variable (fields) in
/-- **The scopes of lowered programs are tidy.** -/
def tidyLaws : ScopeLaws fields (Pattern.binders fields) (isTemporary · = false) where
  term s := s.locals = [] ∧ s.Tidy []
  lets s := (∀ n ∈ s.locals, isTemporary n = false) ∧ s.Tidy []
  body depth s := (∀ n ∈ s.locals, isTemporary n = true → n = subjectName depth) ∧ s.Tidy []
  after depth held s := s.locals = [] ∧ s.Tidy [(subjectName depth, held)]
  ok_counters := by decide
  term_done := ⟨rfl, trivial⟩
  term_mention h := ⟨h.1, by simp, h.2⟩
  term_append := by
    rintro s t ⟨hs, hstidy⟩ ⟨ht, httidy⟩
    exact ⟨by simp [hs, ht], hstidy.append httidy (by simp [hs])⟩
  term_block h := ⟨rfl, h.2, trivial⟩
  term_arrow hns h := ⟨rfl, Scope.tidy_declareAll_names hns h.2, trivial⟩
  lets_done := ⟨by simp, trivial⟩
  lets_append := by
    rintro s t ⟨hs, hstidy⟩ ⟨ht, httidy⟩
    refine ⟨?_, hstidy.append httidy fun n hn htemp => absurd hn (Scope.not_mem_locals hs htemp)⟩
    rw [Scope.locals_append]
    exact List.forall_mem_append.mpr ⟨hs, ht⟩
  lets_const := by
    rintro n site s hn ⟨hs, hstidy⟩
    refine ⟨by simpa [hs] using hn, hstidy.append ⟨by simp, trivial⟩ (by simp [hs])⟩
  lets_function := by
    rintro n site ns depth s hn hns ⟨-, hs⟩
    exact ⟨by simpa using hn, by simp,
      Scope.tidy_declareAll_names hns (hs.mono (List.nil_subset _)), trivial⟩
  body_term h := ⟨by simp [h.1], h.2⟩
  body_lets := by
    rintro depth s t ⟨hs, hstidy⟩ ⟨ht, httidy⟩
    refine ⟨?_, hstidy.append httidy fun n hn htemp => absurd hn (Scope.not_mem_locals hs htemp)⟩
    rw [Scope.locals_append]
    exact List.forall_mem_append.mpr
      ⟨fun n hn htemp => absurd hn (Scope.not_mem_locals hs htemp), ht⟩
  body_case := by
    rintro depth site s t ⟨hs, hstidy⟩ ⟨ht, httidy⟩
    refine ⟨by simp [hs, ht], hstidy.append ⟨by simp [ht], ?_⟩ (by simp [hs])⟩
    rw [if_pos (isTemporary_subjectName depth)]
    exact httidy
  after_done := ⟨rfl, trivial⟩
  after_append := by
    rintro depth held s t ⟨hs, hstidy⟩ ⟨ht, httidy⟩
    exact ⟨by simp [hs, ht], hstidy.append httidy (by simp [hs])⟩
  after_switch := by
    rintro depth held s ⟨hs, htidy⟩
    refine ⟨rfl, by simp, ?_, trivial⟩
    simpa [hs] using htidy
  after_arm := by
    rintro depth held site p s hp ⟨hs, htidy⟩
    exact ⟨rfl, (clean_armMatch hp).tidy_branch htidy hs⟩
  after_branch := by
    rintro depth held site p s hp ⟨hs, htidy⟩
    refine ⟨?_, (clean_branchMatch hp below_subject).tidy_branch htidy hs⟩
    rw [Scope.locals, Nest.declared_of_opens (Nest.opens_branchMatch p)]
    rfl

/-- A tidy scope is sound in any block that its own declarations leave as they are. -/
theorem Scope.Tidy.sound_anywhere (h : s.Tidy []) (hlocals : ∀ n ∈ s.locals, isTemporary n = false)
    (here : OpenBlock) (outer : List OpenBlock) : s.Sound here outer := by
  refine h.sound (fun n hn htemp => ?_) (fun k hk => absurd hk List.not_mem_nil)
  exact absurd hn (Scope.not_mem_locals hlocals htemp)

/-- **Temporaries get to their own declarations.** In the program of an expression, and in that of a
declaration, wherever these stand, every temporary that is mentioned stands for what the same case
or the same pattern has declared, and no block declares a temporary twice, as long as the module
itself declares no name of that kind. Cases and patterns are told apart by their sites
(`sites_apart`). -/
theorem temporaries_resolve (fields : String → List String) (site : Site) (here : OpenBlock)
    (outer : List OpenBlock) :
    (∀ e : Expr, (∀ n ∈ e.declares (Pattern.binders fields), isTemporary n = false) →
      ((termOf e).scopes fields false site).Sound here outer) ∧
    ∀ d : Decl, (∀ n ∈ d.declares (Pattern.binders fields), isTemporary n = false) →
      (scopeOfStmts fields site site (lowerDecl 0 d)).Sound here outer := by
  refine ⟨fun e he => ?_, fun d hd => ?_⟩
  · obtain ⟨hlocals, htidy⟩ := (holds_lower (tidyLaws fields) 0 .nothing
      ScopeLaws.terms_nothing e he).term false site
    exact htidy.sound_anywhere (by simp [hlocals]) here outer
  · obtain ⟨hlocals, htidy⟩ := holds_lowerDecl (tidyLaws fields) 0 d hd site site
    exact htidy.sound_anywhere hlocals here outer

/-- Cases in a branch, in a `let` and in a lambda, with elements that are nameless and with searches
at several depths: `_0`, `_found0` and `_i0` are declared again and again. -/
theorem temporaries_resolve_nested :
    let fields : String → List String := fun text => (fieldNames? text).getD []
    let texts : Expr := .caseOf (.value "x")
      [.mk (.list [.shape (.text "a"), .binder "more", .shape (.text "b")]) [] (.value "at"),
        .mk .anything [] (.value "tail")]
    let gapped : Pattern := .list [.binder "first", .binder "gap",
      .shape (.tag "Close" "\x7b at \x7d"), .binder "tail"]
    let inner : Expr := .caseOf (.value "rest")
      [.mk (.list [.shape (.tag "Skip" ""), .shape .empty]) [] (.value "value"),
        .mk .anything [] (.value "rest")]
    let e : Expr := .caseOf (.value "xs")
      [.mk (.list [.shape (.tag "Open" "\x7b value \x7d"), .binder "rest"])
        [.const "inner" .absent [] inner]
        (.caseOf (.value "inner")
          [.mk gapped [] (.lambda ["x"] texts), .mk .anything [] (.value "value")]),
        .mk .anything [] (.value "xs")]
    let d : Decl := .function "f" [⟨some "xs", .absent⟩] .absent [] e
    let s := (termOf e).scopes fields false []
    (s.occurrences ⟨[], []⟩ []).countP (·.owner.isSome) = 39 ∧
      (s.blocks.countP (·.contains "_0"), s.blocks.countP (·.contains "_found0")) = (3, 2) ∧
      s.Sound ⟨[], []⟩ [] ∧ (scopeOfStmts fields [] [] (lowerDecl 0 d)).Sound ⟨[], []⟩ [] := by
  intro fields texts gapped inner e d s
  obtain ⟨hexpr, hdecl⟩ := temporaries_resolve fields [] ⟨[], []⟩ []
  exact ⟨by decide +kernel, by decide +kernel, hexpr e (by decide +kernel),
    hdecl d (by decide +kernel)⟩

end Derw.Script

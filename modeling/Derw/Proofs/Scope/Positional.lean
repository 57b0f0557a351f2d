import Derw.Proofs.Scope.Lowering
import Derw.Proofs.Scope.Match

/-!
# Proofs/Scope/Positional — parameters without a name

A parameter without a name is called by its position, `_0`, `_1` and so on, and so is an element of
a list that its pattern leaves nameless. Where both meet, the element wins: a reference to the
parameter in the body of such a branch gets to the element (`positional_caught`).

What a branch declares around its body is what its pattern binds and the positions of its nameless
elements, no more and no less (`mem_names_branchMatch`). So the parameter is reached from anywhere
in a function as long as no pattern in it leaves the element at that very position nameless, and
nothing else there is called like it (`positional_resolve`).
-/

namespace Derw

/-! ## Nameless elements -/

/-- Whether the element at a position gets no name: the part there is a shape, and not the `[]` at
the end. -/
def isNameless (parts : List Part) (i : Nat) : Bool :=
  match parts[i]? with
  | some (.shape .empty) => i + 1 != parts.length
  | some (.shape _) => true
  | some (.binder _) | none => false

/-- The positions of the elements that a pattern leaves nameless. -/
def Pattern.nameless : Pattern → List Nat
  | .list parts => (List.range parts.length).filter (isNameless parts)
  | .shape _ | .anything => []

/-- What a branch with this pattern declares around its body. -/
def Pattern.declares (fields : String → List String) (p : Pattern) : List String :=
  p.binders fields ++ p.nameless.map Script.placeholder

theorem isNameless_succ (part : Part) (ps : List Part) (i : Nat) :
    isNameless (part :: ps) (i + 1) = isNameless ps i := by
  simp [isNameless]

theorem Pattern.mem_nameless {parts : List Part} {i : Nat} :
    i ∈ (Pattern.list parts).nameless ↔ isNameless parts i = true := by
  rw [nameless, List.mem_filter, List.mem_range, and_iff_right_iff_imp]
  intro h
  by_contra hi
  simp [isNameless, List.getElem?_eq_none (Nat.le_of_not_lt hi)] at h

end Derw

namespace Derw.Script

variable {fields : String → List String} {x : String} {position : Nat} {ps : List Part}

/-- A name that parts bind, or the position of a nameless element, where the first part has this
position. -/
def Names (fields : String → List String) (position : Nat) (parts : List Part) (x : String) :
    Prop :=
  x ∈ parts.flatMap (Part.binders fields) ∨
    ∃ i, isNameless parts i = true ∧ x = placeholder (position + i)

theorem exists_nameless_cons (part : Part) :
    (∃ i, isNameless (part :: ps) i = true ∧ x = placeholder (position + i)) ↔
      (isNameless (part :: ps) 0 = true ∧ x = placeholder position) ∨
        ∃ i, isNameless ps i = true ∧ x = placeholder (position + 1 + i) := by
  constructor
  · rintro ⟨i, hi, rfl⟩
    cases i with
    | zero => exact .inl ⟨hi, rfl⟩
    | succ i =>
      rw [isNameless_succ] at hi
      exact .inr ⟨i, hi, by rw [Nat.add_right_comm, Nat.add_assoc]⟩
  · rintro (⟨h, rfl⟩ | ⟨i, hi, rfl⟩)
    · exact ⟨0, h, rfl⟩
    · exact ⟨i + 1, (isNameless_succ part ps i).trans hi, by rw [Nat.add_right_comm, Nat.add_assoc]⟩

theorem not_names_nil : ¬ Names fields position [] x := by
  simp [Names, isNameless]

theorem names_binder (name : String) :
    Names fields position (.binder name :: ps) x ↔ x = name ∨ Names fields (position + 1) ps x := by
  have hbinder : isNameless (.binder name :: ps) 0 = false := rfl
  rw [Names, exists_nameless_cons, hbinder, Names, List.flatMap_cons, List.mem_append]
  simp [Part.binders, or_assoc]

theorem names_shape {s : Shape} (h : s = .empty → ps ≠ []) :
    Names fields position (.shape s :: ps) x ↔
      (x = placeholder position ∨ x ∈ s.binders fields) ∨ Names fields (position + 1) ps x := by
  have hshape : isNameless (.shape s :: ps) 0 = true := by
    cases s with
    | empty => simpa [isNameless] using h rfl
    | tag | text | format => rfl
  rw [Names, exists_nameless_cons, hshape, Names, List.flatMap_cons, List.mem_append]
  simp only [Part.binders, true_and]
  tauto

theorem not_names_stop : ¬ Names fields position [.shape .empty] x := by
  have hstop : isNameless [.shape .empty] 0 = false := rfl
  rw [Names, exists_nameless_cons, hstop]
  simp [Part.binders, Shape.binders, isNameless]

/-! ## What a branch declares -/

/-- The names of the declarations before the body. -/
def Nest.declaredNames (fields : String → List String) (n : Nest) : List String :=
  n.declarations.flatMap (Bind.names fields)

theorem mem_names_elementSteps (s : Shape) (index : Index) (check : Bool) :
    x ∈ (bindsOf (elementSteps position s index check)).flatMap (Bind.names fields) ↔
      x = placeholder position ∨ x ∈ s.binders fields := by
  rw [bindsOf_elementSteps, List.flatMap_cons, names_fieldBinds, List.mem_append, Bind.names,
    List.mem_singleton]

theorem mem_names_planFrom {scans : Nat} {cursor : Index} {parts : List Part} :
    x ∈ (bindsOf (planFrom position scans cursor parts)).flatMap (Bind.names fields) ↔
      Names fields position parts x := by
  fun_induction planFrom position scans cursor parts with
  | case1 => simpa [bindsOf] using not_names_nil
  | case2 position scans cursor name =>
    rw [names_binder, bindsOf_bind, List.flatMap_cons, Bind.names]
    simp [bindsOf, not_names_nil]
  | case3 => simpa [bindsOf, Step.bind?] using not_names_stop
  | case4 position scans cursor name s ps hgap found ih =>
    have hs : s = .empty → ps ≠ [] := by
      rintro rfl
      simp [searchable] at hgap
    rw [names_binder, names_shape hs, ← ih, bindsOf_append, bindsOf_scan, bindsOf_bind,
      List.flatMap_append, List.flatMap_cons, List.mem_append, List.mem_append,
      mem_names_elementSteps, Bind.names, List.mem_singleton, or_assoc]
  | case5 position scans cursor name s ps hgap ih =>
    rw [names_binder, ← ih, bindsOf_check, bindsOf_bind, List.flatMap_cons, List.mem_append,
      Bind.names, List.mem_singleton]
  | case6 position scans cursor name other ps ih =>
    rw [names_binder, ← ih, bindsOf_check, bindsOf_bind, List.flatMap_cons, List.mem_append,
      Bind.names, List.mem_singleton]
  | case7 position scans cursor s ps hstop ih =>
    rw [names_shape fun hs hps => hstop hps hs, ← ih, List.cons_append, bindsOf_check,
      bindsOf_append, List.flatMap_append, List.mem_append, mem_names_elementSteps]

/-- Parts that take one element each are declared in one destructuring, and their fields after
it. -/
theorem names_fixed (position : Nat) {fixed tail : List Part}
    (h : tail = [] → fixed.getLast? ≠ some (.shape .empty)) :
    Names fields position (fixed ++ tail) x ↔
      (x ∈ fixed.mapIdx (fun i => elementName (position + i)) ∨
        x ∈ (fixed.mapIdx fun i => elementFields (position + i)).flatten.flatMap
          (Bind.names fields)) ∨
        Names fields (position + fixed.length) tail x := by
  induction fixed generalizing position with
  | nil => simp
  | cons part ps ih =>
    have hps : tail = [] → ps.getLast? ≠ some (.shape .empty) := by
      intro htail hlast
      exact h htail (by rw [List.getLast?_cons, hlast]; rfl)
    rw [mapIdx_cons_add elementName, mapIdx_cons_add elementFields, List.cons_append,
      List.flatten_cons, List.flatMap_append, List.mem_cons, List.mem_append]
    have hlength : position + (part :: ps).length = position + 1 + ps.length := by
      rw [List.length_cons, Nat.add_assoc, Nat.add_comm 1]
    rw [hlength]
    cases part with
    | binder name =>
      rw [names_binder, ih _ hps]
      simp only [elementName, elementFields, List.flatMap_nil, List.not_mem_nil, false_or]
      tauto
    | shape s =>
      rw [names_shape, ih _ hps, elementFields, names_fieldBinds, elementName]
      · tauto
      · rintro rfl hempty
        obtain ⟨rfl, htail⟩ := List.append_eq_nil_iff.mp hempty
        exact h htail rfl

theorem declaredNames_fixedNest (fixed : List Part) (length : Cond) (rest : Option String) :
    (fixedNest fixed length rest).declaredNames fields
      = fixed.mapIdx elementName ++ rest.toList
        ++ (fixed.mapIdx elementFields).flatten.flatMap (Bind.names fields) := by
  have hinner : (Nest.guarded (fixed.mapIdx elementChecks).flatten
      (.binds (fixed.mapIdx elementFields).flatten .body)).declarations
      = (fixed.mapIdx elementFields).flatten := by
    rw [Nest.declarations_guarded, Nest.declarations_binds]
    exact List.append_nil _
  rw [Nest.declaredNames, fixedNest, Nest.declarations]
  split
  next hempty =>
    obtain ⟨hfixed, hrest⟩ := Bool.and_eq_true_iff.mp hempty
    obtain rfl : fixed = [] := by simpa using hfixed
    obtain rfl : rest = none := by simpa using hrest
    rfl
  next => rw [Nest.declarations, hinner, List.flatMap_cons, Bind.names]

theorem mem_names_gapless {parts : List Part} :
    x ∈ (gapless parts).declaredNames fields ↔ Names fields 0 parts x := by
  have hfixed : ∀ fixed tail : List Part, (tail = [] → fixed.getLast? ≠ some (.shape .empty)) →
      (Names fields 0 (fixed ++ tail) x ↔ (x ∈ fixed.mapIdx elementName ∨
        x ∈ (fixed.mapIdx elementFields).flatten.flatMap (Bind.names fields)) ∨
        Names fields fixed.length tail x) := by
    intro fixed tail h
    simpa only [Nat.zero_add] using names_fixed 0 h
  rcases ending_cases parts with ⟨fixed, r, rfl⟩ | ⟨fixed, rfl⟩ | hlast
  · rw [hfixed _ _ (by simp), names_binder, gapless_rest, declaredNames_fixedNest]
    simp only [List.mem_append, Option.toList_some, List.mem_singleton, not_names_nil, or_false]
    tauto
  · rw [hfixed _ _ (by simp), gapless_stop, declaredNames_fixedNest]
    simp only [List.mem_append, Option.toList_none, List.not_mem_nil, not_names_stop, or_false]
  · have hopen := hfixed parts [] fun _ h => absurd (hlast _ h) (by simp [isEnd])
    rw [List.append_nil] at hopen
    rw [hopen, gapless_open hlast, declaredNames_fixedNest]
    simp only [List.mem_append, Option.toList_none, List.not_mem_nil, not_names_nil, or_false]

/-- **A branch declares around its body what its pattern binds and the positions of its nameless
elements.** -/
theorem mem_names_branchMatch {p : Pattern} :
    x ∈ (branchMatch p).declaredNames fields ↔ x ∈ p.declares fields := by
  match p with
  | .anything => simp [branchMatch, Nest.declaredNames, Nest.declarations, Pattern.declares,
      Pattern.binders, Pattern.nameless]
  | .shape s =>
    rw [branchMatch, Nest.declaredNames, Nest.declarations, Nest.declarations_binds,
      Nest.declarations, List.append_nil, names_fieldBinds]
    simp [Pattern.declares, Pattern.binders, Pattern.nameless]
  | .list parts =>
    have hnames : Names fields 0 parts x ↔ x ∈ (Pattern.list parts).declares fields := by
      simp only [Names, Pattern.declares, Pattern.binders, List.mem_append, List.mem_map,
        Pattern.mem_nameless, Nat.zero_add, eq_comm]
    rw [← hnames, branchMatch, listMatch]
    split
    next hempty =>
      obtain rfl := List.isEmpty_iff.mp hempty
      simpa [Nest.declaredNames, Nest.declarations] using not_names_nil
    next =>
      split
      next =>
        rw [Nest.declaredNames, Nest.declarations_ofSteps]
        exact mem_names_planFrom
      next => exact mem_names_gapless

/-- An arm declares the fields of its pattern. -/
theorem mem_names_armMatch {p : Pattern} (h : x ∈ (armMatch p).declaredNames fields) :
    x ∈ p.declares fields := by
  rw [armMatch, Nest.declaredNames, Nest.declarations, Nest.declarations_binds, Nest.declarations,
    List.append_nil] at h
  cases p with
  | shape s =>
    rw [fieldsOf, names_fieldBinds] at h
    exact List.mem_append_left _ h
  | list parts => cases h
  | anything => cases h

/-! ## Programs that do not declare a position -/

/-- All that a match declares: the names before its body, those of its searches, and what the body
declares. -/
theorem Nest.mem_names_scopes {n : Nest} {subject : Mention} {site : Site} {body : Scope}
    (h : x ∈ (n.scopes fields subject site body).names) :
    x ∈ n.declaredNames fields ∨ (∃ id, x = foundName id ∨ x = loopName id) ∨ x ∈ body.names := by
  induction n with
  | body => exact .inr (.inr (by simpa using h))
  | bind b rest ih =>
    have h : x ∈ b.names fields ∨ x ∈ (rest.scopes fields subject site body).names := by
      simpa using h
    rw [declaredNames, declarations, List.flatMap_cons, List.mem_append, or_assoc]
    exact h.imp_right ih
  | guard conditions rest ih => exact ih (by simpa [Scope.names] using h)
  | search id start test rest ih =>
    have h : x = foundName id ∨ x = loopName id ∨
        x ∈ (rest.scopes fields subject site body).names := by
      simpa [Scope.names, loopScope] using h
    rcases h with h | h | h
    · exact .inr (.inl ⟨id, .inl h⟩)
    · exact .inr (.inl ⟨id, .inr h⟩)
    · exact ih h
  | scope rest ih => exact ih (by simpa [Scope.names] using h)

/-- A match declares no position but those of its pattern. -/
theorem Nest.not_mem_names_scopes {n : Nest} {subject : Mention} {site : Site} {body : Scope}
    {i : Nat} (hn : placeholder i ∉ n.declaredNames fields) (hbody : placeholder i ∉ body.names) :
    placeholder i ∉ (n.scopes fields subject site body).names := by
  intro hmem
  rcases Nest.mem_names_scopes hmem with h | ⟨id, h | h⟩ | h
  · exact hn h
  · exact placeholder_ne (secondLetter?_foundName id) (by decide) i h
  · exact placeholder_ne (secondLetter?_loopName id) (by decide) i h
  · exact hbody h

/-- **A lowered program declares a position only where its module does**, or where a pattern leaves
the element at this position nameless. -/
def avoidLaws (fields : String → List String) (i : Nat) :
    ScopeLaws fields (Pattern.declares fields) (placeholder i ≠ ·) where
  term s := placeholder i ∉ s.names
  lets s := placeholder i ∉ s.names
  body _ s := placeholder i ∉ s.names
  after _ _ s := placeholder i ∉ s.names
  ok_counters := by
    refine List.forall_mem_cons.mpr ⟨?_, List.forall_mem_singleton.mpr ?_⟩
    · exact placeholder_ne (show secondLetter? "_v" = some 'v' from rfl) (by decide) i
    · exact placeholder_ne (show secondLetter? "_i" = some 'i' from rfl) (by decide) i
  term_done := List.not_mem_nil
  term_mention h := h
  term_append hs ht := by simp [hs, ht]
  term_block h := by simpa [Scope.names] using h
  term_arrow hns h := by simpa [Scope.names, h] using fun hmem => hns _ hmem rfl
  lets_done := List.not_mem_nil
  lets_append hs ht := by simp [hs, ht]
  lets_const hn h := by simp [Scope.names, hn, h]
  lets_function hn hns h := by simpa [Scope.names, hn, h] using fun hmem => hns _ hmem rfl
  body_term h := h
  body_lets hs ht := by simp [hs, ht]
  body_case hs ht := by simp [Scope.names, hs, ht, placeholder_ne_subjectName]
  after_done := List.not_mem_nil
  after_append hs ht := by simp [hs, ht]
  after_switch h := by simpa [Scope.names] using h
  after_arm hp hs := Nest.not_mem_names_scopes (fun h => hp _ (mem_names_armMatch h) rfl) hs
  after_branch hp hs :=
    Nest.not_mem_names_scopes (fun h => hp _ (mem_names_branchMatch.mp h) rfl) hs

/-! ## Functions -/

theorem lookup_declared {names : List String} {n : String} (site : Site) (h : n ∈ names) :
    (names.map (·, site)).lookup n = some site := by
  induction names with
  | nil => cases h
  | cons m ms ih =>
    rw [List.map_cons, List.lookup_cons]
    split
    next => rfl
    next hne =>
      refine ih ((List.mem_cons.mp h).resolve_left fun heq => ?_)
      simp [heq] at hne

/-- Only the parameter at a position is called by it, unless another one is named so. -/
theorem paramName_ne {p : Param} {i j : Nat} (hname : p.name ≠ some (placeholder i))
    (hne : j ≠ i) : Name.paramName j p ≠ placeholder i := by
  intro heq
  cases hp : p.name with
  | none =>
    rw [Name.paramName, hp, Option.getD_none] at heq
    exact hne (placeholder_injective heq)
  | some n =>
    rw [Name.paramName, hp, Option.getD_some] at heq
    exact hname (by rw [hp, heq])

section

variable {params : List Param} {i : Nat} {type : Ty} (hi : params[i]? = some ⟨none, type⟩)
  (hothers : some (placeholder i) ∉ params.map (·.name))

include hi hothers

theorem count_paramNames : (Name.paramNames params).count (placeholder i) = 1 := by
  obtain ⟨hlt, hparam⟩ := List.getElem?_eq_some_iff.mp hi
  have hlength : i < (Name.paramNames params).length := by simpa [Name.paramNames] using hlt
  have hself : (Name.paramNames params)[i] = placeholder i := by
    simp [Name.paramNames, Name.paramName, hparam, placeholder]
  have hother : ∀ j (hj : j < (Name.paramNames params).length), j ≠ i →
      (Name.paramNames params)[j] ≠ placeholder i := by
    intro j hj hne
    have hj' : j < params.length := by simpa [Name.paramNames] using hj
    have hnamed : params[j].name ≠ some (placeholder i) := fun hname =>
      hothers (List.mem_map.mpr ⟨params[j], List.getElem_mem hj', hname⟩)
    simpa [Name.paramNames] using paramName_ne hnamed hne
  have hbefore : placeholder i ∉ (Name.paramNames params).take i := by
    intro hmem
    obtain ⟨j, hj, heq⟩ := List.mem_take_iff_getElem.mp hmem
    exact hother j (by omega) (by omega) heq
  have hafter : placeholder i ∉ (Name.paramNames params).drop (i + 1) := by
    intro hmem
    obtain ⟨j, hj, heq⟩ := List.mem_drop_iff_getElem.mp hmem
    exact hother (i + 1 + j) (by omega) (by omega) heq
  rw [← List.take_append_drop i (Name.paramNames params), List.drop_eq_getElem_cons hlength, hself,
    List.count_append, List.count_cons_self, List.count_eq_zero_of_not_mem hbefore,
    List.count_eq_zero_of_not_mem hafter]

/-- In a function whose body does not declare a position, a reference to it gets to the
parameter. -/
theorem resolve_parameter {body : Scope} (hbody : placeholder i ∉ body.names) (name : String)
    (site : Site) (here : OpenBlock) (outer : List OpenBlock) :
    ∀ o ∈ (Scope.declare name site (.block (.declareAll site (Name.paramNames params) body)
        .done)).occurrences here outer,
      o.name = placeholder i → resolve o.name o.around = some site := by
  have hcount := count_paramNames hi hothers
  intro o ho
  simp only [Scope.occurrences, List.append_nil, Scope.occurrences_declareAll] at ho
  refine Scope.resolve_of_not_mem_names hbody (resolve_declared ?_ List.not_mem_nil ?_) o ho
  · have hlocal : placeholder i ∉ body.locals := fun hmem => hbody (body.locals_subset_names hmem)
    rw [OpenBlock.locals_enter, Scope.locals_declareAll, List.count_append, hcount,
      List.count_eq_zero_of_not_mem hlocal]
  · have hmem : placeholder i ∈ Name.paramNames params :=
      List.count_pos_iff.mp (hcount ▸ Nat.one_pos)
    exact lookup_declared site hmem

end

/-- **A parameter without a name is reached by its position**, from anywhere in the function, unless
something in there is declared under that name: a function, a constant, a parameter, a name that a
pattern binds, or an element at just this position that a pattern leaves nameless. And a branch
declares a position around its body exactly if its pattern leaves that element nameless. -/
theorem positional_resolve (fields : String → List String) (i : Nat) :
    (∀ p : Pattern, placeholder i ∉ p.binders fields →
      (placeholder i ∈ (branchMatch p).declaredNames fields ↔ i ∈ p.nameless)) ∧
    ∀ (depth : Nat) (name : String) (params : List Param) (result : Ty) (lets : List Decl)
      (body : Expr), (∃ type, params[i]? = some ⟨none, type⟩) →
      some (placeholder i) ∉ params.map (·.name) →
      placeholder i ∉ declaresOfLets (Pattern.declares fields) lets →
      placeholder i ∉ body.declares (Pattern.declares fields) →
      ∀ t ∈ lowerDecl depth (.function name params result lets body),
      ∀ (held site : Site) (here : OpenBlock) (outer : List OpenBlock),
      ∀ o ∈ (t.scopes fields held site).occurrences here outer,
        o.name = placeholder i → resolve o.name o.around = some site := by
  refine ⟨fun p hp => ?_, ?_⟩
  · rw [mem_names_branchMatch, Pattern.declares, List.mem_append, or_iff_right hp, List.mem_map]
    exact ⟨fun ⟨j, hj, heq⟩ => placeholder_injective heq ▸ hj, fun h => ⟨i, h, rfl⟩⟩
  · intro depth name params result lets body hunnamed hothers hlets hbody t ht held site here outer
    obtain ⟨type, hi⟩ := hunnamed
    have hapart : ∀ {ns : List String}, placeholder i ∉ ns → ∀ n ∈ ns, placeholder i ≠ n :=
      fun h n hn heq => h (heq ▸ hn)
    have hlets := holds_lowerLets (avoidLaws fields i) depth lets (hapart hlets)
    have hbody := (holds_lower (avoidLaws fields i) depth .nothing ScopeLaws.terms_nothing body
      (hapart hbody)).stmts
    obtain rfl := List.mem_singleton.mp ht
    rw [Stmt.scopes, names_parametersOf]
    exact resolve_parameter hi hothers (hlets.body hbody site (0 :: site)) name site here outer

/-- `f(_0, xs)` searches for the third part of its pattern, and refers to its first parameter from a
`let` and from the branch: the pattern declares `_2`, and both references get to the parameter. -/
theorem positional_resolve_first :
    let fields : String → List String := fun text => (fieldNames? text).getD []
    let pattern : Pattern := .list [.binder "first", .binder "gap",
      .shape (.tag "Close" "\x7b at \x7d"), .binder "rest"]
    let params : List Param := [⟨none, .absent⟩, ⟨some "xs", .absent⟩]
    let lets : List Decl := [.const "start" .absent [] (.value "_0.start")]
    let body : Expr := .caseOf (.value "xs") [.mk pattern [] (.call "g" [.value "_0", .value "at"])]
    let mentions := fun t : Stmt => (t.scopes fields [] []).occurrences ⟨[], []⟩ []
    pattern.nameless = [2] ∧ placeholder 0 ∉ (branchMatch pattern).declaredNames fields ∧
      ∀ t ∈ lowerDecl 0 (.function "f" params .absent lets body),
        (mentions t).countP (·.name == placeholder 0) = 2 ∧
          ∀ o ∈ mentions t, o.name = placeholder 0 → resolve o.name o.around = some [] := by
  intro fields pattern params lets body mentions
  obtain ⟨hpattern, hfunction⟩ := positional_resolve fields 0
  have hnameless : pattern.nameless = [2] := by decide +kernel
  have hcount : ∀ t ∈ lowerDecl 0 (.function "f" params .absent lets body),
      (mentions t).countP (·.name == placeholder 0) = 2 := by decide +kernel
  refine ⟨hnameless, fun h => ?_, fun t ht => ⟨hcount t ht, ?_⟩⟩
  · have hzero := (hpattern pattern (by decide +kernel)).mp h
    rw [hnameless] at hzero
    exact absurd hzero (by decide)
  · exact hfunction 0 "f" params .absent lets body ⟨.absent, rfl⟩ (by decide +kernel)
      (by decide +kernel) (by decide +kernel) t ht [] [] ⟨[], []⟩ []

/-- `f(_0, xs)` with a pattern whose first element is nameless: in its branch, the reference to the
parameter gets to the element. The function stands at `[]` and the branch at `[0, 1, 0]`. -/
theorem positional_caught :
    let fields : String → List String := fun text => (fieldNames? text).getD []
    let params : List Param := [⟨none, .absent⟩, ⟨some "xs", .absent⟩]
    let body : Expr := .caseOf (.value "xs")
      [.mk (.list [.shape (.tag "A" ""), .binder "rest"]) [] (.value "_0")]
    ∃ t ∈ lowerDecl 0 (.function "f" params .absent [] body),
      ∃ o ∈ (t.scopes fields [] []).occurrences ⟨[], []⟩ [],
        o.name = placeholder 0 ∧ o.owner = none ∧ resolve o.name o.around = some [0, 1, 0] := by
  decide +kernel

end Derw.Script

import Derw.Proofs.Name.Bound
import Derw.Proofs.Scope.Program
import Derw.Proofs.Scope.Tidy

/-!
# Proofs/Scope/Match — the temporaries of a match

Every branch opens a block before it declares anything (`Nest.opens_branchMatch`), so the
temporaries of two branches never meet. Inside, a match makes up a name for each element that its
pattern leaves nameless and two for each search. `Nest.Clean` says that these are new where they are
declared and known where they are read. It holds of what patterns become, because positions and
searches are counted through the whole pattern: what is known at a position has a lower number
(`Below`).
-/

namespace Derw

/-! ## What a pattern binds -/

section

variable (fields : String → List String)

/-- The names of its fields. -/
def Shape.binders : Shape → List String
  | .tag _ written => (Script.fieldsText? written).elim [] fields
  | .text _ | .format _ | .empty => []

/-- A binder's own name, or the names of a shape. -/
def Part.binders : Part → List String
  | .binder name => [name]
  | .shape s => s.binders fields

/-- The names that a pattern gives, where `fields` reads destructuring texts. -/
def Pattern.binders : Pattern → List String
  | .shape s => s.binders fields
  | .list parts => parts.flatMap (Part.binders fields)
  | .anything => []

end

end Derw

namespace Derw.Script

variable {fields : String → List String} {site : Site} {known : List (String × Site)}

/-- Taking a shape apart declares its binders. -/
theorem names_fieldBinds (source : Place) (s : Shape) :
    (fieldBinds source s).flatMap (Bind.names fields) = s.binders fields := by
  cases s with
  | tag name written =>
    simp only [fieldBinds, Shape.binders]
    cases fieldsText? written with
    | none => rfl
    | some p => exact List.append_nil _
  | text | format | empty => rfl

/-! ## Clean matches -/

variable (fields site)

/-- The temporaries that a declaration declares. -/
def Bind.made (b : Bind) : List String := (b.names fields).filter isTemporary

/-- Variables of the match that are known. -/
def Reads (known : List (String × Site)) (vs : List Var) : Prop :=
  ∀ v ∈ vs, (v.text, site) ∈ known

/-- Different names that are not known yet, and that no case gives to its subject. -/
def Fresh (known : List (String × Site)) (names : List String) : Prop :=
  names.Nodup ∧ ∀ n ∈ names, n ∉ known.map (·.1) ∧ ∀ depth, n ≠ subjectName depth

/-- Every temporary that is read is known, and every one that is declared is fresh. -/
def Nest.Clean (known : List (String × Site)) : Nest → Prop
  | .body => True
  | .bind b rest =>
    Reads site known b.reads ∧ Fresh known (b.made fields) ∧
      rest.Clean ((b.made fields).map (·, site) ++ known)
  | .guard conditions rest => (∀ c ∈ conditions, Reads site known c.reads) ∧ rest.Clean known
  | .search id start _ rest =>
    Reads site known start.reads ∧ Fresh known [foundName id, loopName id] ∧
      rest.Clean ((foundName id, site) :: known)
  | .scope rest => rest.Clean known

/-- The same of the steps of a plan. -/
def Step.Clean (known : List (String × Site)) : List Step → Prop
  | [] => True
  | .check c :: ss => Reads site known c.reads ∧ Clean known ss
  | .bind b :: ss =>
    Reads site known b.reads ∧ Fresh known (b.made fields) ∧
      Clean ((b.made fields).map (·, site) ++ known) ss
  | .scan id start _ :: ss =>
    Reads site known start.reads ∧ Fresh known [foundName id, loopName id] ∧
      Clean ((foundName id, site) :: known) ss

variable {fields site}

/-! ### The scope of a match, step by step -/

section

variable (subject : Mention) (body : Scope) (rest : Nest)

/-- Innermost is the branch's body. -/
@[simp] theorem Nest.scopes_body : Nest.body.scopes fields subject site body = body :=
  body.append_done

/-- A binding reads first and declares then, all the way into what follows. -/
@[simp] theorem Nest.scopes_bind (b : Bind) :
    (Nest.bind b rest).scopes fields subject site body
      = .mentionAll (b.mentions subject site)
          (.declareAll site (b.names fields) (rest.scopes fields subject site body)) := rfl

/-- Guards read outside of the block they open. -/
@[simp] theorem Nest.scopes_guard (cs : List Cond) :
    (Nest.guard cs rest).scopes fields subject site body
      = .mentionAll ((cs.map Guard.cond).flatMap (Guard.mentions subject site))
          (.block (rest.scopes fields subject site body) .done) := rfl

/-- A block of its own. -/
@[simp] theorem Nest.scopes_scope :
    (Nest.scope rest).scopes fields subject site body
      = .block (rest.scopes fields subject site body) .done := rfl

/-- The loop of a search, as far as names go. -/
def loopScope (subject : Mention) (site : Site) (id : Nat) (start : Index) (test : Test) : Scope :=
  .mentionAll (ownMentions site start.reads) <|
  .declare (loopName id) site <|
  .mentionAll (ownMentions site [.loop id] ++ subject :: ownMentions site [.loop id]) <|
  .block
    (.mentionAll (subject :: ownMentions site [.loop id] ++ readMentions test.formatNames) <|
      .block (.mentionAll (ownMentions site [.found id, .loop id]) .done) .done)
    .done

/-- A search declares what it has found outside of its loop, and reads it again behind it. -/
@[simp] theorem Nest.scopes_search (id : Nat) (start : Index) (test : Test) :
    (Nest.search id start test rest).scopes fields subject site body
      = .declare (foundName id) site (.block (loopScope subject site id start test)
          (.mentionAll (ownMentions site [.found id])
            (.block (rest.scopes fields subject site body) .done))) := by
  simp [Nest.scopes, Nest.code, Code.scopes, loopScope, Guard.mentions]

end

/-- The temporaries that a clean match declares in its first block are new, those of the body
apart. -/
theorem Nest.Clean.fresh {n : Nest} (h : n.Clean fields site known) (subject : Mention)
    (body : Scope) {x : String} (hx : x ∈ (n.scopes fields subject site body).locals)
    (htemp : isTemporary x = true) :
    x ∈ body.locals ∨ (x ∉ known.map (·.1) ∧ ∀ depth, x ≠ subjectName depth) := by
  induction n generalizing known with
  | body => exact .inl (by simpa using hx)
  | bind b rest ih =>
    obtain ⟨-, hfresh, hrest⟩ := h
    have hx : x ∈ b.names fields ++ (rest.scopes fields subject site body).locals := by
      simpa using hx
    rcases List.mem_append.mp hx with hx | hx
    · exact .inr (hfresh.2 x (List.mem_filter.mpr ⟨hx, htemp⟩))
    · refine (ih hrest hx).imp_right (And.imp_left fun hnot hmem => hnot ?_)
      rw [List.map_append]
      exact List.mem_append_right _ hmem
  | guard conditions rest _ => simp at hx
  | search id start test rest _ =>
    obtain rfl : x = foundName id := by simpa using hx
    exact .inr (h.2.1.2 _ List.mem_cons_self)
  | scope rest _ => simp at hx

/-! ### Clean matches are tidy -/

open Scope (AllKnown)

/-- Reading own variables that are known. -/
theorem allKnown_own {vs : List Var} (h : Reads site known vs) :
    AllKnown known (ownMentions site vs) := by
  intro m hm
  obtain ⟨v, hv, rfl⟩ := List.mem_map.mp hm
  rintro _ ⟨⟩
  exact h v hv

/-- Names of the source are read as they come. -/
theorem allKnown_read (names : List String) : AllKnown known (readMentions names) := by
  intro m hm
  obtain ⟨n, -, rfl⟩ := List.mem_map.mp hm
  rintro _ ⟨⟩

section

variable {subject : String} {held : Site} (hsubject : (subject, held) ∈ known)

include hsubject

/-- The subject is known. -/
theorem allKnown_subject : AllKnown known [(subject, some held)] := by
  refine List.forall_mem_singleton.mpr ?_
  rintro _ ⟨⟩
  exact hsubject

theorem allKnown_subject_if (b : Bool) :
    AllKnown known (if b then [(subject, some held)] else []) := by
  cases b with
  | true => exact allKnown_subject hsubject
  | false => exact fun _ hm => absurd hm List.not_mem_nil

/-- What a binding reads is known where its variables are. -/
theorem Bind.allKnown_mentions {b : Bind} (h : Reads site known b.reads) :
    AllKnown known (b.mentions (subject, some held) site) :=
  (allKnown_subject_if hsubject _).append (allKnown_own h)

/-- And what guards read. -/
theorem Cond.allKnown_mentions {cs : List Cond} (h : ∀ c ∈ cs, Reads site known c.reads) :
    AllKnown known ((cs.map Guard.cond).flatMap (Guard.mentions (subject, some held) site)) := by
  intro m hm
  rw [List.flatMap_map] at hm
  obtain ⟨c, hc, hm⟩ := List.mem_flatMap.mp hm
  have hc := (allKnown_subject_if hsubject c.looksAtSubject).append (allKnown_own (h c hc))
  exact hc.append (allKnown_read c.formatNames) m hm

/-- Inside the loop its counter is known too, and outside nothing has changed. -/
theorem tidy_loopScope {id : Nat} {start : Index} (test : Test)
    (hfound : (foundName id, site) ∈ known) (hloop : loopName id ∉ known.map (·.1))
    (hstart : Reads site known start.reads) :
    (loopScope (subject, some held) site id start test).Tidy
      (known.filter (·.1 ∉ (loopScope (subject, some held) site id start test).locals)) := by
  have hkept : known.filter
      (·.1 ∉ (loopScope (subject, some held) site id start test).locals) = known := by
    refine List.filter_eq_self.mpr fun k hk => ?_
    have hne : k.1 ≠ loopName id := fun h => hloop (h ▸ List.mem_map_of_mem hk)
    simpa [loopScope] using hne
  let inner := (loopName id, site) :: known
  have hsub : known ⊆ inner := List.subset_cons_self _ _
  have hcounter : AllKnown inner (ownMentions site [.loop id]) :=
    allKnown_own (List.forall_mem_singleton.mpr List.mem_cons_self)
  have hboth : AllKnown inner (ownMentions site [.found id, .loop id]) := by
    refine allKnown_own (List.forall_mem_cons.mpr ⟨hsub hfound, ?_⟩)
    exact List.forall_mem_singleton.mpr List.mem_cons_self
  have hlook : AllKnown inner [(subject, some held)] := allKnown_subject (hsub hsubject)
  rw [hkept]
  refine Scope.tidy_mentionAll (allKnown_own hstart) ⟨by simp, ?_⟩
  rw [if_pos (isTemporary_loopName id)]
  refine Scope.tidy_mentionAll (hcounter.append (hlook.append hcounter)) ⟨?_, trivial⟩
  simp only [Scope.locals_mentionAll, Scope.locals_block, Scope.locals_done, List.not_mem_nil,
    not_false_eq_true, decide_true, List.filter_true]
  have htests := (hlook.append hcounter).append (allKnown_read test.formatNames)
  refine Scope.tidy_mentionAll htests ⟨?_, trivial⟩
  simpa using Scope.tidy_mentionAll (s := .done) hboth trivial

end

/-- A body fits where these temporaries are known: the only one that it declares itself is the
subject of one more case. -/
structure Hosts (known : List (String × Site)) (body : Scope) : Prop where
  tidy : body.Tidy []
  subjects : ∀ x ∈ body.locals, isTemporary x = true →
    x ∉ known.map (·.1) ∧ ∃ depth, x = subjectName depth

/-- More names are no matter, as long as none of them is a subject. -/
theorem Hosts.append {body : Scope} (h : Hosts known body) (made : List (String × Site))
    (hmade : ∀ k ∈ made, ∀ depth, k.1 ≠ subjectName depth) : Hosts (made ++ known) body where
  tidy := h.tidy
  subjects := by
    intro x hx htemp
    obtain ⟨hnot, depth, rfl⟩ := h.subjects x hx htemp
    refine ⟨?_, depth, rfl⟩
    rw [List.map_append, List.mem_append, not_or]
    refine ⟨fun hmem => ?_, hnot⟩
    obtain ⟨k, hk, heq⟩ := List.mem_map.mp hmem
    exact hmade k hk depth heq

section

variable {subject : String} {held : Site} {body : Scope}

/-- Entering a clean match hides nothing that is known. -/
theorem Nest.Clean.filter_known {n : Nest} (h : n.Clean fields site known)
    (hknown : ∀ k ∈ known, isTemporary k.1 = true) (hbody : Hosts known body) (m : Mention) :
    known.filter (·.1 ∉ (n.scopes fields m site body).locals) = known := by
  refine List.filter_eq_self.mpr fun k hk => decide_eq_true fun hmem => ?_
  have hk' := List.mem_map_of_mem (f := Prod.fst) hk
  rcases h.fresh m body hmem (hknown k hk) with hlocal | ⟨hnot, -⟩
  · exact (hbody.subjects _ hlocal (hknown k hk)).1 hk'
  · exact hnot hk'

/-- **The temporaries of a clean match are tidy**, around a body that fits. -/
theorem Nest.Clean.tidy {n : Nest} (h : n.Clean fields site known)
    (hsubject : (subject, held) ∈ known) (hknown : ∀ k ∈ known, isTemporary k.1 = true)
    (hbody : Hosts known body) : (n.scopes fields (subject, some held) site body).Tidy known := by
  induction n generalizing known with
  | body =>
    rw [scopes_body]
    exact hbody.tidy.mono (List.nil_subset _)
  | bind b rest ih =>
    obtain ⟨hreads, hfresh, hrest⟩ := h
    rw [scopes_bind]
    refine Scope.tidy_mentionAll (Bind.allKnown_mentions hsubject hreads) ?_
    refine Scope.tidy_declareAll hfresh.1 (fun x hx htemp hmem => ?_) (ih hrest ?_ ?_ ?_)
    -- Nothing below declares it again: the body declares a subject at most, and to the rest of the
    -- match it is known.
    · have hmade : x ∈ b.made fields := List.mem_filter.mpr ⟨hx, htemp⟩
      rcases hrest.fresh _ body hmem htemp with hlocal | ⟨hnot, -⟩
      · obtain ⟨-, depth, hdepth⟩ := hbody.subjects x hlocal htemp
        exact (hfresh.2 x hmade).2 depth hdepth
      · refine hnot ?_
        rw [List.map_append, List.map_map]
        exact List.mem_append_left _ (by simpa using hmade)
    · exact List.mem_append_right _ hsubject
    · refine List.forall_mem_append.mpr ⟨fun k hk => ?_, hknown⟩
      obtain ⟨x, hx, rfl⟩ := List.mem_map.mp hk
      exact (List.mem_filter.mp hx).2
    · refine hbody.append _ fun k hk => ?_
      obtain ⟨x, hx, rfl⟩ := List.mem_map.mp hk
      exact (hfresh.2 x hx).2
  | guard conditions rest ih =>
    obtain ⟨hreads, hrest⟩ := h
    rw [scopes_guard]
    refine Scope.tidy_mentionAll (Cond.allKnown_mentions hsubject hreads) ⟨?_, trivial⟩
    rw [hrest.filter_known hknown hbody]
    exact ih hrest hsubject hknown hbody
  | search id start test rest ih =>
    obtain ⟨hreads, hfresh, hrest⟩ := h
    have hsub : known ⊆ (foundName id, site) :: known := List.subset_cons_self _ _
    have hknown' : ∀ k ∈ (foundName id, site) :: known, isTemporary k.1 = true :=
      List.forall_mem_cons.mpr ⟨isTemporary_foundName id, hknown⟩
    have hbody' : Hosts ((foundName id, site) :: known) body :=
      hbody.append [_] (List.forall_mem_singleton.mpr (hfresh.2 _ List.mem_cons_self).2)
    have hloop : loopName id ∉ ((foundName id, site) :: known).map (·.1) := by
      rw [List.map_cons, List.mem_cons, not_or]
      have hne : foundName id ≠ loopName id := by simpa using hfresh.1
      exact ⟨hne.symm, (hfresh.2 _ (by simp)).1⟩
    rw [scopes_search]
    refine ⟨by simp, ?_⟩
    rw [if_pos (isTemporary_foundName id)]
    -- The loop sees where the search found its element, and takes its counter away with it.
    refine ⟨tidy_loopScope (hsub hsubject) test List.mem_cons_self hloop
      fun v hv => hsub (hreads v hv), ?_⟩
    refine Scope.tidy_mentionAll
      (allKnown_own (List.forall_mem_singleton.mpr List.mem_cons_self)) ⟨?_, trivial⟩
    rw [hrest.filter_known hknown' hbody']
    exact ih hrest (hsub hsubject) hknown' hbody'
  | scope rest ih =>
    rw [scopes_scope]
    refine ⟨?_, trivial⟩
    rw [Nest.Clean.filter_known (n := rest) h hknown hbody]
    exact ih h hsubject hknown hbody

end

/-! ## Plans -/

/-- What is known belongs to a subject, to an element before `position`, or to one of the first
`scans` searches. -/
def Below (position scans : Nat) (known : List (String × Site)) : Prop :=
  ∀ k ∈ known, (∃ depth, k.1 = subjectName depth) ∨ (∃ i < position, k.1 = placeholder i) ∨
    ∃ j < scans, k.1 = foundName j

namespace Below

variable {position scans : Nat}

/-- The bounds can be raised. -/
theorem mono {p q : Nat} (h : Below position scans known) (hp : position ≤ p) (hq : scans ≤ q) :
    Below p q known := fun k hk =>
  (h k hk).imp_right <| Or.imp (fun ⟨i, hi, heq⟩ => ⟨i, hi.trans_le hp, heq⟩)
    fun ⟨j, hj, heq⟩ => ⟨j, hj.trans_le hq, heq⟩

/-- An element's placeholder takes the next position. -/
theorem element (h : Below position scans known) :
    Below (position + 1) scans ((placeholder position, site) :: known) :=
  List.forall_mem_cons.mpr
    ⟨.inr (.inl ⟨position, Nat.lt_succ_self _, rfl⟩), h.mono (Nat.le_succ _) (Nat.le_refl _)⟩

/-- A search takes the next scan. -/
theorem search (h : Below position scans known) :
    Below position (scans + 1) ((foundName scans, site) :: known) :=
  List.forall_mem_cons.mpr
    ⟨.inr (.inr ⟨scans, Nat.lt_succ_self _, rfl⟩), h.mono (Nat.le_refl _) (Nat.le_succ _)⟩

/-- A name is new if it differs from all that are counted so far. -/
theorem not_mem (h : Below position scans known) {x : String}
    (hsubject : ∀ depth, x ≠ subjectName depth) (helement : ∀ i < position, x ≠ placeholder i)
    (hfound : ∀ j < scans, x ≠ foundName j) : x ∉ known.map (·.1) := by
  intro hx
  obtain ⟨k, hk, rfl⟩ := List.mem_map.mp hx
  rcases h k hk with ⟨depth, heq⟩ | ⟨i, hi, heq⟩ | ⟨j, hj, heq⟩
  · exact hsubject depth heq
  · exact helement i hi heq
  · exact hfound j hj heq

/-- The placeholder of the next position is new. -/
theorem fresh_placeholder (h : Below position scans known) :
    Fresh known [placeholder position] := by
  have hsubject := placeholder_ne_subjectName position
  refine ⟨List.nodup_singleton _,
    List.forall_mem_singleton.mpr ⟨h.not_mem hsubject ?_ ?_, hsubject⟩⟩
  · exact fun i hi heq => hi.ne' (placeholder_injective heq)
  · exact fun j _ => placeholder_ne (secondLetter?_foundName j) (by decide) position

/-- So are the two names of the next search. -/
theorem fresh_search (h : Below position scans known) :
    Fresh known [foundName scans, loopName scans] := by
  have hfound : ∀ depth, foundName scans ≠ subjectName depth := fun depth =>
    ne_of_secondLetter? (secondLetter?_foundName _) (secondLetter?_subjectName _) (by decide)
  have hloop : ∀ depth, loopName scans ≠ subjectName depth := fun depth =>
    ne_of_secondLetter? (secondLetter?_loopName _) (secondLetter?_subjectName _) (by decide)
  have hboth : ∀ j, foundName j ≠ loopName scans := fun j =>
    ne_of_secondLetter? (secondLetter?_foundName _) (secondLetter?_loopName _) (by decide)
  refine ⟨by simpa using hboth scans, List.forall_mem_cons.mpr ⟨⟨h.not_mem hfound ?_ ?_, hfound⟩,
    List.forall_mem_singleton.mpr ⟨h.not_mem hloop ?_ ?_, hloop⟩⟩⟩
  · exact fun i _ => (placeholder_ne (secondLetter?_foundName _) (by decide) i).symm
  · exact fun j hj heq => hj.ne' (foundName_injective heq)
  · exact fun i _ => (placeholder_ne (secondLetter?_loopName _) (by decide) i).symm
  · exact fun j _ => (hboth j).symm

end Below

theorem fresh_nil : Fresh known [] := ⟨List.nodup_nil, by simp⟩

/-- Names of the module are none of the temporaries that a declaration makes up. -/
theorem Bind.made_eq_nil {b : Bind} (h : ∀ n ∈ b.names fields, isTemporary n = false) :
    b.made fields = [] := List.filter_eq_nil_iff.mpr (by simpa using h)

namespace Step

variable {ss : List Step}

/-- Checks declare nothing. -/
theorem clean_checks {cs : List Cond} :
    Clean fields site known (cs.map .check ++ ss) ↔
      (∀ c ∈ cs, Reads site known c.reads) ∧ Clean fields site known ss := by
  induction cs with
  | nil => simp
  | cons c cs ih => simp [Clean, ih, and_assoc]

/-- A declaration of names of the module. -/
theorem clean_bind {b : Bind} (hreads : Reads site known b.reads)
    (hnames : ∀ n ∈ b.names fields, isTemporary n = false) (hss : Clean fields site known ss) :
    Clean fields site known (.bind b :: ss) := by
  refine ⟨hreads, ?_⟩
  rw [Bind.made_eq_nil hnames]
  exact ⟨fresh_nil, hss⟩

/-- The fields of a known place. -/
theorem clean_fieldBinds {n : String} {s : Shape} (hn : (n, site) ∈ known)
    (hs : ∀ x ∈ s.binders fields, isTemporary x = false) (hss : Clean fields site known ss) :
    Clean fields site known ((fieldBinds (.name n) s).map .bind ++ ss) := by
  cases s with
  | tag name written =>
    cases hf : fieldsText? written with
    | none => simpa [fieldBinds, hf] using hss
    | some text =>
      have hnames : ∀ x ∈ fields text, isTemporary x = false := by
        simpa [Shape.binders, hf] using hs
      simp only [fieldBinds, hf, Option.map_some, Option.toList_some, List.map_cons, List.map_nil]
      exact clean_bind (List.forall_mem_singleton.mpr hn) hnames hss
  | text | format | empty => exact hss

/-- An element is put into a placeholder, then checked and taken apart. -/
theorem clean_elementSteps {position scans : Nat} {s : Shape} {i : Index} (check : Bool)
    (hi : Reads site known i.reads) (hknown : Below position scans known)
    (hs : ∀ x ∈ s.binders fields, isTemporary x = false)
    (hss : Clean fields site ((placeholder position, site) :: known) ss) :
    Clean fields site known (elementSteps position s i check ++ ss) := by
  have hmade : (Bind.element (placeholder position) i).made fields = [placeholder position] := by
    simp [Bind.made, Bind.names]
  have hfields := clean_fieldBinds List.mem_cons_self hs hss
  rw [elementSteps, List.append_assoc]
  refine ⟨hi, ?_⟩
  rw [hmade]
  refine ⟨hknown.fresh_placeholder, ?_⟩
  cases check with
  | false => exact hfields
  | true => exact ⟨List.forall_mem_singleton.mpr List.mem_cons_self, hfields⟩

/-- The steps of a plan are clean, by induction on the parts: positions and scans count on. -/
theorem clean_planFrom {position scans : Nat} {i : Index} {parts : List Part}
    (hi : Reads site known i.reads) (hknown : Below position scans known)
    (hparts : ∀ x ∈ parts.flatMap (Part.binders fields), isTemporary x = false) :
    Clean fields site known (planFrom position scans i parts) := by
  have hbinder : ∀ {name : String} {ps : List Part},
      (∀ x ∈ (Part.binder name :: ps).flatMap (Part.binders fields), isTemporary x = false) →
      (∀ x ∈ [name], isTemporary x = false) ∧
        ∀ x ∈ ps.flatMap (Part.binders fields), isTemporary x = false :=
    List.forall_mem_append.mp
  fun_induction planFrom position scans i parts generalizing known with
  | case1 => trivial
  | case2 position scans i name =>
    exact clean_bind (by simpa [Bind.reads] using hi) (hbinder hparts).1 trivial
  | case3 position scans i => exact ⟨hi, trivial⟩
  | case4 position scans i name s ps hgap found =>
    -- A gap: from here on positions are counted from the element found.
    rename_i ih
    obtain ⟨hname, hparts⟩ := hbinder hparts
    obtain ⟨hs, hparts⟩ := List.forall_mem_append.mp hparts
    have hhere : Reads site ((foundName scans, site) :: known) found.reads :=
      List.forall_mem_singleton.mpr List.mem_cons_self
    have hbefore : Reads site ((foundName scans, site) :: known) i.reads :=
      fun v hv => List.mem_cons_of_mem _ (hi v hv)
    refine ⟨hi, hknown.fresh_search, clean_bind ?_ hname ?_⟩
    · exact List.forall_mem_append.mpr ⟨hbefore, hhere⟩
    · have hsearch : Below (position + 1) (scans + 1) ((foundName scans, site) :: known) :=
        hknown.search.mono (Nat.le_succ position) (Nat.le_refl _)
      refine clean_elementSteps false hhere hsearch hs (ih ?_ hsearch.element hparts)
      exact fun v hv => List.mem_cons_of_mem _ (hhere v hv)
  | case5 position scans i name s ps hgap ih =>
    obtain ⟨hname, hparts⟩ := hbinder hparts
    have hnext := hknown.mono (Nat.le_succ position) (Nat.le_refl _)
    exact ⟨hi, clean_bind hi hname (ih hi hnext hparts)⟩
  | case6 position scans i name other ps ih =>
    obtain ⟨hname, hparts⟩ := hbinder hparts
    have hnext := hknown.mono (Nat.le_succ position) (Nat.le_refl _)
    exact ⟨hi, clean_bind hi hname (ih hi hnext hparts)⟩
  | case7 position scans i s ps _ ih =>
    obtain ⟨hs, hparts⟩ := List.forall_mem_append.mp hparts
    refine ⟨hi, clean_elementSteps true hi hknown hs (ih ?_ hknown.element hparts)⟩
    exact fun v hv => List.mem_cons_of_mem _ (hi v hv)

end Step

/-- Guards before a match. -/
theorem Nest.clean_guarded {cs : List Cond} {n : Nest} (hcs : ∀ c ∈ cs, Reads site known c.reads)
    (hn : n.Clean fields site known) : (Nest.guarded cs n).Clean fields site known := by
  unfold Nest.guarded
  split
  next => exact hn
  next => exact ⟨hcs, hn⟩

/-- Steps nest into a clean match, whatever guards are still pending. -/
theorem Nest.clean_ofSteps (pending : List Cond) {ss : List Step}
    (h : Step.Clean fields site known (pending.map .check ++ ss)) :
    (Nest.ofSteps pending ss).Clean fields site known := by
  fun_induction Nest.ofSteps pending ss generalizing known with
  | case1 pending => exact clean_guarded (Step.clean_checks.mp h).1 trivial
  | case2 pending c ss ih => exact ih (by simpa using h)
  | case3 pending b ss ih =>
    obtain ⟨hpending, hreads, hfresh, hss⟩ := Step.clean_checks.mp h
    exact clean_guarded hpending ⟨hreads, hfresh, ih hss⟩
  | case4 pending id start test ss ih =>
    obtain ⟨hpending, hreads, hfresh, hss⟩ := Step.clean_checks.mp h
    exact clean_guarded hpending ⟨hreads, hfresh, ih hss⟩

/-! ## One destructuring -/

/-- Declarations of names of the module. -/
theorem Nest.clean_binds {bs : List Bind} {n : Nest} (hreads : ∀ b ∈ bs, Reads site known b.reads)
    (hnames : ∀ x ∈ bs.flatMap (Bind.names fields), isTemporary x = false)
    (hn : n.Clean fields site known) : (Nest.binds bs n).Clean fields site known := by
  induction bs with
  | nil => exact hn
  | cons b bs ih =>
    obtain ⟨hb, hreads⟩ := List.forall_mem_cons.mp hreads
    obtain ⟨hbnames, hnames⟩ := List.forall_mem_append.mp hnames
    refine ⟨hb, ?_⟩
    rw [Bind.made_eq_nil hbnames]
    exact ⟨fresh_nil, ih hreads hnames⟩

/-- The temporaries among the names of elements are the placeholders of shapes, at their
positions. -/
theorem elementNames_made (position : Nat) {fixed : List Part}
    (h : ∀ x ∈ fixed.flatMap (Part.binders fields), isTemporary x = false) :
    let made := (fixed.mapIdx fun i => elementName (position + i)).filter isTemporary
    made.Nodup ∧ ∀ x ∈ made, ∃ i ≥ position, x = placeholder i := by
  induction fixed generalizing position with
  | nil => exact ⟨List.nodup_nil, by simp⟩
  | cons part ps ih =>
    obtain ⟨hpart, hps⟩ := List.forall_mem_append.mp h
    obtain ⟨hnodup, hmade⟩ := ih (position + 1) hps
    rw [mapIdx_cons_add elementName]
    have hlater := fun x hx => (hmade x hx).imp fun i => And.imp_left Nat.le_of_succ_le
    cases part with
    | binder name =>
      have hname : isTemporary name = false := hpart name List.mem_cons_self
      rw [List.filter_cons_of_neg (by simp [elementName, hname])]
      exact ⟨hnodup, hlater⟩
    | shape s =>
      rw [List.filter_cons_of_pos (by simp [elementName])]
      refine ⟨List.nodup_cons.mpr ⟨fun hmem => ?_, hnodup⟩,
        List.forall_mem_cons.mpr ⟨⟨position, Nat.le_refl _, rfl⟩, hlater⟩⟩
      obtain ⟨i, hi, heq⟩ := hmade _ hmem
      exact absurd (placeholder_injective heq) (Nat.ne_of_lt hi)

/-- Shapes among the parts have placeholders. -/
theorem placeholder_mem_elementNames {fixed : List Part} {i : Nat} {s : Shape}
    (h : fixed[i]? = some (.shape s)) :
    placeholder i ∈ (fixed.mapIdx elementName).filter isTemporary := by
  obtain ⟨hi, hpart⟩ := List.getElem?_eq_some_iff.mp h
  refine List.mem_filter.mpr ⟨List.mem_mapIdx.mpr ⟨i, hi, ?_⟩, isTemporary_placeholder i⟩
  rw [hpart]
  rfl

/-- After the destructuring all elements are known. -/
theorem clean_fixedNest {fixed : List Part} {length : Cond} {rest : Option String}
    (hlength : length.reads = [])
    (hfixed : ∀ x ∈ fixed.flatMap (Part.binders fields), isTemporary x = false)
    (hrest : ∀ x ∈ rest.toList, isTemporary x = false) (hknown : Below 0 0 known) :
    (fixedNest fixed length rest).Clean fields site known := by
  refine ⟨List.forall_mem_singleton.mpr (by simp [Reads, hlength]), ?_⟩
  split
  next hempty =>
    obtain ⟨hnames, -⟩ := Bool.and_eq_true_iff.mp hempty
    obtain rfl : fixed = [] := by simpa using hnames
    exact Nest.clean_guarded (by simp) trivial
  next =>
    obtain ⟨hnodup, hplace⟩ := elementNames_made 0 hfixed
    simp only [Nat.zero_add] at hnodup hplace
    have hnone : rest.toList.filter isTemporary = [] :=
      List.filter_eq_nil_iff.mpr (by simpa using hrest)
    have hmade : (Bind.elements (fixed.mapIdx elementName) rest).made fields
        = (fixed.mapIdx elementName).filter isTemporary := by
      rw [Bind.made, Bind.names, List.filter_append, hnone, List.append_nil]
    have hreads : ∀ {i : Nat} {s : Shape}, fixed[i]? = some (.shape s) →
        Reads site (((fixed.mapIdx elementName).filter isTemporary).map (·, site) ++ known)
          (Place.name (placeholder i)).reads := fun h =>
      List.forall_mem_singleton.mpr
        (List.mem_append_left _ (List.mem_map_of_mem (placeholder_mem_elementNames h)))
    refine ⟨fun v hv => absurd hv List.not_mem_nil, ?_⟩
    rw [hmade]
    refine ⟨⟨hnodup, fun x hx => ?_⟩, Nest.clean_guarded (fun c hc => ?_)
      (Nest.clean_binds (fun b hb => ?_) (fun x hx => ?_) trivial)⟩
    · obtain ⟨i, -, rfl⟩ := hplace x hx
      exact (hknown.mono (Nat.zero_le i) (Nat.le_refl _)).fresh_placeholder.2 _ List.mem_cons_self
    · obtain ⟨i, s, hs, hc⟩ := exists_shape_of_mem (fun _ _ => rfl) hc
      obtain rfl := List.mem_singleton.mp hc
      exact hreads hs
    · obtain ⟨i, s, hs, hb⟩ := exists_shape_of_mem (fun _ _ => rfl) hb
      obtain ⟨text, rfl⟩ := exists_fields_of_mem hb
      exact hreads hs
    · obtain ⟨b, hb, hx⟩ := List.mem_flatMap.mp hx
      obtain ⟨i, s, hs, hb⟩ := exists_shape_of_mem (fun _ _ => rfl) hb
      refine hfixed x (List.mem_flatMap.mpr ⟨.shape s, List.mem_of_getElem? hs, ?_⟩)
      rw [Part.binders, ← names_fieldBinds (.name (placeholder i)) s]
      exact List.mem_flatMap.mpr ⟨b, hb, hx⟩

/-- One destructuring is clean too: its placeholders are those of different positions. -/
theorem clean_gapless {parts : List Part}
    (h : ∀ x ∈ parts.flatMap (Part.binders fields), isTemporary x = false)
    (hknown : Below 0 0 known) : (gapless parts).Clean fields site known := by
  rcases ending_cases parts with ⟨fixed, r, rfl⟩ | ⟨fixed, rfl⟩ | hlast
  · rw [List.flatMap_append] at h
    obtain ⟨hfixed, hr⟩ := List.forall_mem_append.mp h
    rw [gapless_rest]
    exact clean_fixedNest rfl hfixed hr hknown
  · rw [List.flatMap_append] at h
    rw [gapless_stop]
    exact clean_fixedNest rfl (List.forall_mem_append.mp h).1 (by simp) hknown
  · rw [gapless_open hlast]
    exact clean_fixedNest rfl h (by simp) hknown

/-! ## Branches -/

/-- **What a pattern becomes is clean**, if its own names are no temporaries. -/
theorem clean_branchMatch {p : Pattern} (h : ∀ x ∈ p.binders fields, isTemporary x = false)
    (hknown : Below 0 0 known) : (branchMatch p).Clean fields site known := by
  match p with
  | .anything => trivial
  | .shape s =>
    refine ⟨List.forall_mem_singleton.mpr (fun v hv => absurd hv List.not_mem_nil), ?_⟩
    refine Nest.clean_binds (fun b hb => ?_) ?_ trivial
    · obtain ⟨text, rfl⟩ := exists_fields_of_mem hb
      exact fun v hv => absurd hv List.not_mem_nil
    · rw [names_fieldBinds]
      exact h
  | .list parts =>
    rw [branchMatch, listMatch]
    split
    next => exact ⟨List.forall_mem_singleton.mpr (fun v hv => absurd hv List.not_mem_nil), trivial⟩
    next =>
      split
      next =>
        refine Nest.clean_ofSteps [] (Step.clean_planFrom ?_ hknown h)
        exact fun v hv => absurd hv List.not_mem_nil
      next => exact clean_gapless h hknown

/-- The arm of a branch as a match: it declares the fields of the subject. -/
def armMatch (p : Pattern) : Nest := .scope (.binds (fieldsOf p) .body)

/-- A match on a shape is a block with the shape's bindings. -/
theorem scopes_armMatch (subject : Mention) (body : Scope) (p : Pattern) :
    (armMatch p).scopes fields subject site body
      = .block (bindsScope fields subject site (fieldsOf p) body) .done := by
  have hbinds : ∀ bs : List Bind, (Nest.binds bs .body).scopes fields subject site body
      = bindsScope fields subject site bs body := by
    intro bs
    induction bs with
    | nil => exact Nest.scopes_body _ _
    | cons b bs ih => exact congrArg (fun s => Scope.mentionAll _ (.declareAll _ _ s)) ih
  rw [armMatch, Nest.scopes_scope, hbinds]

/-- It reads the subject only. -/
theorem clean_armMatch {p : Pattern} (h : ∀ x ∈ p.binders fields, isTemporary x = false) :
    (armMatch p).Clean fields site known := by
  cases p with
  | shape s =>
    refine Nest.clean_binds (fun b hb => ?_) ?_ trivial
    · obtain ⟨text, rfl⟩ := exists_fields_of_mem hb
      exact fun v hv => absurd hv List.not_mem_nil
    · rw [fieldsOf, names_fieldBinds]
      exact h
  | list parts => trivial
  | anything => trivial

/-- Whether a match opens a block before it declares anything. -/
def Nest.opens : Nest → Bool
  | .guard .. | .scope _ => true
  | .body | .bind .. | .search .. => false

/-- Guards open a block. -/
theorem Nest.opens_guarded {cs : List Cond} (h : cs ≠ []) (n : Nest) :
    (Nest.guarded cs n).opens = true := by
  cases cs with
  | nil => exact absurd rfl h
  | cons c cs => rfl

theorem Nest.opens_ofSteps {pending : List Cond} (h : pending ≠ []) (ss : List Step) :
    (Nest.ofSteps pending ss).opens = true := by
  fun_induction Nest.ofSteps pending ss with
  | case1 | case3 | case4 => exact opens_guarded h _
  | case2 pending c ss ih => exact ih (by simp)

/-- A pattern with a gap has a part before the gap, so its plan starts with a check. -/
theorem exists_plan_check {parts : List Part} (h : hasGap parts = true) :
    ∃ c ss, plan parts = .check c :: ss := by
  match parts with
  | [] => cases h
  | [.binder _] => cases h
  | [.shape s] => cases s <;> cases h
  | .binder name :: .binder other :: ps => exact ⟨_, _, rfl⟩
  | .binder name :: .shape s :: ps => exact ⟨_, _, rfl⟩
  | .shape s :: part :: ps => cases s <;> exact ⟨_, _, rfl⟩

/-- So does every branch that is tested. -/
theorem Nest.opens_branchMatch (p : Pattern) : (branchMatch p).opens = true := by
  match p with
  | .anything | .shape _ => rfl
  | .list parts =>
    rw [branchMatch, listMatch]
    split
    next => rfl
    next =>
      split
      next hgap =>
        obtain ⟨c, ss, hplan⟩ := exists_plan_check hgap
        rw [hplan]
        exact opens_ofSteps (by simp) ss
      next => rfl

/-- What stands in a block is not declared outside of it. -/
theorem Nest.declared_of_opens {n : Nest} (h : n.opens = true) (subject : Mention) (body : Scope) :
    (n.scopes fields subject site body).declared = [] := by
  cases n with
  | guard conditions rest => simp [Scope.declared]
  | scope rest => rfl
  | body | bind | search => cases h

end Derw.Script

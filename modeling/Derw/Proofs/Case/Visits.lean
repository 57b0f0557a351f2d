import Derw.Proofs.Case.Matching

/-!
# Proofs/Case/Visits — which bodies a case enters

The statements of a case run a body if its label or its match asks for it, and in a `switch` also if
the body before it ends without a `return`. Of the first kind, every body that is entered has a
pattern that matches the subject of its case. The second kind is the rule of the target and no
choice of the source: a case at the end of a body may have no branch for the value at hand, and then
control falls into the next branch of the `switch` around it, whatever its pattern.

`Expr.orderly` tells from the source where that cannot happen: whoever can run off its end is the
last, or stands before a branch that matches anyway.
-/

namespace Derw

open Script

def Branch.lets : Branch → List Decl
  | mk _ lets _ => lets

def Branch.body : Branch → Expr
  | mk _ _ body => body

/-- The tag that a label has for a pattern. -/
def Pattern.tag? : Pattern → Option String
  | .shape (.tag name _) => some name
  | _ => none

mutual

/-- Whether control cannot run off the end of a body: the cases at its end have a branch for
anything. -/
def Expr.returns : Expr → Bool
  | .ifElse _ _ yes _ no => yes.returns && no.returns
  | .caseOf _ branches => branches.any (·.pattern == .anything) && allReturn branches
  | _ => true

def allReturn : List Branch → Bool
  | [] => true
  | .mk _ _ body :: bs => body.returns && allReturn bs

end

/-- Whether control only falls into branches that match if the one before matched. -/
def fallsSafely : List Branch → Bool
  | a :: b :: bs =>
    (a.body.returns || b.pattern.tag? == none || b.pattern.tag? == a.pattern.tag?)
      && fallsSafely (b :: bs)
  | _ => true

mutual

/-- Whether no case at the end of a body falls into a branch that need not match. -/
def Expr.orderly : Expr → Bool
  | .ifElse _ _ yes _ no => yes.orderly && no.orderly
  | .caseOf _ branches =>
    (dispatchOf (branches.map Branch.pattern) != .byTag || fallsSafely branches)
      && allOrderly branches
  | _ => true

def allOrderly : List Branch → Bool
  | [] => true
  | .mk _ _ body :: bs => body.orderly && allOrderly bs

end

theorem allReturn_iff {bs : List Branch} :
    allReturn bs = true ↔ ∀ b ∈ bs, b.body.returns = true := by
  induction bs with
  | nil => simp [allReturn]
  | cons b bs ih =>
    cases b
    rw [allReturn, Bool.and_eq_true, ih, List.forall_mem_cons]
    rfl

theorem allOrderly_iff {bs : List Branch} :
    allOrderly bs = true ↔ ∀ b ∈ bs, b.body.orderly = true := by
  induction bs with
  | nil => simp [allOrderly]
  | cons b bs ih =>
    cases b
    rw [allOrderly, Bool.and_eq_true, ih, List.forall_mem_cons]
    rfl

/-- Induction over the bodies at the end of an expression. All that is neither a conditional nor a
case returns its term. -/
theorem Expr.tailInduction {P : Expr → Prop}
    (term : ∀ e, (∀ d, (lower d .nothing e).stmts = [.return (lower d .nothing e).term]) → P e)
    (ifElse : ∀ c yesLets yes noLets no, P yes → P no → P (.ifElse c yesLets yes noLets no))
    (caseOf : ∀ subject branches, (∀ b ∈ branches, P b.body) → P (.caseOf subject branches)) :
    ∀ e, P e
  | .ifElse c yesLets yes noLets no =>
    ifElse c yesLets yes noLets no (tailInduction term ifElse caseOf yes)
      (tailInduction term ifElse caseOf no)
  | .caseOf subject branches =>
    caseOf subject branches fun b _ => tailInduction term ifElse caseOf b.body
  | .absent | .value _ | .text _ | .format _ | .list _ | .range .. | .object .. | .construct _
  | .constructWith .. | .binary .. | .unary .. | .leftPipe .. | .rightPipe .. | .qualified ..
  | .call .. | .lambda .. | .lambdaCall .. => term _ fun _ => by rw [lower.eq_def]; rfl
termination_by e => sizeOf e
decreasing_by
  · rw [Expr.ifElse.sizeOf_spec]
    omega
  · rw [Expr.ifElse.sizeOf_spec]
    omega
  · rename_i hb
    have := List.sizeOf_lt_of_mem hb
    cases b
    simp [Branch.body] at *
    omega

end Derw

namespace Derw.Script

variable {V : Type}

/-! ## Visits -/

/-- Whether a branch with this pattern has this label. -/
def Label.Of (p : Pattern) : Label → Prop
  | .tag t => ∃ fields, p = .shape (.tag t fields)
  | .otherwise => p = .anything
  | .nest n => branchMatch p = n

/-- The pattern of the branch matches the value that its case looked at. -/
def Visit.Fits (m : Values V) (v : Visit V) : Prop :=
  ∀ p, v.label.Of p → p.matches m v.value = true

/-- A visit at this depth or deeper. One that does not fit was fallen into, where the source is not
orderly. -/
structure Visit.Sound (m : Values V) (depth : Nat) (orderly : Bool) (v : Visit V) : Prop where
  fits : v.Fits m ∨ (v.fell = true ∧ orderly = false)
  subject : ∃ k, depth ≤ k ∧ v.subject = subjectName k

theorem Visit.Sound.mono {m : Values V} {v : Visit V} {d d' : Nat} {inner outer : Bool}
    (h : v.Sound m d inner) (hd : d' ≤ d) (hle : outer = true → inner = true) :
    v.Sound m d' outer := by
  obtain ⟨hfits, k, hk, hsubject⟩ := h
  refine ⟨hfits.imp_right fun ⟨hfell, hinner⟩ => ⟨hfell, ?_⟩, k, hd.trans hk, hsubject⟩
  rw [← Bool.not_eq_true]
  intro houter
  rw [hle houter] at hinner
  cases hinner

/-- What an expression promises of its body: sound visits, and a `return` if the source says so. -/
structure Keeps (H : Host V) (depth : Nat) (e : Expr) (body : List Stmt) : Prop where
  visits : ∀ σ, ∀ v ∈ (execAll H body σ).visits, v.Sound H.values depth e.orderly
  returns : e.returns = true → ∀ σ, (execAll H body σ).Returns

/-! ## Declarations -/

theorem visits_declareValue (σ : Store V) (n : String) (o : Option (Held V)) :
    (declareValue σ n o).visits = [] := by
  cases o <;> rfl

theorem visits_lowerDecl (H : Host V) (depth : Nat) (d : Decl) (σ : Store V) :
    (execAll H (lowerDecl depth d) σ).visits = [] := by
  rw [lowerDecl.eq_def]
  cases d with
  | function =>
    rw [execAll_singleton]
    rfl
  | const =>
    rw [execAll_singleton, exec_const]
    exact visits_declareValue _ _ _
  | imports | exports | union | typeAlias | comment | multilineComment => rfl

theorem visits_lowerLets (H : Host V) (depth : Nat) (lets : List Decl) (σ : Store V) :
    ∀ v ∈ (execAll H (lowerLets depth lets) σ).visits, False := by
  induction lets generalizing σ with
  | nil => exact fun _ hv => absurd hv List.not_mem_nil
  | cons d ds ih =>
    rw [lowerLets.eq_def, execAll_append]
    refine Run.forall_mem_andThen ?_ fun τ _ => ih τ
    rw [visits_lowerDecl]
    exact fun _ hv => absurd hv List.not_mem_nil

variable {H : Host V} {depth : Nat}

/-- Declarations before a body change nothing. -/
theorem Keeps.lets {e : Expr} {body : List Stmt} (h : Keeps H depth e body) (d : Nat)
    (lets : List Decl) : Keeps H depth e (lowerLets d lets ++ body) where
  visits σ := by
    rw [execAll_append]
    exact Run.forall_mem_andThen (fun v hv => (visits_lowerLets H d lets σ v hv).elim)
      fun τ _ => h.visits τ
  returns hr σ := by
    rw [execAll_append]
    exact .andThen fun τ _ => h.returns hr τ

theorem returns_return (H : Host V) (t : Term) (σ : Store V) :
    (execAll H [.return t] σ).Returns := by
  intro τ
  rw [execAll_singleton, exec_return]
  cases H.eval σ t <;> exact fun h => by cases h

theorem keeps_return (H : Host V) (depth : Nat) (e : Expr) (t : Term) :
    Keeps H depth e [.return t] where
  visits σ v hv := by
    rw [execAll_singleton, exec_return] at hv
    exact absurd hv List.not_mem_nil
  returns _ σ := returns_return H t σ

theorem Keeps.ifElse {c yes no : Expr} {yesBody noBody : List Stmt} (yesLets noLets : List Decl)
    (t : Term) (hyes : Keeps H depth yes yesBody) (hno : Keeps H depth no noBody) :
    Keeps H depth (.ifElse c yesLets yes noLets no) [.ifElse t yesBody noBody] where
  visits σ v hv := by
    rw [execAll_singleton] at hv
    rcases exec_ifElse H t yesBody noBody σ with h | h | h
    · rw [h] at hv
      exact absurd hv List.not_mem_nil
    · rw [h] at hv
      refine (hyes.visits σ v hv).mono (Nat.le_refl _) fun h => ?_
      rw [Expr.orderly, Bool.and_eq_true] at h
      exact h.1
    · rw [h] at hv
      refine (hno.visits σ v hv).mono (Nat.le_refl _) fun h => ?_
      rw [Expr.orderly, Bool.and_eq_true] at h
      exact h.2
  returns hr σ := by
    rw [Expr.returns, Bool.and_eq_true] at hr
    rw [execAll_singleton]
    rcases exec_ifElse H t yesBody noBody σ with h | h | h
    · rw [h]
      exact Run.returns_fault
    · rw [h]
      exact (hyes.returns hr.1 σ).within σ
    · rw [h]
      exact (hno.returns hr.2 σ).within σ

/-! ## Branches -/

theorem toString_injective {a b : Nat} (h : toString a = toString b) : a = b := by
  rw [Nat.toString_eq_ofList_toDigits, Nat.toString_eq_ofList_toDigits, String.ofList_inj] at h
  rw [← Nat.ofDigitChars_ten_toDigits (n := a), h, Nat.ofDigitChars_ten_toDigits]

theorem subjectName_injective {a b : Nat} (h : subjectName a = subjectName b) : a = b := by
  have hne : ∀ n : Nat, "_res" ≠ "_res" ++ toString n := by
    intro n hn
    have hempty : "_res" ++ "" = "_res" ++ n.repr := hn
    exact Nat.repr_ne_empty ((String.append_right_inj _).mp hempty).symm
  unfold subjectName at h
  split at h
  next ha =>
    split at h
    next hb => rw [ha, hb]
    next => exact absurd h (hne b)
  next =>
    split at h
    next => exact absurd h.symm (hne a)
    next => exact toString_injective ((String.append_right_inj _).mp h)

/-- A visit that a case makes: its own ones look at its subject, for one of its patterns, and the
others belong to cases inside of it. -/
structure Visit.Of (m : Values V) (depth : Nat) (h : Held V) (patterns : List Pattern)
    (orderly : Bool) (v : Visit V) : Prop extends v.Sound m depth orderly where
  own : v.subject = subjectName depth → v.value = h ∧ ∃ p ∈ patterns, v.label.Of p

theorem Visit.Sound.inside {m : Values V} {h : Held V} {patterns : List Pattern} {v : Visit V}
    {inner outer : Bool} (hv : v.Sound m (depth + 1) inner) (hle : outer = true → inner = true) :
    v.Of m depth h patterns outer where
  toSound := hv.mono (Nat.le_succ _) hle
  own hsubject := by
    obtain ⟨k, hk, hname⟩ := hv.subject
    exact absurd (subjectName_injective (hsubject.symm.trans hname)) (Nat.ne_of_lt hk)

theorem Visit.Of.mono {m : Values V} {h : Held V} {ps qs : List Pattern} {ok : Bool} {v : Visit V}
    (hv : v.Of m depth h ps ok) (hsub : ps ⊆ qs) : v.Of m depth h qs ok where
  toSound := hv.toSound
  own hsubject := by
    obtain ⟨hvalue, p, hp, hlabel⟩ := hv.own hsubject
    exact ⟨hvalue, p, hsub hp, hlabel⟩

/-- The statements of the body of a branch. -/
def bodyStmts (depth : Nat) (b : Branch) : List Stmt :=
  lowerLets depth b.lets ++ (lower depth .nothing b.body).stmts

theorem lowerBranches_eq_map (depth : Nat) (bs : List Branch) :
    lowerBranches depth bs = bs.map fun b => (b.pattern, bodyStmts depth b) := by
  induction bs with
  | nil => rfl
  | cons b bs ih =>
    cases b
    rw [lowerBranches.eq_def, List.map_cons, ← ih]
    rfl

/-! ## Choosing by the tag -/

/-- A case by tag has only tags and patterns for anything. -/
theorem of_tag? {ps : List Pattern} (h : dispatchOf ps = .byTag) {p : Pattern} (hp : p ∈ ps) :
    (Label.ofTag p.tag?).Of p := by
  unfold dispatchOf at h
  split at h
  next => cases h
  next hvalue =>
    split at h
    next => cases h
    next hlength =>
      rw [List.any_eq_true, not_exists] at hvalue hlength
      match p with
      | .anything => rfl
      | .shape (.tag name fields) => exact ⟨fields, rfl⟩
      | .shape (.text _) | .shape (.format _) => exact absurd ⟨hp, rfl⟩ (hvalue _)
      | .shape .empty | .list _ => exact absurd ⟨hp, rfl⟩ (hlength _)

/-- The declarations of a branch that is chosen by its tag. -/
def fieldsOf : Pattern → List Bind
  | .shape s => fieldBinds .subject s
  | .list _ | .anything => []

theorem armOf_eq (p : Pattern) (body : List Stmt) :
    armOf (p, body) = .mk p.tag? (fieldsOf p) body := by
  match p with
  | .anything | .list _ | .shape (.text _) | .shape (.format _) | .shape .empty
  | .shape (.tag ..) => rfl

theorem tags_armOf (branches : List (Pattern × List Stmt)) :
    (branches.map armOf).map Arm.tag = branches.map (·.1.tag?) := by
  rw [List.map_map]
  refine List.map_congr_left fun b _ => ?_
  rw [Function.comp_apply, armOf_eq]
  rfl

/-- The arms of branches. -/
def armsOf (depth : Nat) (bs : List Branch) : List Arm :=
  bs.map fun b => armOf (b.pattern, bodyStmts depth b)

theorem tag_armsOf (depth : Nat) (bs : List Branch) :
    (armsOf depth bs).map Arm.tag = bs.map (·.pattern.tag?) := by
  have h := tags_armOf (bs.map fun b => (b.pattern, bodyStmts depth b))
  simpa only [armsOf, List.map_map, Function.comp_def] using h

/-- What a body and the one it falls into have in common. -/
theorem fits_of_fallsSafely {m : Values V} {s : String} {h : Held V} {fell : Bool} {a b : Branch}
    (htag : b.pattern.tag? = none ∨ b.pattern.tag? = a.pattern.tag?)
    (ha : Visit.Fits m ⟨s, h, .ofTag a.pattern.tag?, fell⟩) :
    Visit.Fits m ⟨s, h, .ofTag b.pattern.tag?, true⟩ := by
  rcases htag with htag | htag
  · rw [htag]
    rintro p rfl
    rfl
  · rw [htag]
    exact ha

section

variable {bs : List Branch} {ok : Bool} {h : Held V}

/-- **One body after the other.** The first one is entered with a sound visit, and every later one
is fallen into, where that is safe or the source is not orderly. -/
theorem visits_execArms (hbody : ∀ b ∈ bs, Keeps H (depth + 1) b.body (bodyStmts (depth + 1) b))
    (hok : ok = true → fallsSafely bs = true ∧ ∀ b ∈ bs, b.body.orderly = true)
    (hlabel : ∀ b ∈ bs, (Label.ofTag b.pattern.tag?).Of b.pattern) (fell : Bool)
    (hfirst : ∀ b ∈ bs.head?,
      Visit.Sound H.values depth ok ⟨subjectName depth, h, .ofTag b.pattern.tag?, fell⟩)
    (σ : Store V) :
    ∀ v ∈ (execArms H (subjectName depth) h 0 fell (armsOf (depth + 1) bs) σ).visits,
      v.Of H.values depth h (bs.map Branch.pattern) ok := by
  induction bs generalizing fell σ with
  | nil => exact fun _ hv => absurd hv List.not_mem_nil
  | cons b bs ih =>
    obtain ⟨hb, hbs⟩ := List.forall_mem_cons.mp hbody
    have hsound := hfirst b rfl
    rw [armsOf, List.map_cons, armOf_eq, execArms_cons]
    refine Run.forall_mem_andThen (Nest.forall_mem_enter ?_ ?_) ?_
    · exact fun τ _ => ⟨hsound, fun _ => ⟨rfl, b.pattern, by simp, hlabel b List.mem_cons_self⟩⟩
    · exact fun τ v hv => (hb.visits τ v hv).inside fun h => (hok h).2 b List.mem_cons_self
    · intro τ hended v hv
      have hfirst' : ∀ c ∈ bs.head?,
          Visit.Sound H.values depth ok ⟨subjectName depth, h, .ofTag c.pattern.tag?, true⟩ := by
        intro c hc
        refine ⟨?_, depth, Nat.le_refl _, rfl⟩
        cases hcase : ok with
        | false => exact Or.inr ⟨rfl, rfl⟩
        | true =>
          obtain ⟨cs, rfl⟩ : ∃ cs, bs = c :: cs := by
            cases bs with
            | nil => cases hc
            | cons c' cs => exact ⟨cs, by rw [Option.mem_some.mp hc]⟩
          have hreturns : b.body.returns = false := by
            rw [← Bool.not_eq_true]
            intro hr
            exact Nest.returns_enter (run_binds_ne_ended _ h σ) (hb.returns hr) τ hended
          have hsafe := (hok hcase).1
          simp only [fallsSafely, hreturns, Bool.false_or, Bool.and_eq_true, Bool.or_eq_true,
            beq_iff_eq] at hsafe
          refine Or.inl (fits_of_fallsSafely hsafe.1 (hsound.fits.resolve_right fun hfell => ?_))
          rw [hcase] at hfell
          cases hfell.2
      refine (ih hbs (fun h => ?_) (fun c hc => hlabel c (List.mem_cons_of_mem _ hc)) true hfirst' τ
        v hv).mono (List.subset_cons_self _ _)
      obtain ⟨hsafe, horderly⟩ := hok h
      refine ⟨?_, fun c hc => horderly c (List.mem_cons_of_mem _ hc)⟩
      cases bs with
      | nil => rfl
      | cons c cs =>
        rw [fallsSafely, Bool.and_eq_true] at hsafe
        exact hsafe.2

/-- Where a value enters, the label is its own. -/
theorem fits_entryPoint {m : Values V} {i : Nat}
    (hi : entryPoint? m h (bs.map (·.pattern.tag?)) = some i) (s : String) {b : Branch}
    (hb : bs[i]? = some b) : Visit.Fits m ⟨s, h, .ofTag b.pattern.tag?, false⟩ := by
  have hget : (bs.map (·.pattern.tag?))[i]? = some b.pattern.tag? := by
    rw [List.getElem?_map, hb]
    rfl
  rcases Option.or_eq_some_iff.mp hi with hpass | ⟨-, hnone⟩
  · obtain ⟨hlt, hpass, -⟩ := List.findIdx?_eq_some_iff_getElem.mp hpass
    rw [List.getElem?_eq_getElem hlt, Option.some.injEq] at hget
    rw [hget] at hpass
    cases ht : b.pattern.tag? with
    | none =>
      rw [ht] at hpass
      cases hpass
    | some t =>
      rw [ht] at hpass
      rintro p ⟨fields, rfl⟩
      exact hpass
  · obtain ⟨hlt, hnone, -⟩ := List.findIdx?_eq_some_iff_getElem.mp hnone
    rw [List.getElem?_eq_getElem hlt, Option.some.injEq] at hget
    rw [hget, Option.isNone_iff_eq_none] at hnone
    rw [hnone]
    rintro p rfl
    rfl

theorem lt_of_entryPoint {m : Values V} {tags : List (Option String)} {i : Nat}
    (hi : entryPoint? m h tags = some i) : i < tags.length := by
  rcases Option.or_eq_some_iff.mp hi with hi | ⟨-, hi⟩
  · exact (List.findIdx?_eq_some_iff_getElem.mp hi).1
  · exact (List.findIdx?_eq_some_iff_getElem.mp hi).1

theorem fallsSafely_drop (h : fallsSafely bs = true) (i : Nat) :
    fallsSafely (bs.drop i) = true := by
  induction i generalizing bs with
  | zero => exact h
  | succ i ih =>
    match bs with
    | [] => exact h
    | [_] =>
      rw [List.drop_succ_cons, List.drop_nil]
      rfl
    | a :: b :: bs =>
      rw [fallsSafely, Bool.and_eq_true] at h
      exact ih h.2

variable {σ : Store V} (hσ : σ.lookup (.name (subjectName depth)) = some h)
  (hbody : ∀ b ∈ bs, Keeps H (depth + 1) b.body (bodyStmts (depth + 1) b))

include hσ hbody

theorem visits_switch (hdispatch : dispatchOf (bs.map Branch.pattern) = .byTag)
    (hok : ok = true → fallsSafely bs = true ∧ ∀ b ∈ bs, b.body.orderly = true) :
    ∀ v ∈ ((Stmt.switch (subjectName depth) (armsOf (depth + 1) bs)).exec H σ).visits,
      v.Of H.values depth h (bs.map Branch.pattern) ok := by
  rw [exec_switch H _ hσ, tag_armsOf]
  split
  next =>
    cases hi : entryPoint? H.values h (bs.map (·.pattern.tag?)) with
    | none => exact fun _ hv => absurd hv List.not_mem_nil
    | some i =>
      have hmem : ∀ b ∈ bs.drop i, b ∈ bs := fun b hb => List.mem_of_mem_drop hb
      simp only
      rw [execArms_skip, armsOf, ← List.map_drop]
      intro v hv
      refine (visits_execArms (fun b hb => hbody b (hmem b hb)) (fun h => ?_)
        (fun b hb => of_tag? hdispatch (List.mem_map_of_mem (hmem b hb))) false (fun b hb => ?_)
        σ v hv).mono ?_
      · exact ⟨fallsSafely_drop (hok h).1 i, fun b hb => (hok h).2 b (hmem b hb)⟩
      · rw [List.head?_drop] at hb
        exact ⟨Or.inl (fits_entryPoint hi _ hb), depth, Nat.le_refl _, rfl⟩
      · exact List.map_subset _ hmem
  next => exact fun _ hv => absurd hv List.not_mem_nil

theorem returns_switch (hany : .anything ∈ bs.map Branch.pattern)
    (hreturns : ∀ b ∈ bs, b.body.returns = true) :
    ((Stmt.switch (subjectName depth) (armsOf (depth + 1) bs)).exec H σ).Returns := by
  rw [exec_switch H _ hσ, tag_armsOf]
  split
  next =>
    have hdefault : ((bs.map (·.pattern.tag?)).findIdx? Option.isNone).isSome = true := by
      obtain ⟨b, hb, hp⟩ := List.mem_map.mp hany
      rw [List.findIdx?_isSome, List.any_eq_true]
      exact ⟨none, List.mem_map.mpr ⟨b, hb, by rw [hp]; rfl⟩, rfl⟩
    cases hi : entryPoint? H.values h (bs.map (·.pattern.tag?)) with
    | none =>
      rw [entryPoint?, Option.or_eq_none_iff] at hi
      rw [hi.2] at hdefault
      cases hdefault
    | some i =>
      have hlt : i < bs.length := by simpa using lt_of_entryPoint hi
      have hb := hbody _ (List.getElem_mem hlt)
      simp only
      rw [execArms_skip, armsOf, ← List.map_drop, List.drop_eq_getElem_cons hlt, List.map_cons,
        armOf_eq, execArms_cons]
      exact (Nest.returns_enter (run_binds_ne_ended _ h σ)
        (hb.returns (hreturns _ (List.getElem_mem hlt)))).left _
  next => exact Run.returns_fault

/-! ## Trying one after the other -/

/-- The statements that try branches in order. -/
def chainOf (depth : Nat) (bs : List Branch) : List Stmt :=
  bs.map fun b => .branch (subjectName depth) (branchMatch b.pattern) (bodyStmts (depth + 1) b)

theorem visits_chain (hok : ok = true → ∀ b ∈ bs, b.body.orderly = true) :
    ∀ v ∈ (execAll H (chainOf depth bs) σ).visits,
      v.Of H.values depth h (bs.map Branch.pattern) ok := by
  induction bs with
  | nil => exact fun _ hv => absurd hv List.not_mem_nil
  | cons b bs ih =>
    obtain ⟨hb, hbs⟩ := List.forall_mem_cons.mp hbody
    rw [chainOf, List.map_cons, execAll_cons]
    refine Run.forall_mem_andThen ?_ fun τ hended v hv => ?_
    · rw [exec_branch H _ _ hσ]
      split
      next honce =>
        refine Nest.forall_mem_enter (fun τ hτ => ?_) fun τ v hv => ?_
        · refine ⟨⟨Or.inl ?_, depth, Nat.le_refl _, rfl⟩, fun _ => ⟨rfl, b.pattern, by simp, rfl⟩⟩
          -- another pattern with the same nest matches as well
          intro p hp
          have hp : branchMatch p = branchMatch b.pattern := hp
          rw [← hp] at honce hτ
          exact matches_of_entered honce hτ
        · exact (hb.visits τ v hv).inside fun h => hok h b List.mem_cons_self
      next => exact fun _ hv => absurd hv List.not_mem_nil
    · obtain rfl := flow_branch H hσ hended
      exact (ih hbs (fun h c hc => hok h c (List.mem_cons_of_mem _ hc)) v hv).mono
        (List.subset_cons_self _ _)

theorem returns_chain (hany : .anything ∈ bs.map Branch.pattern)
    (hreturns : ∀ b ∈ bs, b.body.returns = true) : (execAll H (chainOf depth bs) σ).Returns := by
  induction bs with
  | nil => cases hany
  | cons b bs ih =>
    obtain ⟨hb, hbs⟩ := List.forall_mem_cons.mp hbody
    obtain ⟨hr, hrs⟩ := List.forall_mem_cons.mp hreturns
    rw [chainOf, List.map_cons, execAll_cons]
    by_cases hp : b.pattern = .anything
    · have hrun : ∀ τ, (branchMatch .anything).code.run H.values h σ ≠ .ended τ :=
        fun τ hτ => by cases hτ
      have honce : (branchMatch .anything).declaresOnce = true := rfl
      rw [exec_branch H _ _ hσ, hp, if_pos honce]
      refine Run.Returns.left ?_ _
      exact Nest.returns_enter hrun (hb.returns hr)
    · refine .andThen fun τ hended => ?_
      obtain rfl := flow_branch H hσ hended
      refine ih hbs ?_ hrs
      rw [List.map_cons, List.mem_cons] at hany
      exact hany.resolve_left fun h => hp h.symm

end

/-! ## Cases -/

/-- The statements of a case after the declaration of its subject. -/
def branchStmts (depth : Nat) (bs : List Branch) : List Stmt :=
  match dispatchOf (bs.map Branch.pattern) with
  | .byTag => [.switch (subjectName depth) (armsOf (depth + 1) bs)]
  | .byLength | .byValue => chainOf depth bs

theorem stmts_caseOf (depth : Nat) (subject : Expr) (bs : List Branch) :
    (lower depth .nothing (.caseOf subject bs)).stmts
      = .hold (subjectName depth) (lower depth .nothing subject).term :: branchStmts depth bs := by
  have hlower : (lower depth .nothing (.caseOf subject bs)).stmts
      = caseStmts (subjectName depth) (lower depth .nothing subject).term
        (lowerBranches (depth + 1) bs) := by
    rw [lower.eq_def]
  rw [hlower, caseStmts, lowerBranches_eq_map, branchStmts, List.map_map, armsOf, chainOf,
    List.map_map, List.map_map]
  rfl

section

variable {bs : List Branch} {h : Held V} {σ : Store V}
  (hσ : σ.lookup (.name (subjectName depth)) = some h)
  (hbody : ∀ b ∈ bs, Keeps H (depth + 1) b.body (bodyStmts (depth + 1) b))

include hσ hbody

theorem visits_branchStmts (subject : Expr) :
    ∀ v ∈ (execAll H (branchStmts depth bs) σ).visits,
      v.Of H.values depth h (bs.map Branch.pattern) (Expr.caseOf subject bs).orderly := by
  have horderly : (Expr.caseOf subject bs).orderly = true →
      (dispatchOf (bs.map Branch.pattern) ≠ .byTag ∨ fallsSafely bs = true) ∧
        ∀ b ∈ bs, b.body.orderly = true := by
    intro hok
    rw [Expr.orderly, Bool.and_eq_true, Bool.or_eq_true, bne_iff_ne, allOrderly_iff] at hok
    exact hok
  rw [branchStmts]
  split
  next hdispatch =>
    rw [execAll_singleton]
    refine visits_switch hσ hbody hdispatch fun hok => ?_
    obtain ⟨hfalls, hall⟩ := horderly hok
    exact ⟨hfalls.resolve_left fun hne => hne hdispatch, hall⟩
  next => exact visits_chain hσ hbody fun hok => (horderly hok).2
  next => exact visits_chain hσ hbody fun hok => (horderly hok).2

theorem returns_branchStmts {subject : Expr} (hr : (Expr.caseOf subject bs).returns = true) :
    (execAll H (branchStmts depth bs) σ).Returns := by
  rw [Expr.returns, Bool.and_eq_true, allReturn_iff, List.any_eq_true] at hr
  obtain ⟨⟨b, hb, hp⟩, hall⟩ := hr
  have hany : .anything ∈ bs.map Branch.pattern := List.mem_map.mpr ⟨b, hb, beq_iff_eq.mp hp⟩
  rw [branchStmts]
  split
  next =>
    rw [execAll_singleton]
    exact returns_switch hσ hbody hany hall
  next => exact returns_chain hσ hbody hany hall
  next => exact returns_chain hσ hbody hany hall

end

/-- A case has a run only if its subject has a value, and then looks at that. -/
theorem execAll_caseOf (H : Host V) (depth : Nat) (subject : Expr) (bs : List Branch)
    (σ : Store V) :
    execAll H (lower depth .nothing (.caseOf subject bs)).stmts σ
      = match H.eval σ (lower depth .nothing subject).term with
        | some h => execAll H (branchStmts depth bs) ((.name (subjectName depth), h) :: σ)
        | none => .fault := by
  rw [stmts_caseOf, execAll_cons, exec_hold]
  cases H.eval σ (lower depth .nothing subject).term with
  | none => exact Run.returns_fault.andThen_eq _
  | some h => exact Run.done_andThen _ _

/-- **Every body keeps its promise.** -/
theorem keeps_lower (H : Host V) (e : Expr) :
    ∀ depth, Keeps H depth e (lower depth .nothing e).stmts := by
  induction e using Expr.tailInduction with
  | term e he =>
    intro depth
    rw [he]
    exact keeps_return H depth e _
  | ifElse c yesLets yes noLets no hyes hno =>
    intro depth
    have hstmts : (lower depth .nothing (.ifElse c yesLets yes noLets no)).stmts
        = [.ifElse (lower depth .nothing c).term
          (lowerLets depth yesLets ++ (lower depth .nothing yes).stmts)
          (lowerLets depth noLets ++ (lower depth .nothing no).stmts)] := by
      rw [lower.eq_def]
    rw [hstmts]
    exact .ifElse yesLets noLets _ ((hyes depth).lets depth yesLets) ((hno depth).lets depth noLets)
  | caseOf subject bs hbs =>
    intro depth
    have hbody : ∀ b ∈ bs, Keeps H (depth + 1) b.body (bodyStmts (depth + 1) b) :=
      fun b hb => (hbs b hb (depth + 1)).lets (depth + 1) b.lets
    refine ⟨fun σ v hv => ?_, fun hr σ => ?_⟩
    · rw [execAll_caseOf] at hv
      cases he : H.eval σ (lower depth .nothing subject).term with
      | none =>
        rw [he] at hv
        exact absurd hv List.not_mem_nil
      | some h =>
        rw [he] at hv
        exact (visits_branchStmts List.lookup_cons_self hbody subject v hv).toSound
    · rw [execAll_caseOf]
      cases H.eval σ (lower depth .nothing subject).term with
      | none => exact Run.returns_fault
      | some h => exact returns_branchStmts List.lookup_cons_self hbody hr

/-- Texts under a tag; terms are names and literals. -/
def taggedTexts : Host (String × String) where
  values :=
    { passes := fun
        | .tag t, v => v.1 == t
        | .text body, v => v == ("", body)
        | .format _, _ | .empty, _ => false
      fields := fun _ => [("value", fun v => ("", v.2))] }
  eval σ
    | .raw body => some ((σ.lookup (.name body)).getD (.one ("", body)))
    | _ => none
  isTrue _ := true
  closure _ _ _ := .one ("", "")

/-- A case over `Just` and `Nothing`, of which the first branch looks at the value by further
branches. -/
def justOrNothing (inner : List Branch) : List Branch :=
  [.mk (.shape (.tag "Just" "\x7b value \x7d")) [] (.caseOf (.value "value") inner),
    .mk (.shape (.tag "Nothing" "")) [] (.value "2")]

end Derw.Script

import Derw.Proofs.Case.Visits
import Mathlib.Data.List.Find

/-!
# Proofs/Case/Selection — a `switch` selects the branch that a chain selects

Branches that differ by their tags only can be tried one after the other, and the first that matches
is selected. They can also be the labels of a `switch`, and that looks at all labels before it takes
the default one, wherever that stands. If every body returns, the two select the same branch for all
values exactly if the default branch hides no label: there is at most one, and every tag after it
also stands before it (`settled`).
-/

namespace Derw.Script

variable {V : Type}

/-! ## Labels -/

/-- Whether the default label is the only one, and no new tag comes after it. -/
def settled (tags : List (Option String)) : Bool :=
  tags.count none ≤ 1 &&
    (tags.dropWhile Option.isSome).all fun t =>
      t.isNone || (tags.takeWhile Option.isSome).contains t

/-- Whether a label is the default one or that of a value. -/
def admits (m : Values V) (h : Held V) (tag : Option String) : Bool :=
  tag.isNone || passesLabel m h tag

/-- The labels before the default one, and those from there on. -/
theorem exists_default (tags : List (Option String)) :
    (∀ t ∈ tags, t.isSome = true) ∨ ∃ before after, tags = before ++ none :: after ∧
      (∀ t ∈ before, t.isSome = true) ∧ tags.takeWhile Option.isSome = before ∧
      tags.dropWhile Option.isSome = none :: after := by
  rcases search_cases Option.isNone tags with hall | ⟨before, t, after, rfl, hbefore, ht⟩
  · exact Or.inl fun t ht => by simpa using hall t ht
  · obtain rfl := Option.isNone_iff_eq_none.mp ht
    have hbefore : ∀ t ∈ before, t.isSome = true := fun t ht => by simpa using hbefore t ht
    refine Or.inr ⟨before, after, rfl, hbefore, ?_, ?_⟩
    · rw [List.takeWhile_append_of_pos hbefore]
      simp
    · rw [List.dropWhile_append_of_pos hbefore]
      rfl

section

variable {m : Values V} {h : Held V} {before after : List (Option String)}

theorem findIdx?_admits (hbefore : ∀ t ∈ before, t.isSome = true) :
    before.findIdx? (admits m h) = before.findIdx? (passesLabel m h) := by
  induction before with
  | nil => rfl
  | cons t ts ih =>
    obtain ⟨ht, hts⟩ := List.forall_mem_cons.mp hbefore
    obtain ⟨name, rfl⟩ := Option.isSome_iff_exists.mp ht
    rw [List.findIdx?_cons, List.findIdx?_cons, ih hts]
    rfl

/-- Without a default label the first label of the value is taken. -/
theorem entryPoint?_of_isSome (hbefore : ∀ t ∈ before, t.isSome = true) :
    entryPoint? m h before = before.findIdx? (admits m h) := by
  have hnone : before.findIdx? Option.isNone = none :=
    List.findIdx?_eq_none_iff.mpr fun t ht => by simpa using hbefore t ht
  rw [entryPoint?, hnone, Option.or_none, findIdx?_admits hbefore]

theorem findIdx?_admits_default (hbefore : ∀ t ∈ before, t.isSome = true) :
    (before ++ none :: after).findIdx? (admits m h)
      = (before.findIdx? (passesLabel m h)).or (some before.length) := by
  rw [List.findIdx?_append, findIdx?_admits hbefore]
  simp [List.findIdx?_cons, admits]

/-- The labels after the default one come first if the value has one of them and none before. -/
theorem entryPoint?_default (hbefore : ∀ t ∈ before, t.isSome = true) :
    entryPoint? m h (before ++ none :: after)
      = (before.findIdx? (passesLabel m h)).or
        (((after.findIdx? (passesLabel m h)).map (· + 1 + before.length)).or
          (some before.length)) := by
  have hnone : before.findIdx? Option.isNone = none :=
    List.findIdx?_eq_none_iff.mpr fun t ht => by simpa using hbefore t ht
  have hpass : passesLabel m h none = false := rfl
  rw [entryPoint?, List.findIdx?_append, List.findIdx?_append, hnone, List.findIdx?_cons,
    List.findIdx?_cons, hpass]
  simp [Function.comp_def]

end

theorem entryPoint?_of_settled {tags : List (Option String)} (hs : settled tags = true)
    (m : Values V) (h : Held V) : entryPoint? m h tags = tags.findIdx? (admits m h) := by
  rcases exists_default tags with hall | ⟨before, after, rfl, hbefore, htake, hdrop⟩
  · exact entryPoint?_of_isSome hall
  · rw [settled, Bool.and_eq_true, htake, hdrop, List.all_cons, Bool.and_eq_true,
      List.all_eq_true] at hs
    rw [entryPoint?_default hbefore, findIdx?_admits_default hbefore]
    cases hfind : before.findIdx? (passesLabel m h) with
    | some i => rfl
    | none =>
      have hnone : after.findIdx? (passesLabel m h) = none := by
        rw [List.findIdx?_eq_none_iff] at hfind ⊢
        intro t ht
        rcases Bool.or_eq_true_iff.mp (hs.2.2 t ht) with ht | ht
        · rw [Option.isNone_iff_eq_none.mp ht]
          rfl
        · exact hfind t (List.contains_iff_mem.mp ht)
      rw [hnone]
      rfl

/-! ## Runs -/

/-- The run of the first branch that matches, under the label that its pattern gets. -/
def firstRun (H : Host V) (subject : String) (h : Held V) (label : Pattern → Label)
    (branches : List (Pattern × List Stmt)) (σ : Store V) : Run V :=
  match branches.find? (·.1.matches H.values h) with
  | some b =>
    (Nest.binds (fieldsOf b.1) .body).enter H.values ⟨subject, h, label b.1, false⟩
      (execAll H b.2) σ
  | none => .done σ

/-- The statements that try branches in order. -/
def chain (subject : String) (branches : List (Pattern × List Stmt)) : List Stmt :=
  branches.map fun b => .branch subject (branchMatch b.1) b.2

section

variable {H : Host V} {m : Values V} {v : Visit V} {body : Store V → Run V} {σ : Store V}
  {p : Pattern}

theorem matches_eq_admits (hp : (Label.ofTag p.tag?).Of p) (h : Held V) :
    p.matches m h = admits m h p.tag? := by
  match p, hp with
  | .anything, _ => rfl
  | .shape (.tag name fields), _ => rfl

theorem declaresOnce_branchMatch (hp : (Label.ofTag p.tag?).Of p) :
    (branchMatch p).declaresOnce = true := by
  match p, hp with
  | .anything, _ => rfl
  | .shape (.tag name fields), _ =>
    change (Nest.binds (fieldBinds .subject (.tag name fields)) .body).declaresOnce = true
    rw [fieldBinds]
    cases fieldsText? fields <;> rfl

/-- A branch in a chain does what the arm does, if its pattern matches. -/
theorem enter_branchMatch (hp : (Label.ofTag p.tag?).Of p) (hread : ∀ n, v.value ≠ .position n) :
    (branchMatch p).enter m v body σ = if p.matches m v.value then
      (Nest.binds (fieldsOf p) .body).enter m v body σ else .done σ := by
  match p, hp with
  | .anything, _ => rfl
  | .shape (.tag name fields), _ =>
    have htest : ∃ b, v.value.test m (.tag name) = some b := by
      cases hv : v.value with
      | one | many => exact ⟨_, rfl⟩
      | position n => exact absurd hv (hread n)
    obtain ⟨b, hb⟩ := htest
    have hguard : Guard.allHold m v.value σ [.cond (.passes .subject (.tag name))] = some b := by
      cases b <;> simp [Guard.allHold, Guard.holds, Cond.holds, Place.value, hb]
    have hcode : (branchMatch (.shape (.tag name fields))).code
        = .when [.cond (.passes .subject (.tag name))]
          (Nest.binds (fieldsOf (.shape (.tag name fields))) .body).code .done := rfl
    have hmatches : (Pattern.shape (.tag name fields)).matches m v.value = b := by
      rw [Pattern.matches, testOf, hb]
      cases b <;> rfl
    rw [Nest.enter, hcode, Code.run, hguard, hmatches]
    cases b with
    | false => rfl
    | true =>
      rw [Nest.enter, if_pos rfl]
      cases hrun : (Nest.binds (fieldsOf (.shape (.tag name fields))) .body).code.run m v.value σ
        with
      | ended τ => exact absurd hrun (run_binds_ne_ended _ _ _ _)
      | exited | entered | fault => rfl

end

section

variable {H : Host V} {σ : Store V} {subject : String} {h : Held V}
  {branches : List (Pattern × List Stmt)}

/-- **A chain selects the first branch that matches.** -/
theorem execAll_chain (hσ : σ.lookup (.name subject) = some h) (hread : ∀ n, h ≠ .position n)
    (htag : ∀ b ∈ branches, (Label.ofTag b.1.tag?).Of b.1)
    (hreturn : ∀ b ∈ branches, ∀ σ, (execAll H b.2 σ).Returns) :
    execAll H (chain subject branches) σ
      = firstRun H subject h (fun p => .nest (branchMatch p)) branches σ := by
  induction branches with
  | nil => rfl
  | cons b bs ih =>
    obtain ⟨ht, hts⟩ := List.forall_mem_cons.mp htag
    obtain ⟨hr, hrs⟩ := List.forall_mem_cons.mp hreturn
    rw [chain, List.map_cons, execAll_cons, exec_branch H _ _ hσ,
      if_pos (declaresOnce_branchMatch ht), enter_branchMatch ht hread, firstRun]
    by_cases hmatches : b.1.matches H.values h = true
    · have hfind : (b :: bs).find? (·.1.matches H.values h) = some b :=
        List.find?_cons_of_pos hmatches
      rw [if_pos hmatches, hfind]
      exact (Nest.returns_enter (run_binds_ne_ended _ h σ) hr).andThen_eq _
    · have hfind : (b :: bs).find? (·.1.matches H.values h)
          = bs.find? (·.1.matches H.values h) := List.find?_cons_of_neg hmatches
      rw [if_neg hmatches, hfind, Run.done_andThen]
      exact ih hts hrs

/-- A `switch` runs the body where the value enters, and no other one. -/
theorem exec_switch_at (hσ : σ.lookup (.name subject) = some h)
    (hcount : (branches.map (·.1.tag?)).count none ≤ 1)
    (hreturn : ∀ b ∈ branches, ∀ σ, (execAll H b.2 σ).Returns) {i : Nat}
    (hi : entryPoint? H.values h (branches.map (·.1.tag?)) = some i) {b : Pattern × List Stmt}
    (hb : branches[i]? = some b) :
    (Stmt.switch subject (branches.map armOf)).exec H σ
      = (Nest.binds (fieldsOf b.1) .body).enter H.values ⟨subject, h, .ofTag b.1.tag?, false⟩
        (execAll H b.2) σ := by
  obtain ⟨hlt, rfl⟩ := List.getElem?_eq_some_iff.mp hb
  have hr := hreturn _ (List.getElem_mem hlt)
  rw [exec_switch H _ hσ, tags_armOf, if_pos hcount, hi]
  simp only
  rw [execArms_skip, ← List.map_drop, List.drop_eq_getElem_cons hlt, List.map_cons, armOf_eq,
    execArms_cons]
  exact (Nest.returns_enter (run_binds_ne_ended _ h σ) hr).andThen_eq _

/-- **So does a `switch`, if its labels are settled.** -/
theorem exec_switch_of_settled (hσ : σ.lookup (.name subject) = some h)
    (htag : ∀ b ∈ branches, (Label.ofTag b.1.tag?).Of b.1)
    (hreturn : ∀ b ∈ branches, ∀ σ, (execAll H b.2 σ).Returns)
    (hs : settled (branches.map (·.1.tag?)) = true) :
    (Stmt.switch subject (branches.map armOf)).exec H σ
      = firstRun H subject h (fun p => .ofTag p.tag?) branches σ := by
  have hcount : (branches.map (·.1.tag?)).count none ≤ 1 := by
    rw [settled, Bool.and_eq_true] at hs
    exact of_decide_eq_true hs.1
  have hfind : branches.find? (·.1.matches H.values h)
      = (entryPoint? H.values h (branches.map (·.1.tag?))).bind (branches[·]?) := by
    rw [entryPoint?_of_settled hs, List.findIdx?_map,
      List.find?_congr fun b hb => matches_eq_admits (htag b hb) h,
      List.find?_eq_bind_findIdx?_getElem?]
    rfl
  rw [firstRun, hfind]
  cases hi : entryPoint? H.values h (branches.map (·.1.tag?)) with
  | none =>
    rw [exec_switch H _ hσ, tags_armOf, if_pos hcount, hi]
    rfl
  | some i =>
    have hlt : i < branches.length := by simpa using lt_of_entryPoint hi
    have hb : branches[i]? = some branches[i] := List.getElem?_eq_getElem hlt
    rw [exec_switch_at hσ hcount hreturn hi hb, Option.bind_some, hb]

end

/-! ## Labels that are not settled -/

/-- Values that are nothing but their tags. -/
def bareTags : Host String where
  values := { passes := fun t v => t == .tag v, fields := fun _ => [] }
  eval _ _ := none
  isTrue _ := true
  closure _ _ _ := .one ""

theorem visits_bareTags {v : Visit String} {t : String} (hv : v.value = .one t) (p : Pattern)
    (body : Store String → Run String) (σ : Store String) :
    ((Nest.binds (fieldsOf p) .body).enter bareTags.values v body σ).visits.head? = some v := by
  have hrun : ∃ τ, (Nest.binds (fieldsOf p) .body).code.run bareTags.values v.value σ
      = .entered τ := by
    rw [hv]
    match p with
    | .anything | .list _ | .shape (.text _) | .shape (.format _) | .shape .empty => exact ⟨σ, rfl⟩
    | .shape (.tag name fields) =>
      rw [fieldsOf, fieldBinds]
      cases fieldsText? fields <;> exact ⟨_, rfl⟩
  obtain ⟨τ, hτ⟩ := hrun
  rw [Nest.enter, hτ]
  rfl

/-- Whether the value `t` under the name of the subject makes a `switch` select the first branch
that matches. -/
def SelectsFirst (subject : String) (branches : List (Pattern × List Stmt)) (t : String) : Prop :=
  (Stmt.switch subject (branches.map armOf)).exec bareTags [(.name subject, .one t)]
    = firstRun bareTags subject (.one t) (fun p => .ofTag p.tag?) branches
      [(.name subject, .one t)]

section

variable {subject t : String} {branches : List (Pattern × List Stmt)}

theorem head?_of_selectsFirst (h : SelectsFirst subject branches t) {b : Pattern × List Stmt}
    (hb : branches.find? (·.1.matches bareTags.values (.one t)) = some b) :
    ((Stmt.switch subject (branches.map armOf)).exec bareTags
      [(.name subject, .one t)]).visits.head? = some ⟨subject, .one t, .ofTag b.1.tag?, false⟩ := by
  rw [h, firstRun, hb]
  exact visits_bareTags rfl _ _ _

theorem count_le_of_selectsFirst (htag : ∀ b ∈ branches, (Label.ofTag b.1.tag?).Of b.1)
    (h : SelectsFirst subject branches t) : (branches.map (·.1.tag?)).count none ≤ 1 := by
  by_contra hcount
  -- the program is none, but there is a default branch, which is selected
  have hpos : 0 < (branches.map (·.1.tag?)).count none := by omega
  obtain ⟨d, hd, hnone⟩ := List.mem_map.mp (List.count_pos_iff.mp hpos)
  have hmatches : d.1.matches bareTags.values (.one t) = true := by
    rw [matches_eq_admits (htag d hd), hnone]
    rfl
  have hfind : (branches.find? (·.1.matches bareTags.values (.one t))).isSome = true :=
    List.find?_isSome.mpr ⟨d, hd, hmatches⟩
  obtain ⟨b, hb⟩ := Option.isSome_iff_exists.mp hfind
  have hhead := head?_of_selectsFirst h hb
  rw [exec_switch bareTags _ List.lookup_cons_self, tags_armOf, if_neg hcount] at hhead
  cases hhead

theorem passesLabel_bareTags {tag : Option String} :
    passesLabel bareTags.values (.one t) tag = true ↔ tag = some t := by
  cases tag with
  | none => simp [passesLabel]
  | some name => simp [passesLabel, Held.test, bareTags]

/-- The default branch is selected, if no branch before it has the tag. -/
theorem find?_default (htag : ∀ b ∈ branches, (Label.ofTag b.1.tag?).Of b.1)
    {before after : List (Option String)}
    (htags : branches.map (·.1.tag?) = before ++ none :: after)
    (hsome : ∀ tag ∈ before, tag.isSome = true) (hbefore : some t ∉ before) :
    ∃ d, branches.find? (·.1.matches bareTags.values (.one t)) = some d ∧ d.1.tag? = none := by
  obtain ⟨bs, ds, rfl, hbs, hds⟩ := List.map_eq_append_iff.mp htags
  obtain ⟨d, ds, rfl, hd, -⟩ := List.map_eq_cons_iff.mp hds
  obtain ⟨htag₁, htag₂⟩ := List.forall_mem_append.mp htag
  refine ⟨d, ?_, hd⟩
  have hnone : bs.find? (·.1.matches bareTags.values (.one t)) = none := by
    refine List.find?_eq_none.mpr fun b hb => ?_
    have hmem : b.1.tag? ∈ before := hbs ▸ List.mem_map_of_mem hb
    obtain ⟨name, hname⟩ := Option.isSome_iff_exists.mp (hsome _ hmem)
    rw [matches_eq_admits (htag₁ b hb), hname, admits, Option.isNone_some, Bool.false_or,
      passesLabel_bareTags, ← hname]
    exact fun h => hbefore (h ▸ hmem)
  have hmatches : d.1.matches bareTags.values (.one t) = true := by
    rw [matches_eq_admits (htag₂ d List.mem_cons_self), hd]
    rfl
  rw [List.find?_append, hnone, Option.none_or]
  exact List.find?_cons_of_pos hmatches

/-- A tag after the default label that does not stand before it is not hidden by it. -/
theorem not_selectsFirst (htag : ∀ b ∈ branches, (Label.ofTag b.1.tag?).Of b.1)
    (hreturn : ∀ b ∈ branches, ∀ σ, (execAll bareTags b.2 σ).Returns)
    {before after : List (Option String)}
    (htags : branches.map (·.1.tag?) = before ++ none :: after)
    (hsome : ∀ tag ∈ before, tag.isSome = true) (hbefore : some t ∉ before)
    (hafter : some t ∈ after) : ¬ SelectsFirst subject branches t := by
  intro h
  obtain ⟨d, hfind, hd⟩ := find?_default htag htags hsome hbefore
  have hfirst := head?_of_selectsFirst h hfind
  -- the label of the value is found, so the default one is not looked for
  have hmem : some t ∈ branches.map (·.1.tag?) := by
    rw [htags]
    exact List.mem_append_right _ (List.mem_cons_of_mem _ hafter)
  have hidx : ((branches.map (·.1.tag?)).findIdx?
      (passesLabel bareTags.values (.one t))).isSome = true := by
    rw [List.findIdx?_isSome, List.any_eq_true]
    exact ⟨some t, hmem, passesLabel_bareTags.mpr rfl⟩
  obtain ⟨i, hi⟩ := Option.isSome_iff_exists.mp hidx
  obtain ⟨hlt, hpass, -⟩ := List.findIdx?_eq_some_iff_getElem.mp hi
  rw [passesLabel_bareTags, List.getElem_map] at hpass
  rw [List.length_map] at hlt
  have hentry : entryPoint? bareTags.values (.one t) (branches.map (·.1.tag?)) = some i := by
    rw [entryPoint?, hi]
    rfl
  rw [exec_switch_at List.lookup_cons_self (count_le_of_selectsFirst htag h) hreturn hentry
    (List.getElem?_eq_getElem hlt), visits_bareTags rfl, hpass, hd] at hfirst
  cases hfirst

theorem settled_of_selectsFirst (htag : ∀ b ∈ branches, (Label.ofTag b.1.tag?).Of b.1)
    (hreturn : ∀ b ∈ branches, ∀ σ, (execAll bareTags b.2 σ).Returns)
    (h : ∀ t, SelectsFirst subject branches t) : settled (branches.map (·.1.tag?)) = true := by
  rw [settled, Bool.and_eq_true]
  refine ⟨decide_eq_true (count_le_of_selectsFirst htag (h "")), List.all_eq_true.mpr ?_⟩
  rcases exists_default (branches.map (·.1.tag?)) with hall |
    ⟨before, after, htags, hsome, htake, hdrop⟩
  · rw [List.dropWhile_eq_nil_iff.mpr hall]
    exact fun _ ht => absurd ht List.not_mem_nil
  · rw [htake, hdrop]
    intro tag hmem
    cases tag with
    | none => rfl
    | some t =>
      rw [Option.isNone_some, Bool.false_or, List.contains_iff_mem]
      by_contra hbefore
      have hafter : some t ∈ after := by simpa using hmem
      exact not_selectsFirst htag hreturn htags hsome hbefore hafter (h t)

end

/-- **A chain selects the first branch that matches, and a `switch` does so for every value exactly
if its labels are settled.** -/
theorem switch_selects_first_iff (subject : String) (branches : List (Pattern × List Stmt))
    (hdispatch : dispatchOf (branches.map (·.1)) = .byTag)
    (hreturn : ∀ b ∈ branches, ∀ (V : Type) (H : Host V) (σ : Store V),
      (execAll H b.2 σ).Returns) :
    (∀ (V : Type) (H : Host V) (σ : Store V) (h : Held V), σ.lookup (.name subject) = some h →
      (∀ n, h ≠ .position n) → execAll H (chain subject branches) σ
        = firstRun H subject h (fun p => .nest (branchMatch p)) branches σ) ∧
    (settled (branches.map (·.1.tag?)) = true ↔
      ∀ (V : Type) (H : Host V) (σ : Store V) (h : Held V), σ.lookup (.name subject) = some h →
        (Stmt.switch subject (branches.map armOf)).exec H σ
          = firstRun H subject h (fun p => .ofTag p.tag?) branches σ) := by
  have htag : ∀ b ∈ branches, (Label.ofTag b.1.tag?).Of b.1 :=
    fun b hb => of_tag? hdispatch (List.mem_map_of_mem hb)
  refine ⟨fun V H σ h hσ hread => ?_, fun hs V H σ h hσ => ?_, fun h => ?_⟩
  · exact execAll_chain hσ hread htag fun b hb => hreturn b hb V H
  · exact exec_switch_of_settled hσ htag (fun b hb => hreturn b hb V H) hs
  · exact settled_of_selectsFirst htag (fun b hb => hreturn b hb String bareTags)
      fun t => h String bareTags _ _ List.lookup_cons_self

/-- `Just { value }` before the default branch, of `Just "7"`. -/
theorem switch_selects_first_just :
    let branches : List (Pattern × List Stmt) :=
      [(.shape (.tag "Just" "\x7b value \x7d"), [.return (.raw "value")]),
        (.anything, [.return (.raw "0")])]
    let σ : Store (String × String) := [(.name "_res", .one ("Just", "7"))]
    dispatchOf (branches.map (·.1)) = .byTag ∧ settled (branches.map (·.1.tag?)) = true ∧
      (Stmt.switch "_res" (branches.map armOf)).exec taggedTexts σ
        = firstRun taggedTexts "_res" (.one ("Just", "7")) (fun p => .ofTag p.tag?) branches σ ∧
      (execAll taggedTexts (chain "_res" branches) σ).flow = .returned (.one ("", "7")) := by
  intro branches σ
  have hdispatch : dispatchOf (branches.map (·.1)) = .byTag := rfl
  have hreturn : ∀ b ∈ branches, ∀ (V : Type) (H : Host V) (τ : Store V),
      (execAll H b.2 τ).Returns := by
    intro b hb V H τ
    simp only [branches, List.mem_cons, List.not_mem_nil, or_false] at hb
    rcases hb with rfl | rfl <;> exact returns_return H _ τ
  obtain ⟨hchain, hswitch⟩ := switch_selects_first_iff "_res" branches hdispatch hreturn
  have hs : settled (branches.map (·.1.tag?)) = true := by decide
  refine ⟨hdispatch, hs, hswitch.mp hs _ _ _ _ rfl, ?_⟩
  rw [hchain _ _ _ _ rfl fun n => by simp]
  rfl

/-- After the default branch, a `switch` still finds `Just`. -/
theorem switch_passes_default :
    let branches : List (Pattern × List Stmt) :=
      [(.anything, [.return (.raw "0")]), (.shape (.tag "Just" ""), [.return (.raw "1")])]
    let σ : Store (String × String) := [(.name "_res", .one ("Just", "7"))]
    dispatchOf (branches.map (·.1)) = .byTag ∧
      ((Stmt.switch "_res" (branches.map armOf)).exec taggedTexts σ).flow
        = .returned (.one ("", "1")) ∧
      (execAll taggedTexts (chain "_res" branches) σ).flow = .returned (.one ("", "0")) :=
  ⟨rfl, rfl, rfl⟩

end Derw.Script

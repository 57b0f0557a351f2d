import Derw.Proofs.Case.Run
import Derw.Proofs.Match.Gapless

/-!
# Proofs/Case/Matching — a body that is entered has a pattern that matches

`Pattern.matches` says whether a pattern matches a value, for the three kinds of patterns at once:
shapes test it, list patterns decompose it. In whatever store the statements of `branchMatch` run,
they enter the body only on a value that matches (`matches_of_entered`). For list patterns that is
read off the two theories of lists: with gaps the nest does what its plan does, and without gaps it
passes its checks only if every part takes an element that suits it.
-/

namespace Derw

open Script

/-- Whether a pattern matches a value. A list pattern without parts matches the empty list only. -/
def Pattern.matches {V : Type} (m : Values V) (h : Held V) : Pattern → Bool
  | .shape s => h.test m (testOf s) == some true
  | .list [] => h.elements?.any List.isEmpty
  | .list parts => h.elements?.any fun xs => (split? m 0 parts xs).isSome
  | .anything => true

end Derw

namespace Derw.Script

variable {V : Type} {m : Values V} {subject : Held V} {σ τ : Store V}

theorem isSome_held? (m : Values V) (p : Nat) (parts : List Part) (xs : List V) :
    (held? m p parts xs).isSome = (split? m p parts xs).isSome := by
  rw [held?, Option.isSome_map]

/-! ## Guards -/

theorem allHold_of_entered {gs : List Guard} {inner : Code}
    (h : (Code.when gs inner .done).run m subject σ = .entered τ) :
    Guard.allHold m subject σ gs = some true ∧ inner.run m subject σ = .entered τ := by
  rw [Outcome.entered_iff_arrival, arrival_when] at h
  rw [Outcome.entered_iff_arrival]
  rcases hg : Guard.allHold m subject σ gs with _ | _ | _
  · rw [hg] at h
    cases h
  · rw [hg] at h
    cases h
  · rw [hg] at h
    exact ⟨rfl, h⟩

theorem holds_of_allHold {c : Cond} (h : Guard.allHold m subject σ [.cond c] = some true) :
    c.holds m subject σ = some true := by
  rw [Guard.allHold, Guard.holds] at h
  rcases hc : c.holds m subject σ with _ | _ | _
  · rw [hc] at h
    cases h
  · rw [hc] at h
    cases h
  · rfl

/-! ## Lists with gaps -/

/-- A plan with a gap looks at the length first. -/
theorem exists_plan_eq {parts : List Part} (h : hasGap parts = true) :
    ∃ ss, plan parts = .check (.lengthOver {}) :: ss := by
  unfold plan
  match parts, h with
  | .binder n :: .shape s :: ps, _ => exact ⟨_, by simp [planFrom]; rfl⟩
  | .binder n :: .binder n' :: ps, _ => exact ⟨_, by rw [planFrom]⟩
  | .shape (.tag ..) :: ps, _ => exact ⟨_, by simp [planFrom]; rfl⟩
  | .shape (.text _) :: ps, _ => exact ⟨_, by simp [planFrom]; rfl⟩
  | .shape (.format _) :: ps, _ => exact ⟨_, by simp [planFrom]; rfl⟩
  | .shape .empty :: q :: ps, _ => exact ⟨_, by simp [planFrom]; rfl⟩

theorem isSome_split?_of_plan {parts : List Part} (hgap : hasGap parts = true)
    (h : (Nest.ofSteps [] (plan parts)).code.run m subject σ = .entered τ) :
    (subject.elements?.any fun xs => (split? m 0 parts xs).isSome) = true := by
  have hscoped : Step.Scoped [] (plan parts) :=
    Step.scoped_planFrom (List.nil_subset _) fun _ h => absurd h List.not_mem_nil
  rw [Outcome.entered_iff_arrival, arrival_ofSteps [] hscoped] at h
  cases subject with
  | one | position =>
    obtain ⟨ss, hplan⟩ := exists_plan_eq hgap
    rw [hplan] at h
    cases h
  | many xs =>
    have hrun : (Step.runAll m (.many xs) σ (plan parts)).map Store.names
        = ending σ.names (held? m 0 parts xs) :=
      Step.runAll_planFrom m xs (Nat.zero_le _) ⟨rfl, fun _ h => by cases h⟩
    rw [List.map_nil, List.nil_append] at h
    rw [h] at hrun
    rw [Held.elements?_many, Option.any_some, ← isSome_held?]
    cases hheld : held? m 0 parts xs with
    | some es => rfl
    | none =>
      rw [hheld] at hrun
      cases hrun

/-! ## Lists without gaps -/

/-- A store holds what was declared last, if the names are distinct. -/
theorem lookup_declare {es : List (String × Held V)} (h : (es.map Prod.fst).Nodup) {n : String}
    {x : Held V} (hx : (n, x) ∈ es) (σ : Store V) : (σ.declare es).lookup (.name n) = some x := by
  have hnil := Store.lookup_declare_nil h hx
  rw [Store.declare, List.append_nil] at hnil
  rw [Store.declare, List.lookup_append, hnil]
  rfl

theorem fst_elementsHeld {fixed : List Part} {xs : List V} (p : Nat)
    (h : fixed.length ≤ xs.length) :
    (elementsHeld p fixed xs).map Prod.fst = fixed.mapIdx fun i => elementName (p + i) := by
  induction fixed generalizing p xs with
  | nil => rfl
  | cons part ps ih =>
    cases xs with
    | nil => simp at h
    | cons v vs =>
      rw [elementsHeld, List.map_cons, ih (p + 1) (Nat.le_of_succ_le_succ h),
        mapIdx_cons_add elementName]

/-- The names of a destructuring, if it stands in the nest. -/
theorem nodup_of_declaresOnce {fixed : List Part} {length : Cond} {rest : Option String}
    (h : (fixedNest fixed length rest).declaresOnce = true) :
    (fixed.mapIdx elementName ++ rest.toList).Nodup := by
  rw [fixedNest, Nest.declaresOnce] at h
  split at h
  next hempty =>
    simp only [Bool.and_eq_true, List.isEmpty_iff, Option.isNone_iff_eq_none] at hempty
    rw [hempty.1, hempty.2]
    exact List.nodup_nil
  next =>
    rw [Nest.declaresOnce, Bool.and_eq_true] at h
    exact of_decide_eq_true h.1

theorem allAccept_of_entered {fixed : List Part} {xs : List V} {length : Cond}
    {rest : Option String} (honce : (fixedNest fixed length rest).declaresOnce = true)
    (hlen : length.holds m (.many xs) σ = some true → fixed.length ≤ xs.length)
    (h : (fixedNest fixed length rest).code.run m (.many xs) σ = .entered τ) :
    length.holds m (.many xs) σ = some true ∧ allAccept m fixed xs = true := by
  have hnames := nodup_of_declaresOnce honce
  rw [fixedNest, Nest.code] at h
  obtain ⟨hg, h⟩ := allHold_of_entered h
  have hlength := holds_of_allHold hg
  have hlen := hlen hlength
  refine ⟨hlength, ?_⟩
  split at h
  next hempty =>
    simp only [Bool.and_eq_true, List.isEmpty_iff, List.mapIdx_eq_nil_iff] at hempty
    rw [hempty.1]
    rfl
  next =>
    set es := elementsHeld 0 fixed xs ++ restHeld fixed.length xs rest with hes
    have hzip : (fixed.mapIdx elementName).zip (xs.map .one) = elementsHeld 0 fixed xs := by
      simpa using zip_elementName 0 fixed xs
    have hentries : (Bind.elements (fixed.mapIdx elementName) rest).entries m (.many xs) σ
        = some es := by
      simp [Bind.entries, hlen, hzip, hes, restHeld]
    have hnodup : (es.map Prod.fst).Nodup := by
      have hrest : (restHeld fixed.length xs rest).map Prod.fst = rest.toList := by
        cases rest <;> rfl
      have hfst := fst_elementsHeld 0 hlen
      simp only [Nat.zero_add] at hfst
      rwa [hes, List.map_append, hfst, hrest]
    have hchecks : Guard.allHold m (.many xs) (σ.declare es)
        ((fixed.mapIdx elementChecks).flatten.map .cond) = some (allAccept m fixed xs) := by
      simpa using allHold_elementChecks (p := 0) hlen fun e he =>
        lookup_declare hnodup (List.mem_append_left _ he) σ
    rw [Nest.code, Code.run, hentries, Outcome.entered_iff_arrival, arrival_guarded, hchecks] at h
    cases hacc : allAccept m fixed xs with
    | true => rfl
    | false =>
      rw [hacc] at h
      cases h

/-- The parts that take one element each, before an ending for which the length is checked. -/
theorem isSome_split?_of_fixedNest {fixed tail : List Part} {length : Cond} {rest : Option String}
    (hg : hasGapFrom 0 (fixed ++ tail) = false)
    (he : ∀ part ps, part :: ps <:+ fixed → isEnd (part :: ps ++ tail) = false)
    (hlist : subject.elements? = none → length.holds m subject σ ≠ some true)
    (htail : ∀ xs, length.holds m (.many xs) σ = some true → fixed.length ≤ xs.length ∧
      (held? m fixed.length tail (xs.drop fixed.length)).isSome = true)
    (honce : (fixedNest fixed length rest).declaresOnce = true)
    (h : (fixedNest fixed length rest).code.run m subject σ = .entered τ) :
    (subject.elements?.any fun xs => (split? m 0 (fixed ++ tail) xs).isSome) = true := by
  cases subject with
  | one | position =>
    rw [fixedNest, Nest.code] at h
    exact absurd (holds_of_allHold (allHold_of_entered h).1) (hlist rfl)
  | many xs =>
    obtain ⟨hlength, hacc⟩ := allAccept_of_entered honce (fun h => (htail xs h).1) h
    rw [Held.elements?_many, Option.any_some, ← isSome_held?, held?_append hg he, if_pos hacc,
      Option.isSome_map, Nat.zero_add]
    exact (htail xs hlength).2

theorem isSome_split?_of_gapless {parts : List Part} (hgap : hasGap parts = false)
    (honce : (gapless parts).declaresOnce = true)
    (h : (gapless parts).code.run m subject σ = .entered τ) :
    (subject.elements?.any fun xs => (split? m 0 parts xs).isSome) = true := by
  rcases ending_cases parts with ⟨fixed, r, rfl⟩ | ⟨fixed, rfl⟩ | hlast
  · rw [gapless_rest] at honce h
    refine isSome_split?_of_fixedNest hgap (fun _ ps _ => isEnd_cons_append _ _ ps) ?_ ?_ honce h
    · intro hnone
      simp [Cond.holds, hnone]
    · intro xs hlen
      exact ⟨by simpa [Cond.holds] using hlen, by simp [held?, split?]⟩
  · rw [gapless_stop] at honce h
    refine isSome_split?_of_fixedNest hgap (fun _ ps _ => isEnd_cons_append _ _ ps) ?_ ?_ honce h
    · intro hnone
      simp [Cond.holds, Index.value, hnone]
    · intro xs hlen
      have hlen : xs.length = fixed.length := by simpa [Cond.holds, Index.value] using hlen
      refine ⟨Nat.le_of_eq hlen.symm, ?_⟩
      rw [List.drop_eq_nil_of_le (Nat.le_of_eq hlen)]
      rfl
  · rw [gapless_open hlast] at honce h
    rw [← List.append_nil parts] at hgap ⊢
    refine isSome_split?_of_fixedNest hgap (isEnd_of_suffix hlast) ?_ ?_ honce h
    · intro hnone
      simp [Cond.holds, hnone]
    · intro xs hlen
      exact ⟨by simpa [Cond.holds] using hlen, by simp [held?, split?]⟩

/-! ## All patterns -/

/-- **A body is entered only if its pattern matches.** -/
theorem matches_of_entered {p : Pattern} (honce : (branchMatch p).declaresOnce = true)
    (h : (branchMatch p).code.run m subject σ = .entered τ) : p.matches m subject = true := by
  match p with
  | .anything => rfl
  | .shape s =>
    have hc := holds_of_allHold (allHold_of_entered h).1
    rw [Pattern.matches, beq_iff_eq]
    exact hc
  | .list [] =>
    have hc : (Cond.lengthIs {}).holds m subject σ = some true :=
      holds_of_allHold (allHold_of_entered h).1
    rw [Pattern.matches]
    cases hx : subject.elements? with
    | none => simp [Cond.holds, Index.value, hx] at hc
    | some xs =>
      have hlen : xs = [] := by simpa [Cond.holds, Index.value, hx] using hc
      rw [hlen]
      rfl
  | .list (part :: ps) =>
    rw [branchMatch, listMatch, if_neg (by simp)] at honce h
    rw [Pattern.matches]
    · by_cases hgap : hasGap (part :: ps) = true
      · rw [if_pos hgap] at h
        exact isSome_split?_of_plan hgap h
      · rw [if_neg hgap] at honce h
        exact isSome_split?_of_gapless (by simpa using hgap) honce h
    · rintro ⟨⟩

end Derw.Script

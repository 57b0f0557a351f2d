import Derw.Proofs.Match.Plan

/-!
# Proofs/Match/Leftmost — where the first hit is as good as any other

A plan takes the first element that suits the part behind a gap and never goes back. Beside a
reading of the pattern that lets a gap take as many elements as it likes (`FitsLoosely`), it may
miss a match: of two shapes in a row only the first is searched for, and its first hit need not
stand before a hit of the second.

It misses none where, from the first gap on, every shape stands right behind a gap (`SearchesOn`).
What is left behind the first hit ends with what is left behind any other one
(`suffix_behind_first_hit`), and such a pattern takes a list apart if it fits an end of it
(`FitsLoosely.splits_of_suffix`): a binder takes what it is given, and a search that starts earlier
finds its element no later.
-/

namespace Derw.Script

variable {V : Type}

/-! ## Gaps of any length -/

/-- The parts, the first of which has this position, fit a list for some choice of the lengths of
their gaps. -/
inductive FitsLoosely (m : Values V) : Nat → List Part → List V → Prop
  /-- No part is left, and nothing is asked of the elements that remain. -/
  | done {p xs} : FitsLoosely m p [] xs
  /-- A binder at the end takes all elements that remain. -/
  | rest {p n xs} : FitsLoosely m p [.binder n] xs
  /-- With `[]` at the end, none may remain. -/
  | stop {p} : FitsLoosely m p [.shape .empty] []
  /-- A gap takes any elements, and the part behind it one that suits it. -/
  | gap {p part next ps run v xs} :
    startsGap p (part :: next :: ps) = true → accepts m next v = true →
    FitsLoosely m (p + 2) ps xs →
    FitsLoosely m p (part :: next :: ps) (run ++ v :: xs)
  /-- Every other part takes one element, which suits it. -/
  | one {p part ps v xs} :
    startsGap p (part :: ps) = false → isEnd (part :: ps) = false →
    accepts m part v = true →
    FitsLoosely m (p + 1) ps xs →
    FitsLoosely m p (part :: ps) (v :: xs)

variable {m : Values V} {p : Nat} {parts : List Part} {xs ys : List V}

/-- Behind a gap stands a shape, which takes one element. -/
theorem behind_gap {part next : Part} {ps : List Part}
    (hg : startsGap p (part :: next :: ps) = true) :
    startsGap (p + 1) (next :: ps) = false ∧ isEnd (next :: ps) = false := by
  obtain ⟨n, s, -, rfl, hs⟩ := startsGap_inv hg
  exact ⟨rfl, isEnd_shape fun _ => hs⟩

theorem Splits.fitsLoosely {pieces : List (List V)} (h : Splits m p parts xs pieces) :
    FitsLoosely m p parts xs := by
  induction h with
  | done => exact .done
  | rest => exact .rest
  | stop => exact .stop
  | one hg he hv _ ih => exact .one hg he hv ih
  | gap hg _ _ ih =>
    -- the search has ended at an element that suits the part behind the gap
    obtain ⟨hnext, hend⟩ := behind_gap hg
    cases ih with
    | rest | stop => cases hend
    | gap hg' => rw [hnext] at hg'; cases hg'
    | one _ _ hv hfits => exact .gap hg hv hfits

/-! ## Patterns that search for every shape -/

/-- Whether part number `i` is a gap, if the first part has this position. -/
def isGapAt (position : Nat) (parts : List Part) (i : Nat) : Bool :=
  startsGap (position + i) (parts.drop i)

/-- From number `k` on, every part is a binder or stands right behind a gap. -/
def SearchedFrom (k position : Nat) (parts : List Part) : Prop :=
  ∀ i s, k ≤ i → parts[i]? = some (.shape s) →
    ∃ j, i = j + 1 ∧ isGapAt position parts j = true

/-- From the first gap on, every part is a binder or stands right behind a gap. -/
def SearchesOn (position : Nat) (parts : List Part) : Prop :=
  ∀ first, isGapAt position parts first = true → SearchedFrom first position parts

section

variable {k : Nat} {part next : Part} {ps : List Part}

theorem isGapAt_succ (p : Nat) (part : Part) (ps : List Part) (i : Nat) :
    isGapAt p (part :: ps) (i + 1) = isGapAt (p + 1) ps i := by
  rw [isGapAt, isGapAt, List.drop_succ_cons, Nat.add_right_comm p 1 i, Nat.add_assoc]

theorem SearchedFrom.mono {l : Nat} (h : SearchedFrom k p parts) (hkl : k ≤ l) :
    SearchedFrom l p parts := fun i s hi => h i s (hkl.trans hi)

/-- The first part may be left out, unless it is the gap in front of the part in question. -/
theorem SearchedFrom.tail (h : SearchedFrom (k + 1) p (part :: ps))
    (hfirst : 0 < k ∨ startsGap p (part :: ps) = false) : SearchedFrom k (p + 1) ps := by
  intro i s hi hs
  obtain ⟨j, hj, hgap⟩ := h (i + 1) s (Nat.succ_le_succ hi) hs
  obtain rfl : i = j := Nat.succ.inj hj
  cases i with
  | zero =>
    rcases hfirst with hk | hg
    · exact absurd hi (Nat.not_le.mpr hk)
    · exact absurd (hg.symm.trans hgap) Bool.false_ne_true
  | succ i => exact ⟨i, rfl, (isGapAt_succ p part ps i).symm.trans hgap⟩

/-- Behind a gap and the part it leads to, the same holds of the rest. -/
theorem SearchedFrom.behind_gap (h : SearchedFrom 0 p (part :: next :: ps))
    (hg : startsGap p (part :: next :: ps) = true) : SearchedFrom 0 (p + 2) ps :=
  ((h.mono (Nat.zero_le 2)).tail (.inl Nat.one_pos)).tail (.inr (Script.behind_gap hg).1)

theorem SearchesOn.tail (h : SearchesOn p (part :: ps)) (hg : startsGap p (part :: ps) = false) :
    SearchesOn (p + 1) ps := by
  intro first hfirst
  have hsearched := h (first + 1) ((isGapAt_succ p part ps first).trans hfirst)
  exact hsearched.tail (.inr hg)

end

/-! ## The first hit -/

/-- What is left behind the first hit of a search ends with what is left behind any other hit. -/
theorem suffix_behind_first_hit {test : V → Bool} {run rest before after : List V} {u v : V}
    (hrun : ∀ w ∈ run, test w = false) (hv : test v = true)
    (h : run ++ u :: rest = before ++ v :: after) : after <:+ rest := by
  rcases List.append_eq_append_iff.mp h with ⟨mid, rfl, hmid⟩ | ⟨mid, rfl, hmid⟩
  · cases mid with
    | nil => exact (List.cons.inj hmid).2 ▸ List.suffix_rfl
    | cons w mid =>
      obtain ⟨-, rfl⟩ := List.cons.inj hmid
      exact ⟨mid ++ [v], by simp⟩
  · cases mid with
    | nil => exact (List.cons.inj hmid).2 ▸ List.suffix_rfl
    | cons w mid =>
      -- the other hit would stand in the run
      obtain ⟨rfl, -⟩ := List.cons.inj hmid
      have hmiss := hrun v (List.mem_append_right _ List.mem_cons_self)
      exact absurd (hmiss.symm.trans hv) Bool.false_ne_true

/-- A pattern that searches for every shape takes a list apart if it fits an end of it. -/
theorem FitsLoosely.splits_of_suffix (h : FitsLoosely m p parts ys)
    (hsearched : SearchedFrom 0 p parts) (hsuffix : ys <:+ xs) :
    ∃ pieces, Splits m p parts xs pieces := by
  induction h generalizing xs with
  | done => exact ⟨_, .done⟩
  | rest => exact ⟨_, .rest⟩
  | stop =>
    obtain ⟨j, hj, -⟩ := hsearched 0 .empty le_rfl rfl
    cases hj
  | @one p part ps v ys hg he hv hfits ih =>
    cases part with
    | shape s =>
      obtain ⟨j, hj, -⟩ := hsearched 0 s le_rfl rfl
      cases hj
    | binder n =>
      obtain ⟨u, rest, rfl, hrest⟩ : ∃ u rest, xs = u :: rest ∧ ys <:+ rest := by
        obtain ⟨before, rfl⟩ := hsuffix
        cases before with
        | nil => exact ⟨v, ys, rfl, List.suffix_rfl⟩
        | cons u before => exact ⟨u, _, rfl, before ++ [v], by simp⟩
      obtain ⟨pieces, hpieces⟩ := ih ((hsearched.mono (Nat.zero_le 1)).tail (.inr hg)) hrest
      exact ⟨_, .one hg he rfl hpieces⟩
  | @gap p part next ps run v ys hg hv hfits ih =>
    obtain ⟨before, rfl⟩ := hsuffix
    rcases search_cases (accepts m next) (before ++ (run ++ v :: ys)) with
      hnone | ⟨missed, u, rest, hx, hmissed, hu⟩
    · exact absurd ((hnone v (by simp)).symm.trans hv) Bool.false_ne_true
    · have hrest : ys <:+ rest :=
        suffix_behind_first_hit hmissed hv (hx.symm.trans (List.append_assoc ..).symm)
      obtain ⟨pieces, hpieces⟩ := ih (hsearched.behind_gap hg) hrest
      obtain ⟨hnext, hend⟩ := behind_gap hg
      rw [hx]
      exact ⟨_, .gap hg hmissed (.one hnext hend hu hpieces)⟩

/-- Up to its first gap a pattern leaves no choice, and from there on the first hits will do. -/
theorem FitsLoosely.splits (h : FitsLoosely m p parts xs) (hon : SearchesOn p parts) :
    ∃ pieces, Splits m p parts xs pieces := by
  induction h with
  | done => exact ⟨_, .done⟩
  | rest => exact ⟨_, .rest⟩
  | stop => exact ⟨_, .stop⟩
  | one hg he hv _ ih =>
    obtain ⟨pieces, hpieces⟩ := ih (hon.tail hg)
    exact ⟨_, .one hg he hv hpieces⟩
  | gap hg hv hfits _ =>
    exact (FitsLoosely.gap hg hv hfits).splits_of_suffix (hon 0 hg) List.suffix_rfl

/-- A plan matches if there is a decomposition. -/
theorem exists_runAll_plan_iff (m : Values V) (parts : List Part) (xs : List V) :
    (∃ σ, Step.runAll m (.many xs) [] (plan parts) = .ok σ) ↔
      ∃ pieces, Splits m 0 parts xs pieces := by
  have hrun := Step.runAll_plan m parts xs
  have hsplits : (∃ pieces, Splits m 0 parts xs pieces) ↔
      ∃ pieces, split? m 0 parts xs = some pieces :=
    exists_congr fun _ => ⟨Splits.split?_eq, .of_split?⟩
  rw [hsplits]
  rw [held?] at hrun
  generalize Step.runAll m (.many xs) [] (plan parts) = ended at hrun ⊢
  generalize split? m 0 parts xs = pieces? at hrun ⊢
  cases ended <;> cases pieces? <;> simp [ending, Except.map] at hrun ⊢

/-- **Where every shape from the first gap on is searched for, the plan misses no match.** It
matches a list just if the pattern fits the list for some choice of the lengths of its gaps. -/
theorem runAll_plan_iff_fitsLoosely (m : Values V) {parts : List Part} (h : SearchesOn 0 parts)
    (xs : List V) :
    (∃ σ, Step.runAll m (.many xs) [] (plan parts) = .ok σ) ↔ FitsLoosely m 0 parts xs := by
  rw [exists_runAll_plan_iff]
  exact ⟨fun ⟨_, hsplits⟩ => hsplits.fitsLoosely, fun hfits => hfits.splits h⟩

/-- The list fits with its second 2 for `B`. The plan takes the first one, and the binder behind it
and the second gap take what stands before the 3. -/
theorem runAll_plan_iff_fitsLoosely_second_hit :
    let m : Values Nat :=
      ⟨fun t v => [(.tag "A", 1), (.tag "B", 2), (.tag "C", 3)].contains (t, v), fun _ => []⟩
    let parts : List Part := [.shape (.tag "A" ""), .binder "gap", .shape (.tag "B" ""),
      .binder "x", .binder "gap'", .shape (.tag "C" "")]
    SearchesOn 0 parts ∧ FitsLoosely m 0 parts (1 :: ([2, 5] ++ 2 :: 6 :: ([] ++ [3]))) ∧
      ∃ σ, Step.runAll m (.many [1, 2, 5, 2, 6, 3]) [] (plan parts) = .ok σ := by
  intro m parts
  have hon : SearchesOn 0 parts := by
    intro first hfirst i s hi hs
    match i, hs with
    | 0, _ => obtain rfl := Nat.le_zero.mp hi; cases hfirst
    | 2, _ => exact ⟨1, rfl, rfl⟩
    | 5, _ => exact ⟨4, rfl, rfl⟩
  have hfits : FitsLoosely m 0 parts (1 :: ([2, 5] ++ 2 :: 6 :: ([] ++ [3]))) :=
    .one rfl rfl rfl (.gap rfl rfl (.one rfl rfl rfl (.gap rfl rfl .done)))
  exact ⟨hon, hfits, (runAll_plan_iff_fitsLoosely m hon _).mpr hfits⟩

-- A shape that is not searched for: the first 2 does not stand before a 3, and there is no way
-- back.
example :
    split? ⟨fun t v => [(.tag "A", 1), (.tag "B", 2), (.tag "C", 3)].contains (t, v), fun _ => []⟩ 0
        [.shape (.tag "A" ""), .binder "gap", .shape (.tag "B" ""), .shape (.tag "C" "")]
        [1, 2, 5, 2, 3]
      = none := by
  decide +kernel

end Derw.Script

import Derw.Name.Distance
import Mathlib.Data.List.Perm.Basic

/-!
# Proofs/Name/Suggestion — the names that are spelled alike, closest first

`Ranks` says what a list of suggestions has to be: all known names that are near enough, the closer
before the farther, and those as close as each other in the order in which they are known. Sorting
is one way to get there, and `Ranks.unique` says that there is only one result.

So a lower limit only cuts the list off. What is left of the suggestions within a limit when the
farther ones are taken out is ranked for the lower limit, and what is taken out stands at the end.
-/

namespace Derw.Name

/-- The suggestions rank the known names within `limit` of `name`. -/
structure Ranks (limit : Int) (name : String) (known suggestions : List String) : Prop where
  /-- Each known name that is near enough is suggested, as often as it is known. -/
  perm : suggestions.Perm (known.filter fun k => (distance name k : Int) ≤ limit)
  /-- Closer names come first. -/
  ascending : suggestions.Pairwise fun a b => distance name a ≤ distance name b
  /-- Names at one distance stand in the order in which they are known. -/
  stable : ∀ d, (suggestions.filter (distance name · = d)).Sublist known

section

variable {limit lower : Int} {name : String} {known xs ys : List String}

/-! ## There is one ranking -/

/-- The suggestions at one distance are the known names at that distance. -/
theorem Ranks.filter_eq (h : Ranks limit name known xs) (d : Nat) :
    xs.filter (distance name · = d)
      = (known.filter fun k => (distance name k : Int) ≤ limit).filter (distance name · = d) := by
  have hnear : ∀ x ∈ xs.filter (distance name · = d), (distance name x : Int) ≤ limit := by
    intro x hx
    have hx := h.perm.mem_iff.mp (List.mem_filter.mp hx).1
    simpa using (List.mem_filter.mp hx).2
  have hsub : (xs.filter (distance name · = d)).Sublist
      ((known.filter fun k => (distance name k : Int) ≤ limit).filter (distance name · = d)) := by
    have hsub := ((h.stable d).filter fun k => (distance name k : Int) ≤ limit).filter
      (distance name · = d)
    rw [List.filter_eq_self.mpr fun x hx => decide_eq_true (hnear x hx)] at hsub
    simpa only [List.filter_filter, Bool.and_self] using hsub
  exact hsub.eq_of_length (h.perm.filter _).length_eq

/-- A list in ascending order is the list of its parts of equal elements. -/
theorem eq_of_ascending {key : String → Nat} (hxs : xs.Pairwise (key · ≤ key ·))
    (hys : ys.Pairwise (key · ≤ key ·))
    (h : ∀ d, xs.filter (key · = d) = ys.filter (key · = d)) : xs = ys := by
  have hmem : ∀ {as bs : List String}, (∀ d, as.filter (key · = d) = bs.filter (key · = d)) →
      ∀ a ∈ as, a ∈ bs := by
    intro as bs hparts a ha
    have ha : a ∈ as.filter (key · = key a) := List.mem_filter.mpr ⟨ha, by simp⟩
    rw [hparts] at ha
    exact (List.mem_filter.mp ha).1
  induction xs generalizing ys with
  | nil =>
    cases ys with
    | nil => rfl
    | cons y ys => exact absurd (hmem (fun d => (h d).symm) y List.mem_cons_self) List.not_mem_nil
  | cons x xs ih =>
    cases ys with
    | nil => exact absurd (hmem h x List.mem_cons_self) List.not_mem_nil
    | cons y ys =>
      rw [List.pairwise_cons] at hxs hys
      -- both first elements are least, hence in the same part, where they come first
      have hkey : key x = key y := by
        have hx := hmem h x List.mem_cons_self
        have hy := hmem (fun d => (h d).symm) y List.mem_cons_self
        rcases List.mem_cons.mp hx with rfl | hx
        · rfl
        rcases List.mem_cons.mp hy with rfl | hy
        · rfl
        exact Nat.le_antisymm (hxs.1 y hy) (hys.1 x hx)
      have hfirst := h (key x)
      rw [List.filter_cons_of_pos (by simp), List.filter_cons_of_pos (by simp [hkey])] at hfirst
      obtain ⟨rfl, -⟩ := List.cons.inj hfirst
      refine congrArg _ (ih hxs.2 hys.2 fun d => ?_)
      have hd := h d
      rw [List.filter_cons, List.filter_cons] at hd
      split at hd
      · exact (List.cons.inj hd).2
      · exact hd

theorem Ranks.unique (hxs : Ranks limit name known xs) (hys : Ranks limit name known ys) :
    xs = ys :=
  eq_of_ascending hxs.ascending hys.ascending fun d =>
    (hxs.filter_eq d).trans (hys.filter_eq d).symm

/-! ## Sorting ranks -/

theorem suggest_eq (limit : Int) (name : String) (known : List String) :
    suggest limit name known
      = (known.filter fun k => (distance name k : Int) ≤ limit).mergeSort
          fun a b => distance name a ≤ distance name b := by
  rw [suggest, List.filter_map]
  have hsort := List.map_mergeSort (f := fun k => (k, distance name k))
    (r := fun a b => distance name a ≤ distance name b) (s := fun c d => c.2 ≤ d.2)
    (l := known.filter fun k => (distance name k : Int) ≤ limit) fun _ _ _ _ => rfl
  refine (congrArg (List.map Prod.fst) hsort.symm).trans ?_
  rw [List.map_map]
  exact List.map_id _

section

variable (key : String → Nat) (xs : List String)

theorem trans_key (a b c : String) (hab : decide (key a ≤ key b) = true)
    (hbc : decide (key b ≤ key c) = true) : decide (key a ≤ key c) = true :=
  decide_eq_true (Nat.le_trans (of_decide_eq_true hab) (of_decide_eq_true hbc))

theorem total_key (a b : String) : (decide (key a ≤ key b) || decide (key b ≤ key a)) = true := by
  simpa using Nat.le_total (key a) (key b)

theorem pairwise_mergeSort_key :
    (xs.mergeSort fun a b => key a ≤ key b).Pairwise (key · ≤ key ·) :=
  (List.pairwise_mergeSort (trans_key key) (total_key key) xs).imp of_decide_eq_true

/-- Sorting leaves elements of one key in their order. -/
theorem filter_mergeSort (d : Nat) :
    (xs.mergeSort fun a b => key a ≤ key b).filter (key · = d) = xs.filter (key · = d) := by
  have hequal : (xs.filter (key · = d)).Pairwise fun a b => decide (key a ≤ key b) = true := by
    refine List.pairwise_of_forall_mem_list fun a ha b hb => ?_
    have ha : key a = d := by simpa using (List.mem_filter.mp ha).2
    have hb : key b = d := by simpa using (List.mem_filter.mp hb).2
    exact decide_eq_true (by omega)
  have hsub := (List.sublist_mergeSort (trans_key key) (total_key key) hequal
    List.filter_sublist).filter (key · = d)
  simp only [List.filter_filter, Bool.and_self] at hsub
  exact (hsub.eq_of_length ((List.mergeSort_perm _ _).filter _).length_eq.symm).symm

end

theorem ranks_suggest (limit : Int) (name : String) (known : List String) :
    Ranks limit name known (suggest limit name known) := by
  rw [suggest_eq]
  refine ⟨List.mergeSort_perm _ _, pairwise_mergeSort_key _ _, fun d => ?_⟩
  rw [filter_mergeSort]
  exact List.filter_sublist.trans List.filter_sublist

/-! ## Lower limits -/

/-- Without its farther names a ranking is one for the lower limit. -/
theorem Ranks.filter (h : Ranks limit name known xs) (hle : lower ≤ limit) :
    Ranks lower name known (xs.filter fun k => (distance name k : Int) ≤ lower) where
  perm := by
    refine (h.perm.filter _).trans (List.Perm.of_eq ?_)
    rw [List.filter_filter]
    refine List.filter_congr fun k _ => ?_
    simpa using fun hk => Int.le_trans hk hle
  ascending := h.ascending.filter _
  stable d := (List.filter_sublist.filter _).trans (h.stable d)

/-- In ascending order, what is within a limit stands in front. -/
theorem filter_prefix (h : xs.Pairwise fun a b => distance name a ≤ distance name b) :
    xs.filter (fun k => (distance name k : Int) ≤ lower) <+: xs := by
  induction xs with
  | nil => exact List.prefix_rfl
  | cons x xs ih =>
    rw [List.pairwise_cons] at h
    by_cases hx : (distance name x : Int) ≤ lower
    · rw [List.filter_cons_of_pos (by simpa using hx)]
      exact (List.prefix_cons_inj x).mpr (ih h.2)
    · have hnone : (x :: xs).filter (fun k => (distance name k : Int) ≤ lower) = [] := by
        rw [List.filter_eq_nil_iff]
        intro y hy
        rcases List.mem_cons.mp hy with rfl | hy
        · simpa using hx
        · have hxy := h.1 y hy
          rw [decide_eq_true_eq]
          omega
      rw [hnone]
      exact List.nil_prefix

end

/-- **Suggestions are ranked, stable and monotone.** What is suggested is the one ranking of the
known names within the limit, and it starts with what is suggested for a lower limit. -/
theorem suggest_eq_iff (limit : Int) (name : String) (known : List String) :
    (∀ suggestions, suggest limit name known = suggestions ↔ Ranks limit name known suggestions) ∧
      ∀ lower ≤ limit, suggest lower name known <+: suggest limit name known := by
  have hranks := ranks_suggest limit name known
  refine ⟨fun suggestions => ⟨fun h => h ▸ hranks, hranks.unique⟩, fun lower hle => ?_⟩
  rw [(ranks_suggest lower name known).unique (hranks.filter hle)]
  exact filter_prefix hranks.ascending

end Derw.Name

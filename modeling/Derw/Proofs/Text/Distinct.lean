import Derw.Text.Cut
import Mathlib.Data.List.Basic
import Mathlib.Data.List.Nodup

/-!
# Proofs/Text/Distinct — first occurrences

`distinct` leaves of each text the first occurrence: nothing is lost and nothing repeated, and the
order is that of the first occurrences. Two ways to say the last are kept here: by positions in the
list, and by any positions that the texts ascend with (`pairwise_distinct`).
-/

namespace Derw.Text

/-- No text is lost, and none is added. -/
theorem mem_distinct {s : String} {ss : List String} : s ∈ distinct ss ↔ s ∈ ss := by
  induction ss with
  | nil => rfl
  | cons t ts ih =>
    rw [distinct, List.mem_cons, List.mem_cons, List.mem_filter, ih]
    by_cases h : s = t <;> simp [h]

theorem distinct_append (xs ys : List String) :
    distinct (xs ++ ys) = distinct xs ++ (distinct ys).filter (!xs.contains ·) := by
  induction xs with
  | nil => exact (List.filter_eq_self.mpr fun _ _ => rfl).symm
  | cons x xs ih =>
    rw [List.cons_append, distinct, distinct, ih, List.filter_append, List.filter_filter,
      List.cons_append]
    congr 3
    funext y
    rw [List.contains_cons, Bool.not_or]
    rfl

/-- Every text comes once. -/
theorem nodup_distinct (xs : List String) : (distinct xs).Nodup := by
  induction xs with
  | nil => exact List.nodup_nil
  | cons x xs ih =>
    rw [distinct, List.nodup_cons, List.mem_filter]
    exact ⟨fun h => by simp at h, ih.filter _⟩

/-- Texts stay in the order in which they come first. -/
theorem pairwise_idxOf_distinct (xs : List String) :
    (distinct xs).Pairwise fun x y => xs.idxOf x < xs.idxOf y := by
  induction xs with
  | nil => exact .nil
  | cons x xs ih =>
    have hlater : ∀ {y}, y ∈ (distinct xs).filter (· != x) →
        (x :: xs).idxOf y = xs.idxOf y + 1 := by
      intro y hy
      have hne : y ≠ x := by simpa using (List.mem_filter.mp hy).2
      rw [List.idxOf_cons_ne _ hne.symm]
    rw [distinct, List.pairwise_cons]
    refine ⟨fun y hy => ?_, ?_⟩
    · rw [List.idxOf_cons_self, hlater hy]
      exact Nat.succ_pos _
    · refine (ih.filter _).imp_of_mem fun hy hz hlt => ?_
      rw [hlater hy, hlater hz]
      exact Nat.succ_lt_succ hlt

/-- If texts stand at ascending positions, the first occurrence of each comes before all occurrences
of the next. -/
theorem pairwise_distinct {α : Type} {R : α → α → Prop} {ps : List (α × String)}
    (h : ps.Pairwise (R ·.1 ·.1)) :
    (distinct (ps.map (·.2))).Pairwise fun t u =>
      ∃ p, (p, t) ∈ ps ∧ ∀ q, (q, u) ∈ ps → R p q := by
  induction ps with
  | nil => exact .nil
  | cons first ps ih =>
    obtain ⟨p, t⟩ := first
    rw [List.pairwise_cons] at h
    -- what is left of the rest occurs nowhere else
    have hlater : ∀ {u}, u ∈ (distinct (ps.map (·.2))).filter (· != t) →
        ∀ q, (q, u) ∈ (p, t) :: ps → (q, u) ∈ ps := by
      intro u hu q hq
      have hne : u ≠ t := by simpa using (List.mem_filter.mp hu).2
      exact (List.mem_cons.mp hq).resolve_left fun heq => hne (Prod.mk.inj heq).2
    rw [List.map_cons, distinct, List.pairwise_cons]
    refine ⟨fun u hu => ⟨p, List.mem_cons_self, fun q hq => h.1 _ (hlater hu q hq)⟩, ?_⟩
    refine ((ih h.2).filter _).imp_of_mem fun _ hu hbefore => ?_
    obtain ⟨q, hq, hafter⟩ := hbefore
    exact ⟨q, List.mem_cons_of_mem _ hq, fun r hr => hafter r (hlater hu r hr)⟩

end Derw.Text

import Derw.Text.Cut

/-!
# Proofs/Text/Cut — laws of splitting and joining

Splitting at characters of a kind takes a text apart at each of them, whatever stands around it, so
the pieces of a text are the pieces before such a character and the pieces behind it. Joining is the
way back: the texts of two lists are joined by joining each and putting the separator between.
-/

namespace Derw.Text

section

variable {p : Char → Bool} {cs rest : List Char}

/-- A separator divides the pieces before it from those after it. -/
theorem splitWhere_append_separator {s : Char} (hs : p s = true) (xs ys : List Char) :
    splitWhere p (xs ++ s :: ys) = splitWhere p xs ++ splitWhere p ys := by
  induction xs with
  | nil =>
    rw [List.nil_append, splitWhere.eq_def]
    exact if_pos hs
  | cons x xs ih =>
    rw [List.cons_append, splitWhere, splitWhere, ih]
    split
    next => rfl
    next =>
      obtain ⟨w, ws, hw⟩ := List.exists_cons_of_ne_nil (splitWhere_ne_nil p xs)
      rw [hw]
      rfl

/-- A text without separators is one part. -/
theorem splitWhere_of_not (h : ∀ c ∈ cs, p c = false) : splitWhere p cs = [cs] := by
  induction cs with
  | nil => rfl
  | cons c cs ih =>
    obtain ⟨hc, hcs⟩ := List.forall_mem_cons.mp h
    rw [splitWhere, hc, ih hcs]
    rfl

/-- The first separator ends the first part. -/
theorem splitWhere_append_cons (h : ∀ c ∈ cs, p c = false) {d : Char} (hd : p d = true) :
    splitWhere p (cs ++ d :: rest) = cs :: splitWhere p rest := by
  rw [splitWhere_append_separator hd, splitWhere_of_not h]
  rfl

/-- Text that is not split lengthens the last piece. -/
theorem splitWhere_append_of_not {ys : List Char} (h : ∀ c ∈ ys, p c = false) (xs : List Char) :
    ∃ ws w, splitWhere p (xs ++ ys) = ws ++ [w ++ ys] := by
  induction xs with
  | nil => exact ⟨[], [], splitWhere_of_not h⟩
  | cons x xs ih =>
    obtain ⟨ws, w, hw⟩ := ih
    rw [List.cons_append, splitWhere, hw]
    split
    next => exact ⟨[] :: ws, w, rfl⟩
    next =>
      cases ws with
      | nil => exact ⟨[], x :: w, rfl⟩
      | cons v vs => exact ⟨(x :: v) :: vs, w, rfl⟩

/-- A piece is made of characters of the text at which it is not split. -/
theorem mem_splitWhere {w : List Char} (hw : w ∈ splitWhere p cs) {c : Char} (hc : c ∈ w) :
    c ∈ cs ∧ p c = false := by
  induction cs generalizing w with
  | nil => simp_all [splitWhere]
  | cons d cs ih =>
    obtain ⟨v, vs, hv⟩ := List.exists_cons_of_ne_nil (splitWhere_ne_nil p cs)
    rw [splitWhere, hv] at hw
    grind

end

theorem wordsWhere_append_separator {p : Char → Bool} {s : Char} (hs : p s = true)
    (xs ys : List Char) : wordsWhere p (xs ++ s :: ys) = wordsWhere p xs ++ wordsWhere p ys := by
  rw [wordsWhere, splitWhere_append_separator hs, List.filter_append]
  rfl

/-- An infix is what is looked for. -/
theorem occurs_iff {sep cs : List Char} : occurs sep cs = true ↔ sep <:+: cs := by
  induction cs with
  | nil =>
    rw [List.infix_nil, occurs, cutAt]
    cases sep <;> simp
  | cons c cs ih =>
    rw [List.infix_cons_iff, ← ih, occurs, cutAt, ← List.isPrefixOf_iff_prefix]
    split
    next h => simp [h]
    next h => simp [h, occurs]

/-- A cut loses nothing but the separator. -/
theorem eq_of_cutAt {sep cs before after : List Char}
    (h : cutAt sep cs = some (before, after)) : cs = before ++ sep ++ after := by
  induction cs generalizing before with
  | nil =>
    rw [cutAt] at h
    cases sep with
    | nil =>
      obtain ⟨rfl, rfl⟩ := Prod.mk.inj (Option.some.inj h)
      rfl
    | cons => cases h
  | cons c cs ih =>
    rw [cutAt] at h
    split at h
    next hsep =>
      obtain ⟨rfl, rfl⟩ := Prod.mk.inj (Option.some.inj h)
      obtain ⟨rest, hrest⟩ := List.isPrefixOf_iff_prefix.mp hsep
      rw [← hrest, List.drop_left, List.nil_append]
    next =>
      obtain ⟨r, hr, heq⟩ := Option.map_eq_some_iff.mp h
      obtain ⟨rfl, rfl⟩ := Prod.mk.inj heq
      exact congrArg (c :: ·) (ih hr)

/-- Behind the first text, each one has the separator in front. -/
theorem join_cons (sep s : String) (ss : List String) :
    join sep (s :: ss) = s ++ String.join (ss.map (sep ++ ·)) := by
  induction ss generalizing s with
  | nil => exact String.append_empty.symm
  | cons t ts ih =>
    rw [join, ih, List.map_cons, String.join_cons]
    · simp only [String.append_assoc]
    · exact List.cons_ne_nil _ _

/-- Joining is done list by list, with a separator between the two. -/
theorem join_append {sep : String} {ss ts : List String} (hs : ss ≠ []) (ht : ts ≠ []) :
    join sep (ss ++ ts) = join sep ss ++ sep ++ join sep ts := by
  obtain ⟨s, ss, rfl⟩ := List.exists_cons_of_ne_nil hs
  obtain ⟨t, ts, rfl⟩ := List.exists_cons_of_ne_nil ht
  rw [List.cons_append, join_cons, join_cons, join_cons, List.map_append, String.join_append,
    List.map_cons, String.join_cons]
  simp only [String.append_assoc]

end Derw.Text

import Derw.Proofs.Match.Store
import Mathlib.Data.List.TakeWhile

/-!
# Proofs/Match/Decomposition — the one way a list falls apart along a pattern

A list pattern asks for a *decomposition* of its subject, one piece a part (`Splits`): a gap takes
the elements before the first one that suits the part after it, a binder at the end takes all that
remain, `[]` at the end lets none remain, and every other part takes one element. What remains after
a pattern that ends otherwise is left alone.

The pieces before a gap are of fixed length and the length of a gap is fixed by what it may not
hold, so there is never a choice: `Splits.unique`, through `split?`, which computes the pieces.
`held?` reads off them what the names of the pattern stand for.
-/

namespace Derw.Script

variable {V : Type}

/-- Whether the first of these parts, which has this position, is a gap. -/
def startsGap (position : Nat) : List Part → Bool
  | .binder _ :: next :: _ => position != 0 && searchable next
  | _ => false

/-- Whether a single part is left that does not take exactly one element. -/
def isEnd : List Part → Bool
  | [.binder _] | [.shape .empty] => true
  | _ => false

/-- Whether a value suits a part that takes one element. -/
def accepts (m : Values V) : Part → V → Bool
  | .binder _, _ => true
  | .shape s, v => m.passes (testOf s) v

/-- `xs` falls into `pieces` along the parts, the first of which has this position. -/
inductive Splits (m : Values V) : Nat → List Part → List V → List (List V) → Prop
  /-- No part is left, and nothing is asked of the elements that remain. -/
  | done {p xs} : Splits m p [] xs []
  /-- A binder at the end takes all elements that remain. -/
  | rest {p n xs} : Splits m p [.binder n] xs [xs]
  /-- With `[]` at the end, none may remain. -/
  | stop {p} : Splits m p [.shape .empty] [] [[]]
  /-- A gap takes elements of which none suits the part after it. -/
  | gap {p part next ps run xs pieces} :
    startsGap p (part :: next :: ps) = true →
    (∀ v ∈ run, accepts m next v = false) →
    Splits m (p + 1) (next :: ps) xs pieces →
    Splits m p (part :: next :: ps) (run ++ xs) (run :: pieces)
  /-- Every other part takes one element, which suits it. -/
  | one {p part ps v xs pieces} :
    startsGap p (part :: ps) = false → isEnd (part :: ps) = false →
    accepts m part v = true →
    Splits m (p + 1) ps xs pieces →
    Splits m p (part :: ps) (v :: xs) ([v] :: pieces)

/-- The decomposition, if there is one. -/
def split? (m : Values V) (position : Nat) : List Part → List V → Option (List (List V))
  | [], _ => some []
  | [.binder _], xs => some [xs]
  | [.shape .empty], xs => if xs.isEmpty then some [[]] else none
  | .binder n :: next :: ps, xs =>
    if startsGap position (.binder n :: next :: ps) then
      (split? m (position + 1) (next :: ps) (xs.dropWhile (!accepts m next ·))).map
        (xs.takeWhile (!accepts m next ·) :: ·)
    else match xs with
      | [] => none
      | v :: xs => (split? m (position + 1) (next :: ps) xs).map ([v] :: ·)
  | .shape s :: ps, xs =>
    match xs with
    | [] => none
    | v :: xs =>
      if accepts m (.shape s) v then (split? m (position + 1) ps xs).map ([v] :: ·) else none

section

variable {m : Values V} {p : Nat} {part next : Part} {ps : List Part} {xs : List V}

theorem isEnd_shape {s : Shape} (h : ps = [] → s ≠ .empty) : isEnd (.shape s :: ps) = false := by
  cases s with
  | tag | text | format => cases ps <;> rfl
  | empty =>
    cases ps with
    | nil => exact absurd rfl (h rfl)
    | cons => rfl

/-- Only a binder is a gap, and only before a shape that can be searched for. -/
theorem startsGap_inv (h : startsGap p (part :: next :: ps) = true) :
    ∃ n s, part = .binder n ∧ next = .shape s ∧ s ≠ .empty := by
  cases part with
  | shape s => simp [startsGap] at h
  | binder n =>
    have hn : searchable next = true := by
      rw [startsGap, Bool.and_eq_true] at h
      exact h.2
    cases next with
    | binder n' => simp [searchable] at hn
    | shape s =>
      refine ⟨n, s, rfl, rfl, ?_⟩
      rintro rfl
      simp [searchable] at hn

theorem split?_gap (h : startsGap p (part :: next :: ps) = true) :
    split? m p (part :: next :: ps) xs
      = (split? m (p + 1) (next :: ps) (xs.dropWhile (!accepts m next ·))).map
          (xs.takeWhile (!accepts m next ·) :: ·) := by
  obtain ⟨n, s, rfl, rfl, -⟩ := startsGap_inv h
  simp only [split?, h, if_true]

theorem split?_one (hg : startsGap p (part :: ps) = false) (he : isEnd (part :: ps) = false) :
    split? m p (part :: ps) xs = match xs with
      | [] => none
      | v :: xs =>
        if accepts m part v then (split? m (p + 1) ps xs).map ([v] :: ·) else none := by
  cases part with
  | binder n =>
    cases ps with
    | nil => simp [isEnd] at he
    | cons next ps => cases xs <;> simp [split?, hg, accepts]
  | shape s =>
    have hne : ps = [] → s = .empty → False := by
      rintro rfl rfl
      simp [isEnd] at he
    cases xs <;> simp [split?]

end

theorem Splits.of_split? {m : Values V} {p : Nat} {parts : List Part} {xs : List V}
    {pieces : List (List V)} (h : split? m p parts xs = some pieces) :
    Splits m p parts xs pieces := by
  fun_induction split? m p parts xs generalizing pieces with
  | case1 => obtain rfl := Option.some.inj h; exact .done
  | case2 => obtain rfl := Option.some.inj h; exact .rest
  | case3 p xs hx =>
    obtain rfl := Option.some.inj h
    obtain rfl := List.isEmpty_iff.mp hx
    exact .stop
  | case5 p n next ps xs hg ih =>
    obtain ⟨tail, ht, rfl⟩ := Option.map_eq_some_iff.mp h
    have hrun : ∀ v ∈ xs.takeWhile (!accepts m next ·), accepts m next v = false := fun v hv => by
      simpa using List.all_eq_true.mp List.all_takeWhile v hv
    have hs := Splits.gap hg hrun (ih ht)
    rwa [List.takeWhile_append_dropWhile] at hs
  | case7 p n next ps hg v xs ih =>
    obtain ⟨tail, ht, rfl⟩ := Option.map_eq_some_iff.mp h
    exact .one (by simpa using hg) rfl rfl (ih ht)
  | case9 p s ps hne v xs hv ih =>
    obtain ⟨tail, ht, rfl⟩ := Option.map_eq_some_iff.mp h
    exact .one rfl (isEnd_shape hne) hv (ih ht)
  | case4 | case6 | case8 | case10 => cases h

theorem Splits.split?_eq {m : Values V} {p : Nat} {parts : List Part} {xs : List V}
    {pieces : List (List V)} (h : Splits m p parts xs pieces) :
    split? m p parts xs = some pieces := by
  induction h with
  | done | rest | stop => simp [split?]
  | @gap p part next ps run xs pieces hg hrun hs ih =>
    -- the element after the run suits the next part, so the search ends there
    obtain ⟨n, s, rfl, rfl, hne⟩ := startsGap_inv hg
    obtain ⟨v, ys, rfl, hv⟩ : ∃ v ys, xs = v :: ys ∧ accepts m (.shape s) v = true := by
      cases hs with
      | stop => exact absurd rfl hne
      | one _ _ hv _ => exact ⟨_, _, rfl, hv⟩
      | gap hg' => simp [startsGap] at hg'
    rw [split?_gap hg, List.takeWhile_append_of_pos (by simpa using hrun),
      List.dropWhile_append_of_pos (by simpa using hrun)]
    simp [hv, ih]
  | one hg he hv _ ih => simp [split?_one hg he, hv, ih]

/-- **A list has at most one decomposition.** -/
theorem Splits.unique {m : Values V} {p : Nat} {parts : List Part} {xs : List V}
    {pieces pieces' : List (List V)} (h : Splits m p parts xs pieces)
    (h' : Splits m p parts xs pieces') : pieces = pieces' :=
  Option.some.inj (h.split?_eq.symm.trans h'.split?_eq)

example :
    split? ⟨fun t v => [(.tag "A", 1), (.tag "B", 2)].contains (t, v), fun _ => []⟩ 0
        [.shape (.tag "A" ""), .binder "middle", .shape (.tag "B" ""), .binder "tail"]
        [1, 5, 6, 2, 7]
      = some [[1], [5, 6], [2], [7]] := by
  decide +kernel

/-! ## What a decomposition binds -/

/-- The fields that a shape takes from a value. -/
def fieldsHeld (m : Values V) (v : V) : Shape → List (String × Held V)
  | .tag _ fields =>
    (fieldsText? fields).elim [] fun p => (m.fields p).map fun f => (f.1, .one (f.2 v))
  | .text _ | .format _ | .empty => []

/-- What the first of these parts, which has this position, holds of the piece it takes: a gap and a
binder at the end hold a list, any other binder its element, and a shape its element, by the
position, and the fields it takes from it. -/
def pieceHeld (m : Values V) (position : Nat) :
    List Part → List V → List (String × Held V)
  | [.binder n], vs => [(n, .many vs)]
  | .binder n :: next :: ps, vs =>
    if startsGap position (.binder n :: next :: ps) then [(n, .many vs)]
    else vs.map fun v => (n, .one v)
  | .shape s :: _, vs => vs.flatMap fun v => (placeholder position, .one v) :: fieldsHeld m v s
  | [], _ => []

/-- What the parts hold of their pieces, in order. -/
def partsHeld (m : Values V) (position : Nat) :
    List Part → List (List V) → List (String × Held V)
  | part :: ps, piece :: pieces =>
    pieceHeld m position (part :: ps) piece ++ partsHeld m (position + 1) ps pieces
  | _, _ => []

/-- What the parts hold of a list, if it has a decomposition. -/
def held? (m : Values V) (position : Nat) (parts : List Part) (xs : List V) :
    Option (List (String × Held V)) :=
  (split? m position parts xs).map (partsHeld m position parts)

section

variable {m : Values V} {p : Nat} {ps : List Part}

/-- A part that takes one element takes the first, if there is one and it suits. -/
theorem held?_one {part : Part} (hg : startsGap p (part :: ps) = false)
    (he : isEnd (part :: ps) = false) (xs : List V) :
    held? m p (part :: ps) xs = match xs with
      | [] => none
      | v :: xs =>
        if accepts m part v then (held? m (p + 1) ps xs).map (pieceHeld m p (part :: ps) [v] ++ ·)
        else none := by
  rw [held?, split?_one hg he]
  cases xs with
  | nil => rfl
  | cons v xs =>
    by_cases hv : accepts m part v = true
    · simp [hv, held?, Function.comp_def, partsHeld]
    · simp [hv]

/-- The elements that a search passes over, and the one where it stops. -/
theorem search_cases (test : V → Bool) (xs : List V) :
    (∀ v ∈ xs, test v = false) ∨
      ∃ run v rest, xs = run ++ v :: rest ∧ (∀ u ∈ run, test u = false) ∧ test v = true := by
  cases h : xs.find? test with
  | none => exact Or.inl (by simpa using h)
  | some v =>
    obtain ⟨hv, run, rest, rfl, hrun⟩ := List.find?_eq_some_iff_append.mp h
    exact Or.inr ⟨run, v, rest, rfl, by simpa using hrun, hv⟩

variable {n : String} {s : Shape}

theorem held?_gap_none (hg : startsGap p (.binder n :: .shape s :: ps) = true) (hs : s ≠ .empty)
    {xs : List V} (hx : ∀ v ∈ xs, m.passes (testOf s) v = false) :
    held? m p (.binder n :: .shape s :: ps) xs = none := by
  rw [held?, split?_gap hg, List.dropWhile_eq_nil_iff.mpr (by simpa [accepts] using hx),
    split?_one rfl (isEnd_shape fun _ => hs)]
  rfl

theorem held?_gap (hg : startsGap p (.binder n :: .shape s :: ps) = true) (hs : s ≠ .empty)
    {run rest : List V} {v : V} (hrun : ∀ u ∈ run, m.passes (testOf s) u = false)
    (hv : m.passes (testOf s) v = true) :
    held? m p (.binder n :: .shape s :: ps) (run ++ v :: rest)
      = (held? m (p + 2) ps rest).map
          ((n, .many run) :: (placeholder (p + 1), .one v) :: fieldsHeld m v s ++ ·) := by
  rw [held?, split?_gap hg, List.takeWhile_append_of_pos (by simpa [accepts] using hrun),
    List.dropWhile_append_of_pos (by simpa [accepts] using hrun)]
  simp [accepts, hv, split?_one rfl (isEnd_shape fun _ => hs), held?, Function.comp_def, partsHeld,
    pieceHeld, hg]

end

end Derw.Script

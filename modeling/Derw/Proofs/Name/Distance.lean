import Derw.Name.Distance
import Mathlib.Data.List.Induction
import Mathlib.Order.Bounds.Basic

/-!
# Proofs/Name/Distance — the rows count the fewest edits

`edits` goes through a table of distances between beginnings of the two texts, one row at a time.
What the table holds is the recursion on the last characters of both (`row_eq`), which is here
spelled on reversed texts, as a recursion on the first ones (`frontEdits`).

That this is the least number of edits has two halves. An alignment of the two texts, which the
recursion picks, can be carried out edit by edit (`editsTo_frontEdits`). And no way of editing is
shorter, because one edit, wherever it is made, changes the recursion by one at most
(`Edit.frontEdits_le`).
-/

namespace Derw.Name

/-- One character is put in, taken out or replaced. -/
inductive Edit : List Char → List Char → Prop
  | insert (us vs : List Char) (c : Char) : Edit (us ++ vs) (us ++ c :: vs)
  | delete (us vs : List Char) (c : Char) : Edit (us ++ c :: vs) (us ++ vs)
  | replace (us vs : List Char) (c d : Char) : Edit (us ++ c :: vs) (us ++ d :: vs)

/-- So many edits, one after the other, turn the first text into the second. -/
inductive EditsTo : Nat → List Char → List Char → Prop
  | done (xs : List Char) : EditsTo 0 xs xs
  | edit {n : Nat} {xs ys zs : List Char} (first : Edit xs ys) (others : EditsTo n ys zs) :
    EditsTo (n + 1) xs zs

/-- The number of edits, by what becomes of the first characters. -/
def frontEdits : List Char → List Char → Nat
  | [], ys => ys.length
  | xs, [] => xs.length
  | x :: xs, y :: ys =>
    min (min (frontEdits xs (y :: ys) + 1) (frontEdits (x :: xs) ys + 1))
      (frontEdits xs ys + if x = y then 0 else 1)

section

variable {n : Nat} {xs ys zs : List Char} (x y : Char)

@[simp] theorem frontEdits_nil_left (ys : List Char) : frontEdits [] ys = ys.length := by
  rw [frontEdits]

@[simp] theorem frontEdits_nil_right (xs : List Char) : frontEdits xs [] = xs.length := by
  cases xs <;> simp [frontEdits]

/-- Of two texts that are not empty: delete a letter, insert one, or replace the first unless it is
the same. -/
theorem frontEdits_cons_cons (xs ys : List Char) :
    frontEdits (x :: xs) (y :: ys)
      = min (min (frontEdits xs (y :: ys) + 1) (frontEdits (x :: xs) ys + 1))
        (frontEdits xs ys + if x = y then 0 else 1) := by
  rw [frontEdits]

/-- Deleting in one text is inserting in the other. -/
theorem frontEdits_comm (xs ys : List Char) : frontEdits xs ys = frontEdits ys xs := by
  fun_induction frontEdits xs ys with
  | case1 ys => exact (frontEdits_nil_right ys).symm
  | case2 xs => exact (frontEdits_nil_left xs).symm
  | case3 x xs y ys ihx ihy ih =>
    rw [frontEdits_cons_cons, ihx, ihy, ih, min_comm (frontEdits (y :: ys) xs + 1)]
    simp only [eq_comm]

/-! ## An edit changes the number by one at most -/

/-- One letter more costs at most a deletion. -/
theorem frontEdits_cons_le (xs zs : List Char) :
    frontEdits (x :: xs) zs ≤ frontEdits xs zs + 1 := by
  cases zs with
  | nil => simp
  | cons z zs =>
    rw [frontEdits_cons_cons]
    omega

/-- One letter less costs at most an insertion. -/
theorem frontEdits_le_cons (xs zs : List Char) :
    frontEdits xs zs ≤ frontEdits (x :: xs) zs + 1 := by
  induction zs with
  | nil => simp; omega
  | cons z zs ih =>
    -- the character `z` can always be put in last
    have hz : frontEdits xs (z :: zs) ≤ frontEdits xs zs + 1 := by
      rw [frontEdits_comm xs, frontEdits_comm xs]
      exact frontEdits_cons_le z zs xs
    rw [frontEdits_cons_cons]
    omega

/-- Another letter costs at most a replacement. -/
theorem frontEdits_replace_le (xs zs : List Char) :
    frontEdits (x :: xs) zs ≤ frontEdits (y :: xs) zs + 1 := by
  induction zs with
  | nil => simp
  | cons z zs ih =>
    rw [frontEdits_cons_cons, frontEdits_cons_cons]
    split <;> split <;> omega

/-- What holds behind a common first character holds with it. -/
theorem frontEdits_cons_le_cons (h : ∀ zs, frontEdits xs zs ≤ frontEdits ys zs + 1)
    (zs : List Char) : frontEdits (x :: xs) zs ≤ frontEdits (x :: ys) zs + 1 := by
  induction zs with
  | nil => simpa using h []
  | cons z zs ih =>
    have h₁ := h (z :: zs)
    have h₂ := h zs
    rw [frontEdits_cons_cons, frontEdits_cons_cons]
    omega

/-- **An edit changes the number by one at most**, wherever in the text it is made. -/
theorem Edit.frontEdits_le (h : Edit xs ys) (zs : List Char) :
    frontEdits xs zs ≤ frontEdits ys zs + 1 := by
  have hfront : ∀ {vs ws : List Char}, (∀ zs, frontEdits vs zs ≤ frontEdits ws zs + 1) →
      ∀ us zs : List Char, frontEdits (us ++ vs) zs ≤ frontEdits (us ++ ws) zs + 1 := by
    intro vs ws hvs us
    induction us with
    | nil => exact hvs
    | cons u us ih => exact frontEdits_cons_le_cons u ih
  cases h with
  | insert us vs c => exact hfront (frontEdits_le_cons c vs) us zs
  | delete us vs c => exact hfront (frontEdits_cons_le c vs) us zs
  | replace us vs c d => exact hfront (frontEdits_replace_le c d vs) us zs

/-- Equal texts need no edit. -/
theorem frontEdits_self (xs : List Char) : frontEdits xs xs = 0 := by
  induction xs with
  | nil => exact frontEdits_nil_left []
  | cons x xs ih =>
    rw [frontEdits_cons_cons, ih, if_pos rfl]
    exact Nat.min_zero _

/-- **No way of editing is shorter.** -/
theorem EditsTo.frontEdits_le (h : EditsTo n xs ys) : frontEdits xs ys ≤ n := by
  induction h with
  | done xs => exact (frontEdits_self xs).le
  | edit first others ih => exact (first.frontEdits_le _).trans (Nat.succ_le_succ ih)

/-! ## An alignment can be carried out -/

/-- An edit further on. -/
theorem Edit.cons (c : Char) (h : Edit xs ys) : Edit (c :: xs) (c :: ys) := by
  cases h with
  | insert us vs d => exact .insert (c :: us) vs d
  | delete us vs d => exact .delete (c :: us) vs d
  | replace us vs d e => exact .replace (c :: us) vs d e

/-- Edits further on. -/
theorem EditsTo.cons (c : Char) (h : EditsTo n xs ys) : EditsTo n (c :: xs) (c :: ys) := by
  induction h with
  | done xs => exact .done _
  | edit first others ih => exact .edit (first.cons c) ih

/-- One edit more. -/
theorem EditsTo.concat (h : EditsTo n xs ys) (last : Edit ys zs) : EditsTo (n + 1) xs zs := by
  induction h with
  | done xs => exact .edit last (.done _)
  | edit first others ih => exact .edit first (ih last)

/-- A text is made by inserting its letters. -/
theorem editsTo_nil_left (ys : List Char) : EditsTo ys.length [] ys := by
  induction ys with
  | nil => exact .done []
  | cons y ys ih => exact ih.concat (.insert [] ys y)

/-- It is unmade by deleting them. -/
theorem editsTo_nil_right (xs : List Char) : EditsTo xs.length xs [] := by
  induction xs with
  | nil => exact .done []
  | cons x xs ih => exact .edit (.delete [] xs x) ih

/-- **The least number is reached.** -/
theorem editsTo_frontEdits (xs ys : List Char) : EditsTo (frontEdits xs ys) xs ys := by
  fun_induction frontEdits xs ys with
  | case1 ys => exact editsTo_nil_left ys
  | case2 xs => exact editsTo_nil_right xs
  | case3 x xs y ys ihx ihy ih =>
    have hdelete : EditsTo (frontEdits xs (y :: ys) + 1) (x :: xs) (y :: ys) :=
      .edit (.delete [] xs x) ihx
    have hinsert : EditsTo (frontEdits (x :: xs) ys + 1) (x :: xs) (y :: ys) :=
      ihy.concat (.insert [] ys y)
    have hpair : EditsTo (frontEdits xs ys + if x = y then 0 else 1) (x :: xs) (y :: ys) := by
      split
      next heq => exact heq ▸ ih.cons x
      next => exact .edit (.replace [] xs x y) (ih.cons y)
    have hone := min_rec' (EditsTo · (x :: xs) (y :: ys)) hdelete hinsert
    exact min_rec' (EditsTo · (x :: xs) (y :: ys)) hone hpair

end

/-! ## Reversed texts -/

/-- An edit of the text is one of the text read backwards. -/
theorem Edit.reverse {xs ys : List Char} (h : Edit xs ys) : Edit xs.reverse ys.reverse := by
  cases h with
  | insert us vs c => simpa using Edit.insert vs.reverse us.reverse c
  | delete us vs c => simpa using Edit.delete vs.reverse us.reverse c
  | replace us vs c d => simpa using Edit.replace vs.reverse us.reverse c d

/-- So are several edits. -/
theorem EditsTo.reverse {n : Nat} {xs ys : List Char} (h : EditsTo n xs ys) :
    EditsTo n xs.reverse ys.reverse := by
  induction h with
  | done xs => exact .done _
  | edit first others ih => exact .edit first.reverse ih

/-! ## The rows -/

/-- The number of edits between `w` and each of the texts that grow from `p` by putting the
characters of a text in front, one by one. -/
def frontRow (w p : List Char) : List Char → List Nat
  | [] => [frontEdits w p]
  | y :: ys => frontEdits w p :: frontRow w (y :: p) ys

/-- A row starts with the number for the empty text. -/
theorem frontRow_eq_cons (w p ys : List Char) :
    frontRow w p ys = frontEdits w p :: (frontRow w p ys).tail := by
  cases ys <;> rfl

/-- The rest of the next row, from the row before and the number to its left. -/
theorem rowTail_frontRow (x : Char) (w p ys : List Char) :
    rowTail x (frontEdits (x :: w) p) (frontEdits w p) ys (frontRow w p ys).tail
      = (frontRow (x :: w) p ys).tail := by
  induction ys generalizing p with
  | nil => rfl
  | cons y ys ih =>
    rw [frontRow, frontRow, List.tail_cons, List.tail_cons, frontRow_eq_cons w, rowTail,
      ← frontEdits_cons_cons, ih (y :: p), ← frontRow_eq_cons]

/-- **Each row is made from the row before**, for one letter more of the first text. -/
theorem nextRow_frontRow (ys w : List Char) (x : Char) :
    nextRow ys (frontRow w [] ys) x = frontRow (x :: w) [] ys := by
  have hfirst : frontEdits (x :: w) [] = frontEdits w [] + 1 := by simp
  rw [frontRow_eq_cons w, nextRow, ← hfirst, rowTail_frontRow, ← frontRow_eq_cons]

/-- The first row counts the letters of the second text. -/
theorem range'_eq_frontRow (p ys : List Char) :
    List.range' p.length (ys.length + 1) = frontRow [] p ys := by
  induction ys generalizing p with
  | nil => simp [frontRow]
  | cons y ys ih =>
    rw [List.length_cons, List.range'_succ, frontRow, frontEdits_nil_left]
    exact congrArg _ (ih (y :: p))

/-- **The row of a text lists its distances to the beginnings of the other.** -/
theorem row_eq (xs ys : List Char) : row xs ys = frontRow xs.reverse [] ys := by
  induction xs using List.reverseRecOn with
  | nil => exact List.range_eq_range'.trans (range'_eq_frontRow [] ys)
  | append_singleton xs x ih =>
    rw [row] at ih ⊢
    rw [List.foldl_append, ih, List.foldl_cons, List.foldl_nil, nextRow_frontRow,
      List.reverse_concat]

/-- The last number of a row is that for all of the second text. -/
theorem getLastD_frontRow (w p ys : List Char) (d : Nat) :
    (frontRow w p ys).getLastD d = frontEdits w (ys.reverse ++ p) := by
  induction ys generalizing p d with
  | nil => rfl
  | cons y ys ih =>
    rw [frontRow, List.getLastD_cons, ih, List.reverse_cons, List.append_assoc]
    rfl

/-- The table computes the recursion, on texts read backwards. -/
theorem edits_eq (xs ys : List Char) : edits xs ys = frontEdits xs.reverse ys.reverse := by
  rw [edits, row_eq, getLastD_frontRow, List.append_nil]

/-- So the number does not depend on which text comes first. -/
theorem edits_comm (xs ys : List Char) : edits xs ys = edits ys xs := by
  rw [edits_eq, edits_eq, frontEdits_comm]

/-- **The number is that of the fewest edits.** -/
theorem isLeast_edits (xs ys : List Char) : IsLeast {n | EditsTo n xs ys} (edits xs ys) := by
  rw [edits_eq]
  constructor
  · simpa using (editsTo_frontEdits xs.reverse ys.reverse).reverse
  · exact fun n h => h.reverse.frontEdits_le

/-! ## Names -/

/-- **The distance of two names is the least number of edits between them**, or zero if they differ
in case only; and it is the same both ways. -/
theorem distance_isLeast (a b : String) :
    (Text.eqFold a b = false → IsLeast {n | EditsTo n a.toList b.toList} (distance a b)) ∧
      (Text.eqFold a b = true → distance a b = 0) ∧ distance a b = distance b a := by
  have hfold : Text.eqFold b a = Text.eqFold a b := Bool.beq_comm
  refine ⟨fun h => ?_, fun h => ?_, ?_⟩
  · rw [distance, h]
    exact isLeast_edits a.toList b.toList
  · rw [distance, h]
    rfl
  · rw [distance, distance, hfold, edits_comm]

/-- Two replacements and an insertion; and a sign that is a letter in another case. -/
example : distance "kitten" "sitting" = 3 ∧ distance "\u212A" "k" = 0 := by
  decide +kernel

end Derw.Name

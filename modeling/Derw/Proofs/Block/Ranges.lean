import Derw.Proofs.Block.Segmentation
import Mathlib.Data.List.Chain

/-!
# Proofs/Block/Ranges — the blocks of a text as ranges of its lines

Seen from the whole text, blocks are ranges of line numbers: they follow each other without
overlapping, every line between them is blank, and a block says where its range starts
(`Segmentation`). This is `Segmented` with the lines counted from the start of the text, and each of
the two gives the other.
-/

namespace Derw

namespace Block

/-- The block of the lines from number `range.1` up to, but not with, `range.2`. -/
structure Covers (b : Block) (lines : List String) (range : Nat × Nat) : Prop where
  start_lt_stop : range.1 < range.2
  stop_le : range.2 ≤ lines.length
  lineStart_eq : b.lineStart = range.1
  head_eq : b.lines.head? = lines[range.1]?
  fills : ∃ first body, lines.extract range.1 range.2 = first :: body ∧
    b.Fills first body (lines.drop range.2)

/-- The first line of a block is its first line in the text. -/
theorem Fills.head?_lines {b : Block} {first : String} {body rest : List String}
    (h : b.Fills first body rest) : b.lines.head? = some first := by
  by_cases hk : b.kind = .multilineComment
  · rw [(h.comment hk).1, List.head?_cons]
  · rw [(h.other hk).1, squeeze_cons_of_not_blank h.first_not_blank, List.head?_cons]

end Block

/-- The ranges of the lines from number `n` on that are blocks, where `before` is the block before
these lines. -/
structure Segmentation (lines : List String) (n : Nat) (before : Option Block)
    (ranges : List (Nat × Nat)) (bs : List Block) : Prop where
  covers : List.Forall₂ (fun r b => b.Covers lines r) ranges bs
  n_le : ∀ r ∈ ranges, n ≤ r.1
  ordered : ranges.Pairwise fun r r' => r.2 ≤ r'.1
  /-- A line in no range is blank. -/
  outside : ∀ i l, n ≤ i → lines[i]? = some l → (∀ r ∈ ranges, i < r.1 ∨ r.2 ≤ i) →
    Text.isBlankLine l = true
  /-- A block starts with a line that belongs to the block before it only after a comment that is
  closed, or where no block is before it. -/
  starts : (before.toList ++ bs).IsChain fun b b' =>
    ∀ l ∈ b'.lines.head?, Transient l → b.IsClosedComment

section

variable {lines xs ys : List String} {n i : Nat}

theorem drop_add_of_drop (h : lines.drop n = xs ++ ys) : lines.drop (n + xs.length) = ys := by
  rw [← List.drop_drop, h, List.drop_left]

theorem extract_of_drop (h : lines.drop n = xs ++ ys) :
    lines.extract n (n + xs.length) = xs := by
  rw [List.extract_eq_take_drop, h, Nat.add_sub_cancel_left, List.take_left]

theorem add_length_le_of_drop (hn : n ≤ lines.length) (h : lines.drop n = xs ++ ys) :
    n + xs.length ≤ lines.length := by
  have hlen := congrArg List.length h
  rw [List.length_drop, List.length_append] at hlen
  omega

theorem extract_append_drop (h : n ≤ i) : lines.extract n i ++ lines.drop i = lines.drop n := by
  rw [List.extract_eq_take_drop]
  conv_rhs => rw [← List.take_append_drop (i - n) (lines.drop n), List.drop_drop]
  rw [Nat.add_sub_cancel' h]

/-- A line between two numbers is one of the lines between them. -/
theorem mem_of_drop {l : String} (h : lines.drop n = xs ++ ys) (hn : n ≤ i)
    (hi : i < n + xs.length) (hl : lines[i]? = some l) : l ∈ xs := by
  have hx : lines[i]? = (xs ++ ys)[i - n]? := by
    rw [← h, List.getElem?_drop, Nat.add_sub_cancel' hn]
  rw [hx, List.getElem?_append_left (by omega)] at hl
  exact List.mem_of_getElem? hl

theorem getElem?_of_mem_extract {l : String} (h : l ∈ lines.extract n i) :
    ∃ k, n ≤ k ∧ k < i ∧ lines[k]? = some l := by
  obtain ⟨j, hj⟩ := List.mem_iff_getElem?.mp h
  rw [List.extract_eq_take_drop, List.getElem?_take] at hj
  split at hj
  · rw [List.getElem?_drop] at hj
    exact ⟨n + j, by omega, by omega, hj⟩
  · cases hj

end

/-- Lines that fall into blocks are covered by ranges. -/
theorem Segmented.segmentation {lines ls : List String} {n : Nat} {before : Option Block}
    {bs : List Block} (h : Segmented n before ls bs) (hn : n ≤ lines.length)
    (hls : lines.drop n = ls) : ∃ ranges, Segmentation lines n before ranges bs := by
  induction h with
  | @done n before gap hgap =>
    refine ⟨[], .nil, by simp, .nil, fun i l hi hl _ => hgap l ?_, ?_⟩
    · rw [← List.append_nil gap] at hls
      have hlt : i < lines.length := (List.getElem?_eq_some_iff.mp hl).1
      have hlen := congrArg List.length hls
      rw [List.length_drop, List.length_append, List.length_nil] at hlen
      exact mem_of_drop hls hi (by omega) hl
    · cases before <;> simp
  | @block n before gap first body rest b bs hgap hstart hfills hfirst hrest ih =>
    -- the first line of the block, and the first one after it
    set s := n + gap.length with hs
    set e := s + (body.length + 1) with he
    have hdrop : lines.drop s = (first :: body) ++ rest := drop_add_of_drop hls
    have hsle : s ≤ lines.length := add_length_le_of_drop hn hls
    have hele : e ≤ lines.length := add_length_le_of_drop hsle hdrop
    obtain ⟨ranges, hranges⟩ := ih hele (drop_add_of_drop hdrop)
    have hcovers : b.Covers lines (s, e) := by
      refine ⟨by omega, hele, hstart, ?_, first, body, extract_of_drop hdrop, ?_⟩
      · rw [hfills.head?_lines, ← List.head?_drop, hdrop]
        rfl
      · rwa [show lines.drop e = rest from drop_add_of_drop hdrop]
    refine ⟨(s, e) :: ranges, .cons hcovers hranges.covers, ?_, ?_, ?_, ?_⟩
    · refine List.forall_mem_cons.mpr ⟨by omega, fun r hr => ?_⟩
      have := hranges.n_le r hr
      omega
    · exact .cons hranges.n_le hranges.ordered
    · intro i l hi hl hout
      obtain ⟨hrange, hout⟩ := List.forall_mem_cons.mp hout
      rcases hrange with hlt | hge
      · exact hgap l (mem_of_drop hls hi hlt hl)
      · exact hranges.outside i l hge hl hout
    · have hchain := hranges.starts
      cases before with
      | none => exact hchain
      | some p =>
        refine List.IsChain.cons_cons (fun l hl => ?_) hchain
        obtain rfl : first = l := by simpa [hfills.head?_lines] using hl
        exact hfirst p rfl

/-- …and lines that ranges cover fall into blocks. -/
theorem Segmentation.segmented {lines : List String} {n : Nat} {before : Option Block}
    {ranges : List (Nat × Nat)} {bs : List Block} (h : Segmentation lines n before ranges bs) :
    Segmented n before (lines.drop n) bs := by
  obtain ⟨hcovers, hn, hordered, hout, hstarts⟩ := h
  induction hcovers generalizing n before with
  | nil =>
    refine .done fun l hl => ?_
    obtain ⟨i, hi⟩ := List.mem_iff_getElem?.mp hl
    rw [List.getElem?_drop] at hi
    exact hout (n + i) l (Nat.le_add_right _ _) hi (by simp)
  | @cons r b ranges bs hcovers hrest ih =>
    obtain ⟨s, e⟩ := r
    obtain ⟨hlt, hle, hstart, hhead, first, body, hextract, hfills⟩ := hcovers
    dsimp only at hlt hle hstart hhead hextract hfills
    obtain ⟨hns, hn⟩ := List.forall_mem_cons.mp hn
    obtain ⟨hafter, hordered⟩ := List.pairwise_cons.mp hordered
    have hgap : (lines.extract n s).length = s - n := by
      rw [List.extract_eq_take_drop, List.length_take, List.length_drop]
      omega
    have hbody : body.length + 1 = e - s := by
      rw [← List.length_cons, ← hextract, List.extract_eq_take_drop, List.length_take,
        List.length_drop]
      omega
    have hs : lines.drop s = first :: (body ++ lines.drop e) := by
      rw [← List.cons_append, ← hextract, extract_append_drop hlt.le]
    rw [← extract_append_drop hns, hs]
    refine .block ?_ ?_ hfills ?_ ?_
    · intro l hl
      obtain ⟨k, hnk, hks, hk⟩ := getElem?_of_mem_extract hl
      refine hout k l hnk hk (List.forall_mem_cons.mpr ⟨Or.inl hks, fun r hr => Or.inl ?_⟩)
      have := hafter r hr
      omega
    · rw [hgap, hstart, Nat.add_sub_cancel' hns]
    · rintro p rfl
      have hfirst : lines[s]? = some first := by rw [← List.head?_drop, hs, List.head?_cons]
      exact (List.isChain_cons_cons.mp hstarts).1 first (hhead.trans hfirst)
    · rw [show n + (lines.extract n s).length + (body.length + 1) = e by omega]
      refine ih hafter hordered (fun i l hi hl hranges => ?_) ?_
      · exact hout i l (by omega) hl (List.forall_mem_cons.mpr ⟨Or.inr hi, hranges⟩)
      · cases before with
        | none => exact hstarts
        | some p => exact (List.isChain_cons_cons.mp hstarts).2

/-- Falling into blocks loses blank lines only. -/
theorem Segmented.filter_lines {n : Nat} {before : Option Block} {ls : List String}
    {bs : List Block} (h : Segmented n before ls bs) :
    (bs.flatMap Block.lines).filter (!Text.isBlankLine ·) = ls.filter (!Text.isBlankLine ·) := by
  have hblank : ∀ {gap}, AllBlank gap → gap.filter (!Text.isBlankLine ·) = [] := fun hgap =>
    List.filter_eq_nil_iff.mpr fun l hl => by simp [hgap l hl]
  induction h with
  | done hgap => exact (hblank hgap).symm
  | @block n before gap first body rest b bs hgap hstart hfills hfirst hrest ih =>
    have hb : b.lines.filter (!Text.isBlankLine ·)
        = (first :: body).filter (!Text.isBlankLine ·) := by
      by_cases hk : b.kind = .multilineComment
      · rw [(hfills.comment hk).1]
      · rw [(hfills.other hk).1, filter_squeeze]
    rw [List.flatMap_cons, List.filter_append, hb, ih, ← List.filter_append, List.filter_append gap,
      hblank hgap, List.nil_append, List.cons_append]

/-- **The blocks of a text are the ranges of its lines that belong together.** There is no other way
to take the lines apart like this, and no line that is not blank is lost, moved or made twice. -/
theorem segmentation_blocksOf (text : String) :
    (∃ ranges, Segmentation (linesOf text) 0 none ranges (blocksOf text)) ∧
    (∀ ranges bs, Segmentation (linesOf text) 0 none ranges bs → bs = blocksOf text) ∧
    ((blocksOf text).flatMap Block.lines).filter (!Text.isBlankLine ·)
      = (linesOf text).filter (!Text.isBlankLine ·) := by
  have h : Segmented 0 none (linesOf text) (blocksOf text) := segmented_iff.mpr rfl
  exact ⟨h.segmentation (Nat.zero_le _) rfl, fun _ _ hs => segmented_iff.mp hs.segmented,
    h.filter_lines⟩

example : blocksOf "a: number\na =\n\n \n  1\n\n-- note"
    = [⟨.const, 0, ["a: number", "a =", " ", "  1"]⟩, ⟨.comment, 6, ["-- note"]⟩] := by
  decide +kernel

end Derw

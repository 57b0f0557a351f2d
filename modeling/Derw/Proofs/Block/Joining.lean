import Derw.Proofs.Block.Segmentation
import Derw.Proofs.Text.Cut

/-!
# Proofs/Block/Joining — the blocks of texts put together

Where one text ends and another begins nothing of the first is left in the way: `blocksOf` of the
two is the blocks of the one and then the blocks of the other, further down
(`blocksOf_append_line`). The seam has to be one between blocks, so no comment may be open there and
the second text may not go on with the first one's last block.

The blocks of a text can be put together again, with a blank line between each two (`tidied`). That
gives the same blocks (`blocksOf_tidied`), because a block's own lines are the lines of just this
block, and what made it start or end where it did is still beside it.

Both go through `Segmented`: what the lines of either text fall into tells what all of them do.
-/

namespace Derw

/-! ## Lines of texts put together -/

theorem linesOf_append_line (a b : String) : linesOf (a ++ "\n" ++ b) = linesOf a ++ linesOf b := by
  have hlist : (a ++ "\n" ++ b).toList = a.toList ++ '\n' :: b.toList := by
    rw [String.toList_append, String.toList_append, List.append_assoc]
    rfl
  rw [linesOf, hlist, Text.splitWhere_append_separator (by rfl), List.map_append]
  rfl

theorem linesOf_empty : linesOf "" = [""] := rfl

/-- Lines put together are these lines. -/
theorem linesOf_join {ls : List String} (hne : ls ≠ []) (h : ∀ l ∈ ls, linesOf l = [l]) :
    linesOf (Text.join "\n" ls) = ls := by
  induction ls with
  | nil => exact absurd rfl hne
  | cons l ls ih =>
    obtain ⟨hl, hls⟩ := List.forall_mem_cons.mp h
    by_cases hnil : ls = []
    · rw [hnil]
      exact hl
    · rw [← List.singleton_append, Text.join_append (List.cons_ne_nil _ _) hnil, Text.join,
        linesOf_append_line, hl, ih hnil hls]

/-! ## One segmentation after another -/

namespace Block

/-- What a block holds, wherever it stands. -/
def content (b : Block) : BlockKind × List String := (b.kind, b.lines)

/-- The block, `n` lines further down. -/
def movedBy (n : Nat) (b : Block) : Block := { b with lineStart := b.lineStart + n }

theorem IsClosedComment.of_content {b b' : Block} (h : b.IsClosedComment)
    (heq : b'.content = b.content) : b'.IsClosedComment := by
  obtain ⟨hkind, hlines⟩ := Prod.ext_iff.mp heq
  exact ⟨hkind.trans h.1, (congrArg List.getLast? hlines).trans h.2⟩

theorem Fills.of_content {b b' : Block} {first : String} {body rest : List String}
    (h : b.Fills first body rest) (heq : b'.content = b.content) : b'.Fills first body rest := by
  obtain ⟨kind, start, lines⟩ := b
  obtain ⟨kind', start', lines'⟩ := b'
  obtain ⟨rfl, rfl⟩ := Prod.mk.inj heq
  exact ⟨h.first_not_blank, h.kind_of_starts, h.kind_of_transient, h.comment, h.other⟩

/-- The first line of a comment does not close it. -/
theorem Fills.getLast?_body {b : Block} {first : String} {body rest : List String}
    (h : b.Fills first body rest) (hb : b.IsClosedComment) :
    body.getLast? = some commentClose := by
  obtain ⟨hkind, hlast⟩ := hb
  rw [(h.comment hkind).1, List.getLast?_cons, Option.some_inj] at hlast
  cases hbody : body.getLast? with
  | some l => rw [← hlast, hbody, Option.getD_some]
  | none =>
    rw [hbody, Option.getD_none] at hlast
    have hclose : Segments.kindOf (classify commentClose) ≠ .multilineComment := by decide
    rw [h.kind_eq, hlast] at hkind
    exact absurd hkind hclose

/-- What comes after a block matters only to a comment that is not closed. -/
theorem Fills.of_rest {b : Block} {first : String} {body rest : List String}
    (h : b.Fills first body rest) {rest' : List String}
    (hrest : b.kind = .multilineComment → b.IsClosedComment ∨ rest' = []) :
    b.Fills first body rest' := by
  refine ⟨h.first_not_blank, h.kind_of_starts, h.kind_of_transient, fun hk => ?_, h.other⟩
  obtain ⟨hlines, hinner, -⟩ := h.comment hk
  exact ⟨hlines, hinner, (hrest hk).imp_left h.getLast?_body⟩

end Block

/-- Nothing but the number of its first line changes when lines are moved down. -/
theorem Segmented.movedBy {n : Nat} {before : Option Block} {ls : List String} {bs : List Block}
    (h : Segmented n before ls bs) (k : Nat) {before' : Option Block}
    (hbefore : before'.map Block.content = before.map Block.content) :
    Segmented (n + k) before' ls (bs.map (·.movedBy k)) := by
  induction h generalizing before' with
  | done hgap => exact .done hgap
  | @block n before gap first body rest b bs hgap hstart hfills hfirst hrest ih =>
    refine .block hgap ?_ (hfills.of_content rfl) (fun p hp ht => ?_) ?_
    · change b.lineStart + (k : Int) = _
      omega
    · obtain rfl := Option.mem_def.mp hp
      obtain ⟨q, hq, hcontent⟩ := Option.map_eq_some_iff.mp hbefore.symm
      exact (hfirst q hq ht).of_content hcontent.symm
    · rw [show n + k + gap.length + (body.length + 1) = n + gap.length + (body.length + 1) + k by
        omega]
      exact ih rfl

/-- Blank lines in front are no block, and leave the block before them as it is. -/
theorem Segmented.blank_append {n : Nat} {before : Option Block} {gap ls : List String}
    {bs : List Block} (hgap : AllBlank gap) (h : Segmented (n + gap.length) none ls bs)
    (hfirst : ∀ l ∈ ls.find? (!Text.isBlankLine ·), ¬ Transient l) :
    Segmented n before (gap ++ ls) bs := by
  have happend : ∀ {gap'}, AllBlank gap' → AllBlank (gap ++ gap') := fun hgap' =>
    List.forall_mem_append.mpr ⟨hgap, hgap'⟩
  cases h with
  | done hgap' => exact .done (happend hgap')
  | @block _ _ gap' first body rest b bs hgap' hstart hfills _ hrest =>
    have hnone : gap'.find? (!Text.isBlankLine ·) = none :=
      List.find?_eq_none.mpr fun l hl => by simp [hgap' l hl]
    have ht : ¬ Transient first := hfirst first <| by
      rw [List.find?_append, hnone, Option.none_or,
        List.find?_cons_of_pos (by simp [hfills.first_not_blank])]
      rfl
    rw [← List.append_assoc]
    refine .block (happend hgap') ?_ hfills (fun _ _ h => absurd h ht) ?_
    · rw [hstart, List.length_append, Nat.add_assoc]
    · rwa [List.length_append, ← Nat.add_assoc n]

/-- **Lines that start a block fall into the same blocks behind other lines**, if no comment is open
there. -/
theorem Segmented.append {n : Nat} {before : Option Block} {ls ls' : List String}
    {bs bs' : List Block} (h : Segmented n before ls bs)
    (h' : Segmented (n + ls.length) none ls' bs')
    (hclosed : ∀ b ∈ bs.getLast?, b.kind = .multilineComment → b.IsClosedComment)
    (hfirst : ∀ l ∈ ls'.find? (!Text.isBlankLine ·), ¬ Transient l) :
    Segmented n before (ls ++ ls') (bs ++ bs') := by
  induction h with
  | done hgap => exact h'.blank_append hgap hfirst
  | @block n before gap first body rest b bs hgap hstart hfills hstarts hrest ih =>
    have hlast : ∀ c ∈ bs.getLast?, c.kind = .multilineComment → c.IsClosedComment := fun c hc => by
      refine hclosed c ?_
      rw [List.getLast?_cons, Option.mem_def.mp hc]
      rfl
    -- only the last block can be a comment that is not closed
    have hcomment : b.kind = .multilineComment → b.IsClosedComment := fun hk => by
      obtain ⟨hlines, -, hend | hnil⟩ := hfills.comment hk
      · refine ⟨hk, ?_⟩
        rw [hlines, List.getLast?_cons, hend]
        rfl
      · subst hnil
        obtain rfl := hrest.eq_nil
        exact hclosed b rfl hk
    rw [List.append_assoc, List.cons_append, List.append_assoc]
    refine .block hgap hstart (hfills.of_rest fun hk => Or.inl (hcomment hk)) hstarts (ih ?_ hlast)
    convert h' using 1
    simp only [List.length_append, List.length_cons]
    omega

/-- **The blocks of two texts, one below the other, are the blocks of the first and then those of
the second**, if a comment at the end of the first is closed and the second does not go on with a
block of the first. -/
theorem blocksOf_append_line (a b : String)
    (hclosed : ∀ c ∈ (blocksOf a).getLast?, c.kind = .multilineComment →
      c.lines.getLast? = some commentClose)
    (hfirst : ∀ l ∈ (linesOf b).find? (!Text.isBlankLine ·), ¬ Transient l) :
    blocksOf (a ++ "\n" ++ b)
      = blocksOf a ++ (blocksOf b).map (·.movedBy (linesOf a).length) := by
  have ha : Segmented 0 none (linesOf a) (blocksOf a) := segmented_iff.mpr rfl
  have hb : Segmented 0 none (linesOf b) (blocksOf b) := segmented_iff.mpr rfl
  have hjoined := ha.append (hb.movedBy (linesOf a).length rfl)
    (fun c hc hk => ⟨hk, hclosed c hc hk⟩) hfirst
  rw [← linesOf_append_line] at hjoined
  exact (segmented_iff.mp hjoined).symm

theorem blocksOf_append_line_note :
    blocksOf ("\x7b-\nnote\n-\x7d\n" ++ "\n" ++ "\nx: number\nx = 1")
      = [⟨.multilineComment, 0, ["\x7b-", "note", "-\x7d"]⟩,
        ⟨.const, 5, ["x: number", "x = 1"]⟩] := by
  have hclosed : ∀ c ∈ (blocksOf "\x7b-\nnote\n-\x7d\n").getLast?, c.kind = .multilineComment →
      c.lines.getLast? = some commentClose := by decide +kernel
  have hline : (linesOf "\nx: number\nx = 1").find? (!Text.isBlankLine ·) = some "x: number" := by
    decide +kernel
  have hfirst : ¬ Transient "x: number" := by rw [Transient]; decide +kernel
  rw [blocksOf_append_line _ _ hclosed (by simpa [hline] using hfirst)]
  decide +kernel

/-! ## Blocks put together again -/

theorem squeeze_subset (ls : List String) : squeeze ls ⊆ ls := by
  induction ls with
  | nil => exact List.Subset.refl _
  | cons l ls ih =>
    rw [squeeze]
    split
    · exact List.Subset.trans ih (List.subset_cons_self _ _)
    · exact List.cons_subset_cons _ ih

theorem head?_squeeze (ls : List String) :
    (squeeze ls).head?.any Text.isBlankLine = ls.head?.any Text.isBlankLine := by
  induction ls with
  | nil => rfl
  | cons l ls ih =>
    rw [squeeze]
    split
    next h =>
      rw [Bool.and_eq_true] at h
      rw [ih, h.2, List.head?_cons, Option.any_some, h.1]
    next => rfl

/-- Of each run of blank lines there is one left, and that one stays. -/
theorem squeeze_squeeze (ls : List String) : squeeze (squeeze ls) = squeeze ls := by
  induction ls with
  | nil => rfl
  | cons l ls ih =>
    rw [squeeze]
    split
    next => exact ih
    next h => rw [squeeze, head?_squeeze, if_neg h, ih]

namespace Block

theorem Fills.lines_subset {b : Block} {first : String} {body rest : List String}
    (h : b.Fills first body rest) : b.lines ⊆ first :: body := by
  by_cases hk : b.kind = .multilineComment
  · rw [(h.comment hk).1]
    exact List.Subset.refl _
  · rw [(h.other hk).1]
    exact squeeze_subset _

/-- A block's own lines are the lines of this block. -/
theorem Fills.lines_eq {b : Block} {first : String} {body rest : List String}
    (h : b.Fills first body rest) (rest' : List String)
    (hrest : b.kind = .multilineComment → b.IsClosedComment ∨ rest' = []) :
    ∃ body', b.lines = first :: body' ∧ b.Fills first body' rest' := by
  by_cases hk : b.kind = .multilineComment
  · exact ⟨body, (h.comment hk).1, h.of_rest hrest⟩
  · obtain ⟨hlines, hlast, hbody⟩ := h.other hk
    have hsqueeze := squeeze_cons_of_not_blank h.first_not_blank body
    refine ⟨squeeze body, hlines.trans hsqueeze, h.first_not_blank, h.kind_of_starts,
      h.kind_of_transient, fun hc => absurd hc hk, fun _ => ⟨?_, hlast, ?_⟩⟩
    · rw [← hsqueeze, squeeze_squeeze, hlines]
    · exact fun l hl => hbody l (squeeze_subset body hl)

end Block

theorem Segmented.lines_subset {n : Nat} {before : Option Block} {ls : List String}
    {bs : List Block} (h : Segmented n before ls bs) : ∀ b ∈ bs, b.lines ≠ [] ∧ b.lines ⊆ ls := by
  induction h with
  | done => simp
  | @block n before gap first body rest b bs _ _ hfills _ _ ih =>
    obtain ⟨body', hlines, -⟩ := hfills.lines_eq [] fun _ => Or.inr rfl
    refine List.forall_mem_cons.mpr ⟨⟨hlines ▸ List.cons_ne_nil _ _, fun l hl => ?_⟩,
      fun c hc => ⟨(ih c hc).1, fun l hl => ?_⟩⟩
    · have hl := hfills.lines_subset hl
      grind
    · have hl := (ih c hc).2 hl
      grind

/-- The lines of the blocks, with a blank line between each two. -/
def tidyLines : List Block → List String
  | [] => []
  | b :: bs => b.lines ++ bs.flatMap fun c => "" :: c.lines

/-- The text of the blocks of a text, with a blank line between each two. -/
def tidied (text : String) : String := Text.join "\n\n" ((blocksOf text).map Block.text)

/-- Blocks put together fall into the same blocks again. -/
theorem Segmented.tidyLines {n : Nat} {before : Option Block} {ls : List String} {bs : List Block}
    (h : Segmented n before ls bs) (n' : Nat) {before' : Option Block} {gap' : List String}
    (hbefore : before'.map Block.content = before.map Block.content) (hgap' : AllBlank gap') :
    ∃ bs', Segmented n' before' (gap' ++ Derw.tidyLines bs) bs' ∧
      bs'.map Block.content = bs.map Block.content := by
  induction h generalizing n' before' gap' with
  | done =>
    refine ⟨[], .done ?_, rfl⟩
    rwa [Derw.tidyLines, List.append_nil]
  | @block n before gap first body rest b bs hgap hstart hfills hfirst hrest ih =>
    -- a block after this one is enough for a comment to be closed
    have hclosed : b.kind = .multilineComment →
        b.IsClosedComment ∨ (bs.flatMap fun c => "" :: c.lines) = [] := fun hk => by
      obtain ⟨hlines, -, hend | rfl⟩ := hfills.comment hk
      · refine Or.inl ⟨hk, ?_⟩
        rw [hlines, List.getLast?_cons, hend]
        rfl
      · exact Or.inr (by rw [hrest.eq_nil]; rfl)
    obtain ⟨body', hlines, hfills'⟩ := hfills.lines_eq _ hclosed
    let b' : Block := { b with lineStart := ((n' + gap'.length : Nat) : Int) }
    have hafter : ∃ bs', Segmented (n' + gap'.length + (body'.length + 1)) (some b')
        (bs.flatMap fun c => "" :: c.lines) bs' ∧ bs'.map Block.content = bs.map Block.content := by
      cases bs with
      | nil => exact ⟨[], .done (by simp [AllBlank]), rfl⟩
      | cons c bs =>
        have hblank : AllBlank [""] := by simp [AllBlank, Text.isBlankLine]
        have hb' : (some b').map Block.content = (some b).map Block.content := rfl
        exact ih _ hb' hblank
    obtain ⟨bs', hbs', hcontent⟩ := hafter
    refine ⟨b' :: bs', ?_, by rw [List.map_cons, hcontent]; rfl⟩
    rw [Derw.tidyLines, hlines, List.cons_append]
    refine .block hgap' rfl (hfills'.of_content rfl) (fun p hp ht => ?_) hbs'
    obtain rfl := Option.mem_def.mp hp
    obtain ⟨q, hq, heq⟩ := Option.map_eq_some_iff.mp hbefore.symm
    exact (hfirst q hq ht).of_content heq.symm

/-- A line of a text without carriage returns is a line by itself. -/
theorem linesOf_of_mem {text l : String} (htext : '\r' ∉ text.toList) (hl : l ∈ linesOf text) :
    linesOf l = [l] := by
  have hkept : ∀ {cs : List Char}, '\r' ∉ cs → Text.withoutTail ['\r'] cs = cs := fun hcs => by
    rw [Text.withoutTail, if_neg]
    exact fun hsuffix => hcs (List.isSuffixOf_iff_suffix.mp hsuffix |>.subset (by simp))
  obtain ⟨w, hw, rfl⟩ := List.mem_map.mp hl
  have hreturn : '\r' ∉ w := fun h => htext (Text.mem_splitWhere hw h).1
  rw [linesOf, hkept hreturn, String.toList_ofList,
    Text.splitWhere_of_not fun c hc => (Text.mem_splitWhere hw hc).2, List.map_singleton,
    hkept hreturn]

theorem linesOf_tidied {text : String} (htext : '\r' ∉ text.toList) (hne : blocksOf text ≠ []) :
    linesOf (tidied text) = tidyLines (blocksOf text) := by
  have hlines : ∀ b ∈ blocksOf text, linesOf b.text = b.lines := fun b hb => by
    have h : Segmented 0 none (linesOf text) (blocksOf text) := segmented_iff.mpr rfl
    obtain ⟨hnil, hsub⟩ := h.lines_subset b hb
    exact linesOf_join hnil fun l hl => linesOf_of_mem htext (hsub hl)
  rw [tidied]
  generalize blocksOf text = bs at hne hlines
  induction bs with
  | nil => exact absurd rfl hne
  | cons b bs ih =>
    obtain ⟨hb, hbs⟩ := List.forall_mem_cons.mp hlines
    cases bs with
    | nil =>
      rw [tidyLines, List.flatMap_nil, List.append_nil]
      exact hb
    | cons c bs =>
      have hsep : b.text ++ "\n\n" = b.text ++ "\n" ++ "" ++ "\n" := by
        simp [String.append_assoc]
      rw [List.map_cons, ← List.singleton_append,
        Text.join_append (List.cons_ne_nil _ _) (by simp), Text.join, hsep, linesOf_append_line,
        linesOf_append_line, hb, linesOf_empty, ih (by simp) hbs]
      simp [tidyLines]

/-- **Putting the blocks of a text together gives the same blocks**, and doing so again changes
nothing. -/
theorem blocksOf_tidied (text : String) (htext : '\r' ∉ text.toList) :
    (blocksOf (tidied text)).map Block.content = (blocksOf text).map Block.content ∧
    tidied (tidied text) = tidied text := by
  have hcontent : (blocksOf (tidied text)).map Block.content
      = (blocksOf text).map Block.content := by
    by_cases hnil : blocksOf text = []
    · rw [tidied, hnil]
      rfl
    · have h : Segmented 0 none (linesOf text) (blocksOf text) := segmented_iff.mpr rfl
      have hblank : AllBlank [] := by simp [AllBlank]
      obtain ⟨bs', hbs', heq⟩ := h.tidyLines 0 rfl hblank
      rw [List.nil_append, ← linesOf_tidied htext hnil] at hbs'
      rw [← segmented_iff.mp hbs', heq]
  have htexts : ∀ bs : List Block,
      bs.map Block.text = (bs.map Block.content).map fun c => Text.join "\n" c.2 := fun bs => by
    rw [List.map_map]
    rfl
  refine ⟨hcontent, ?_⟩
  rw [tidied, htexts, hcontent, ← htexts, ← tidied]

theorem blocksOf_tidied_orphan :
    '\r' ∉ "  a\n\n\n  b\n\x7b-\n\n-\x7d\n = c\n?".toList ∧
    tidied "  a\n\n\n  b\n\x7b-\n\n-\x7d\n = c\n?" = "  a\n\n  b\n\n\x7b-\n\n-\x7d\n\n = c\n\n?" ∧
    (blocksOf (tidied "  a\n\n\n  b\n\x7b-\n\n-\x7d\n = c\n?")).map Block.content
      = [(.unknown, ["  a", "", "  b"]), (.multilineComment, ["\x7b-", "", "-\x7d"]),
        (.unknown, [" = c"]), (.unknown, ["?"])] := by
  have htext : '\r' ∉ "  a\n\n\n  b\n\x7b-\n\n-\x7d\n = c\n?".toList := by decide +kernel
  refine ⟨htext, by decide +kernel, (blocksOf_tidied _ htext).1.trans ?_⟩
  decide +kernel

end Derw

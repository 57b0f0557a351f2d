import Derw.Block.Document
import Derw.Proofs.Yaml.Layout
import Derw.Proofs.Yaml.Numeral
import Derw.Proofs.Yaml.Tree
import Mathlib.Algebra.Group.Int.Defs

/-!
# Proofs/Block/RoundTrip — blocks are read back as they were written

The document of some blocks is followed from its text to its tokens (`at_document`) and from there
to a node and back to the blocks (`reads_documentTokens`). Both go by the same tokens, which know
their lines: a block ends on the line where the next one starts, and the last one with the text.
-/

namespace Derw

namespace Block

open Yaml Yaml.Scanner Yaml.Reader

/-! ## Tokens of a block -/

/-- The tokens of the lines, one entry a line of the document. -/
def lineTokens : Nat → List String → List Token
  | _, [] => []
  | l, s :: ss => ⟨l, .entry⟩ :: ⟨l, .scalar (scalarStyle s) s⟩ :: lineTokens (l + 1) ss

/-- The tokens behind the last key, which is on line `l`. The next block, or the end of the text, is
on line `e`. -/
def linesTokens (l e : Nat) (ss : List String) : List Token :=
  if ss.isEmpty then [⟨l, .sequenceOpen⟩, ⟨l, .sequenceClose⟩]
  else ⟨l + 1, .blockSequence⟩ :: (lineTokens (l + 1) ss ++ [⟨e, .blockEnd⟩])

def tokens (l e : Nat) (b : Block) : List Token :=
  ⟨l, .blockMapping⟩ ::
    ⟨l, .key⟩ :: ⟨l, .scalar .bare "kind"⟩ :: ⟨l, .value⟩ :: ⟨l, .scalar .bare b.kind.name⟩ ::
    ⟨l + 1, .key⟩ :: ⟨l + 1, .scalar .bare "lineStart"⟩ :: ⟨l + 1, .value⟩ ::
      ⟨l + 1, .scalar .bare (toString b.lineStart)⟩ ::
    ⟨l + 2, .key⟩ :: ⟨l + 2, .scalar .bare "lines"⟩ :: ⟨l + 2, .value⟩ ::
      (linesTokens (l + 2) e b.lines ++ [⟨e, .blockEnd⟩])

/-- The number of lines in the document. -/
def height (b : Block) : Nat := b.lines.length + 3

/-- The tokens of the blocks from line `l` on, up to the end of the sequence. -/
def itemTokens (last : Nat) : Nat → List Block → List Token
  | _, [] => [⟨last, .blockEnd⟩]
  | l, b :: bs =>
    ⟨l, .entry⟩ :: (b.tokens l (if bs.isEmpty then last else l + b.height) ++
      itemTokens last (l + b.height) bs)

/-! ## From text to tokens -/

/-- The text of the lines. -/
def lineTexts (ss : List String) : List Char :=
  ss.flatMap fun s =>
    List.replicate 4 ' ' ++ '-' :: ' ' :: ((scalarText lineMargin s).toList ++ ['\n'])

theorem lineTexts_cons (s : String) (ss : List String) (rest : List Char) :
    lineTexts (s :: ss) ++ rest = List.replicate 4 ' ' ++ ('-' :: ' ' ::
      ((scalarText lineMargin s).toList ++ '\n' :: (lineTexts ss ++ rest))) := by
  simp [lineTexts]

def linesText (ss : List String) : List Char :=
  if ss.isEmpty then [' ', '[', ']', '\n'] else '\n' :: lineTexts ss

theorem toList_linesText (ss : List String) :
    (if ss.isEmpty then " []\n" else "\n" ++ String.join (ss.map fun l =>
      "    - " ++ scalarText lineMargin l ++ "\n")).toList = linesText ss := by
  rw [linesText]
  split
  next => rfl
  next =>
    have hlines : (String.join (ss.map fun l => "    - " ++ scalarText lineMargin l ++ "\n")).toList
        = lineTexts ss := by
      rw [String.toList_join, List.flatMap_map, lineTexts]
      congr 1
      funext s
      simp only [String.toList_append, List.append_assoc]
      rfl
    rw [String.toList_append, hlines]
    rfl

/-- The text of a block behind its dash, and what comes behind it. -/
def bodyText (b : Block) (rest : List Char) : List Char :=
  ' ' :: ("kind".toList ++ ':' :: ' ' :: (b.kind.name.toList ++ '\n' :: (List.replicate 2 ' ' ++
    ("lineStart".toList ++ ':' :: ' ' :: (numeral b.lineStart ++ '\n' :: (List.replicate 2 ' ' ++
      ("lines".toList ++ ':' :: (linesText b.lines ++ rest))))))))

theorem toList_entryText (b : Block) (rest : List Char) :
    b.entryText.toList ++ rest = '-' :: b.bodyText rest := by
  rw [entryText, String.toList_append, toList_linesText]
  simp only [String.toList_append, toList_toString, List.append_assoc]
  rfl

/-- What comes behind a block: the next one on line `l`, or the end of the text. -/
def Follows (last l e : Nat) (rest : List Char) : Prop :=
  (rest = [] ∧ e = last) ∨ (e = l ∧ ∃ ds, rest = '-' :: ds)

variable {last l e : Nat} {ts toks : List Token} {rest : List Char}

theorem Follows.next (h : Follows last l e rest) :
    ∀ d ∈ rest.head?, isSpaceOrTab d = false ∧ staysOnLine d := by
  rintro d hd
  obtain ⟨rfl, -⟩ | ⟨-, ds, rfl⟩ := h
  · cases hd
  · cases hd
    decide

/-- What comes behind a block ends all that is deeper. -/
theorem Follows.close {k m : Nat} {ms : List Nat} (h : Follows last l e rest) (hk : 1 < k)
    (hs : At last ts true (toks ++ [⟨e, .blockEnd⟩]) (m :: ms) l 0 rest) :
    At last ts true toks (k :: m :: ms) l 0 rest := by
  obtain ⟨rfl, rfl⟩ | ⟨rfl, ds, rfl⟩ := h
  · exact .close_end (Nat.zero_lt_of_lt hk) hs
  · exact .close (by decide) hk hs

theorem add_length_cons (l : Nat) (s : String) (ss : List String) :
    l + (s :: ss).length = l + 1 + ss.length := by
  rw [List.length_cons]
  omega

/-- The lines, from behind the dash of the first one. -/
theorem at_lines {s : String} {ss : List String}
    (hlines : ∀ t ∈ s :: ss, ∀ d ∈ t.toList, staysOnLine d)
    (hrest : Follows last (l + 1 + ss.length) e rest)
    (hs : At last ts true (toks ++ ⟨l, .scalar (scalarStyle s) s⟩ :: lineTokens (l + 1) ss)
      [5, 3, 1, 0] (l + 1 + ss.length) 0 rest) :
    At last ts true toks [5, 3, 1, 0] l 5
      (' ' :: ((scalarText lineMargin s).toList ++ '\n' :: (lineTexts ss ++ rest))) := by
  have hline := hlines s (List.mem_cons_self ..)
  induction ss generalizing s l toks with
  | nil =>
    exact .blank (.scalar (k := 0) hline (by decide) (by decide) (by decide) hrest.next _ hs)
  | cons t ss ih =>
    have hlines' : ∀ u ∈ t :: ss, ∀ d ∈ u.toList, staysOnLine d := fun u hu =>
      hlines u (List.mem_cons_of_mem _ hu)
    rw [add_length_cons] at hrest hs
    rw [lineTexts_cons]
    refine .blank (.scalar (k := 4) hline (by decide) (by decide) (by decide) ?_ _ (.entry ?_))
    · rintro d ⟨⟩
      decide
    · refine ih hlines' hrest ?_ (hlines' t (List.mem_cons_self ..))
      rw [lineTokens, List.append_cons, List.append_cons] at hs
      exact hs

theorem bare_name (k : BlockKind) : Bare k.name.toList := by
  cases k <;> decide

/-- What the last key is followed by. -/
theorem at_linesText {ss : List String} (hlines : ∀ s ∈ ss, ∀ d ∈ s.toList, staysOnLine d)
    (hrest : Follows last (l + 1 + ss.length) e rest)
    (hs : At last ts true (toks ++ linesTokens l e ss ++ [⟨e, .blockEnd⟩]) [1, 0]
      (l + 1 + ss.length) 0 rest) :
    At last ts false toks [3, 1, 0] l 8 (linesText ss ++ rest) := by
  cases ss with
  | nil => exact .blank (.emptySequence (by decide) (hrest.close (by decide) hs))
  | cons s ss =>
    rw [add_length_cons] at hrest hs
    rw [linesText, List.isEmpty_cons, if_neg Bool.false_ne_true, List.cons_append, lineTexts_cons]
    refine .newline _ _ (.blanks (.firstEntry (by decide) (at_lines hlines hrest ?_)))
    refine hrest.close (by decide) (hrest.close (by decide) ?_)
    simpa [linesTokens, lineTokens] using hs

theorem atGap_linesText (ss : List String) (l c : Nat) (rest : List Char) (i : Nat) :
    atGap (place l c i (linesText ss ++ rest)) = true := by
  cases ss <;> rfl

/-- No line of the block holds a line break. -/
def Unbroken (b : Block) : Prop := ∀ s ∈ b.lines, ∀ d ∈ s.toList, staysOnLine d

/-- A block, from behind its dash. -/
theorem at_block {b : Block} (hlines : b.Unbroken) (hrest : Follows last (l + b.height) e rest)
    (hs : At last ts true (toks ++ b.tokens l e) [1, 0] (l + b.height) 0 rest) :
    At last ts true toks [1, 0] l 1 (b.bodyText rest) := by
  have hkind : Bare "kind".toList := by decide
  have hstart : Bare "lineStart".toList := by decide
  have hkey : Bare "lines".toList := by decide
  have hnext : ∀ ds, ∀ d ∈ ('l' :: ds).head?, isSpaceOrTab d = false ∧ staysOnLine d := by
    rintro ds d ⟨⟩
    decide
  have hheight : l + b.height = l + 1 + 1 + 1 + b.lines.length := by
    rw [height]
    omega
  rw [hheight] at hrest hs
  refine .blank (.firstKey hkind (by decide) (by decide) (fun _ => rfl) (by decide) ?_)
  refine .blank (.bare (bare_name b.kind) (by decide) (by decide) (by decide) (hnext _) ?_)
  refine .key hstart (by decide) (by decide) (fun _ => rfl) ?_
  refine .blank (.bare (bare_numeral b.lineStart) (by decide) (by decide) (by decide) (hnext _) ?_)
  refine .key hkey (by decide) (by decide) (atGap_linesText b.lines _ _ rest) ?_
  refine at_linesText hlines hrest ?_
  rw [← toList_toString, String.ofList_toList, String.ofList_toList, String.ofList_toList,
    String.ofList_toList]
  simpa [tokens] using hs

/-! ## The document -/

/-- The text of the blocks. -/
def itemTexts (bs : List Block) : List Char := bs.flatMap (·.entryText.toList)

theorem itemTexts_cons (b : Block) (bs : List Block) :
    itemTexts (b :: bs) = '-' :: b.bodyText (itemTexts bs) :=
  toList_entryText b (itemTexts bs)

theorem toList_blocksDocument (bs : List Block) :
    (blocksDocument bs).toList = if bs.isEmpty then ['[', ']', '\n'] else itemTexts bs := by
  rw [blocksDocument]
  split
  next => rfl
  next => rw [String.toList_join, List.flatMap_map, itemTexts]

/-- The blocks, from behind the dash of the first one. -/
theorem at_items (toks : List Token) {b : Block} {bs : List Block}
    (hlines : ∀ a ∈ b :: bs, a.Unbroken) :
    At last (toks ++ itemTokens last l (b :: bs) ++ [⟨last, .textEnd⟩]) true (toks ++ [⟨l, .entry⟩])
      [1, 0] l 1 (b.bodyText (itemTexts bs)) := by
  have hb := hlines b (List.mem_cons_self ..)
  induction bs generalizing b l toks with
  | nil =>
    have htokens : toks ++ itemTokens last l [b]
        = toks ++ [⟨l, .entry⟩] ++ b.tokens l last ++ [⟨last, .blockEnd⟩] := by
      simp [itemTokens]
    rw [htokens]
    exact at_block hb (.inl ⟨rfl, rfl⟩) (.close_end (by decide) .done)
  | cons a bs ih =>
    have hrest : ∀ b ∈ a :: bs, b.Unbroken := fun b hb => hlines b (List.mem_cons_of_mem _ hb)
    have htokens : toks ++ itemTokens last l (b :: a :: bs) = toks ++ [⟨l, .entry⟩]
        ++ b.tokens l (l + b.height) ++ itemTokens last (l + b.height) (a :: bs) := by
      simp [itemTokens]
    rw [itemTexts_cons, htokens]
    exact at_block hb (.inr ⟨rfl, _, rfl⟩) (.entry (ih _ hrest (hrest a (List.mem_cons_self ..))))

/-- The tokens of the document, up to the end of the text. -/
def documentTokens (last : Nat) (bs : List Block) : List Token :=
  if bs.isEmpty then [⟨0, .sequenceOpen⟩, ⟨0, .sequenceClose⟩]
  else ⟨0, .blockSequence⟩ :: itemTokens last 0 bs

theorem at_document {bs : List Block} (hlines : ∀ b ∈ bs, b.Unbroken) :
    At last (documentTokens last bs ++ [⟨last, .textEnd⟩]) true [] [0] 0 0
      (blocksDocument bs).toList := by
  rw [toList_blocksDocument]
  cases bs with
  | nil => exact .emptySequence (Nat.le_refl 0) .done
  | cons b bs =>
    rw [List.isEmpty_cons, if_neg Bool.false_ne_true, itemTexts_cons]
    exact .firstEntry (Nat.le_refl 0) (at_items [⟨0, .blockSequence⟩] hlines)

theorem all_isAdmitted_entryText (b : Block) : b.entryText.toList.all isAdmitted := by
  have hname : b.kind.name.toList.all isAdmitted := by
    cases b.kind <;> decide
  have hstart : (numeral b.lineStart).all isAdmitted :=
    List.all_eq_true.2 fun d hd => isAdmitted_of_isVisible (harmless hd).1
  have hmarks : isAdmitted ' ' ∧ isAdmitted '-' ∧ isAdmitted '\n' := by decide
  have hlines : (linesText b.lines).all isAdmitted := by
    rw [linesText]
    split
    next => decide
    next => simp [lineTexts, hmarks, all_isAdmitted_scalarText]
  rw [entryText, String.toList_append, toList_linesText]
  simp only [String.toList_append, toList_toString, List.all_append, hname, hstart, hlines]
  decide

theorem glyphs_blocksDocument (bs : List Block) :
    glyphs (blocksDocument bs) = some (place 0 0 0 (blocksDocument bs).toList) := by
  cases bs with
  | nil => rfl
  | cons b bs =>
    have htext : (blocksDocument (b :: bs)).toList = itemTexts (b :: bs) := toList_blocksDocument _
    refine glyphs_eq ?_ ?_
    · rw [htext]
      exact List.all_flatMap.trans (List.all_eq_true.2 fun b _ => all_isAdmitted_entryText b)
    · rw [htext, itemTexts_cons, List.head?_cons]
      decide

/-- **The tokens of the document of some blocks.** -/
theorem readDocument_blocksDocument {bs : List Block} (hlines : ∀ b ∈ bs, b.Unbroken) :
    ∃ last, readDocument (blocksDocument bs)
      = firstDocument (documentTokens last bs ++ [⟨last, .textEnd⟩]) := by
  refine ⟨endLine (place 0 0 0 (blocksDocument bs).toList), ?_⟩
  rw [readDocument, glyphs_blocksDocument, Option.bind_eq_bind, Option.bind_some,
    (at_document hlines).scan_eq]

/-! ## From tokens to blocks -/

theorem reads_lineTokens (l e : Nat) (ss : List String) :
    ∃ ns, ReadsItems (lineTokens l ss ++ [⟨e, .blockEnd⟩]) ns ∧
      ns.mapM Node.text? = some (ss.map some) := by
  induction ss generalizing l with
  | nil => exact ⟨[], .done e, rfl⟩
  | cons s ss ih =>
    obtain ⟨ns, hreads, htexts⟩ := ih (l + 1)
    have htext := Node.text?_scalar (l + 1) fun h => (bare_of_scalarStyle (s := s) h).2
    have hitems := ReadsItems.entry l (reads_scalar l (scalarStyle s) s) hreads
    refine ⟨_, hitems, ?_⟩
    rw [List.mapM_cons, htext, htexts]
    rfl

theorem reads_linesTokens (l e : Nat) (ss : List String) :
    ∃ n, Reads (linesTokens l e ss) n ∧ n.list? Node.text? = some (some ss) := by
  rw [linesTokens]
  split
  next hempty =>
    obtain rfl := List.isEmpty_iff.1 hempty
    exact ⟨_, reads_emptySequence l l, rfl⟩
  next =>
    obtain ⟨ns, hreads, htexts⟩ := reads_lineTokens (l + 1) e ss
    exact ⟨_, hreads.reads (l + 1), Node.list?_sequence _ htexts⟩

theorem fields?_mapping (l₁ l₂ l₃ l₄ : Nat) (kind start lines : Node) :
    (Node.mapping l₁ [.mk (.scalar l₂ .bare none "kind") kind,
      .mk (.scalar l₃ .bare none "lineStart") start,
      .mk (.scalar l₄ .bare none "lines") lines]).fields?
      = some (some [("kind", kind), ("lineStart", start), ("lines", lines)]) :=
  rfl

theorem ofNode?_mapping (l₁ l₂ l₃ l₄ : Nat) {kind start lines : Node} {b : Block}
    (hkind : kind.text? = some (some b.kind.name)) (hstart : start.int? = some (some b.lineStart))
    (hlines : lines.list? Node.text? = some (some b.lines)) :
    ofNode? (.mapping l₁ [.mk (.scalar l₂ .bare none "kind") kind,
      .mk (.scalar l₃ .bare none "lineStart") start, .mk (.scalar l₄ .bare none "lines") lines])
      = some (some b) := by
  rw [ofNode?, fields?_mapping]
  simp [Node.field?, List.lookup_cons, hkind, hstart, hlines]

theorem meaning_name (k : BlockKind) : meaning true k.name = .text := by cases k <;> decide

theorem reads_tokens (l e : Nat) {b : Block} (hlow : Text.minInt ≤ b.lineStart)
    (hhigh : b.lineStart ≤ Text.maxInt) :
    ∃ n, Reads (b.tokens l e) n ∧ ofNode? n = some (some b) := by
  obtain ⟨n, hreads, hlines⟩ := reads_linesTokens (l + 2) e b.lines
  have hkind : (Node.scalar (l + 1) .bare none b.kind.name).text? = some (some b.kind.name) :=
    Node.text?_scalar (l + 1) fun _ => meaning_name b.kind
  have hstart := Node.int?_scalar (l + 1 + 1) hlow hhigh
  have hentries := ReadsEntries.pair l l (reads_scalar l .bare "kind")
    (reads_scalar l .bare b.kind.name) <|
    .pair (l + 1) (l + 1) (reads_scalar (l + 1) .bare "lineStart")
      (reads_scalar (l + 1) .bare (toString b.lineStart)) <|
    .pair (l + 2) (l + 2) (reads_scalar (l + 2) .bare "lines") hreads (.done e)
  exact ⟨_, hentries.reads l, ofNode?_mapping _ _ _ _ hkind hstart hlines⟩

theorem reads_itemTokens (last l : Nat) {bs : List Block}
    (hstart : ∀ b ∈ bs, Text.minInt ≤ b.lineStart ∧ b.lineStart ≤ Text.maxInt) :
    ∃ ns, ReadsItems (itemTokens last l bs) ns ∧ ns.mapM ofNode? = some (bs.map some) := by
  induction bs generalizing l with
  | nil => exact ⟨[], .done last, rfl⟩
  | cons b bs ih =>
    obtain ⟨hlow, hhigh⟩ := hstart b (List.mem_cons_self ..)
    obtain ⟨n, hreads, hblock⟩ :=
      reads_tokens l (if bs.isEmpty then last else l + b.height) hlow hhigh
    obtain ⟨ns, hrest, hblocks⟩ :=
      ih (l + b.height) fun a ha => hstart a (List.mem_cons_of_mem _ ha)
    refine ⟨n :: ns, .entry l hreads hrest, ?_⟩
    rw [List.mapM_cons, hblock, hblocks]
    rfl

theorem reads_documentTokens (last : Nat) {bs : List Block}
    (hstart : ∀ b ∈ bs, Text.minInt ≤ b.lineStart ∧ b.lineStart ≤ Text.maxInt) :
    ∃ n, Reads (documentTokens last bs) n ∧ n.list? ofNode? = some (some bs) := by
  rw [documentTokens]
  split
  next hempty =>
    obtain rfl := List.isEmpty_iff.1 hempty
    exact ⟨_, reads_emptySequence 0 0, rfl⟩
  next =>
    obtain ⟨ns, hreads, hblocks⟩ := reads_itemTokens last 0 hstart
    exact ⟨_, hreads.reads 0, Node.list?_sequence _ hblocks⟩

end Block

/-- **Blocks are read back from their document**: kinds, first lines and lines, in their order. The
first lines are signed words, and no line holds a line break. -/
theorem readBlocks_blocksDocument (blocks : List Block)
    (hstart : ∀ b ∈ blocks, -2 ^ 63 ≤ b.lineStart ∧ b.lineStart < 2 ^ 63)
    (hlines : ∀ b ∈ blocks, ∀ s ∈ b.lines, ∀ c ∈ s.toList,
      c.toNat ∉ [0x0A, 0x0D, 0x85, 0x2028, 0x2029]) :
    readBlocks (blocksDocument blocks) = some blocks := by
  have hrange : ∀ b ∈ blocks, Text.minInt ≤ b.lineStart ∧ b.lineStart ≤ Text.maxInt := by
    intro b hb
    have hb := hstart b hb
    simp only [Text.minInt, Text.maxInt]
    omega
  obtain ⟨last, hread⟩ := Block.readDocument_blocksDocument fun b hb s hs c hc =>
    Yaml.staysOnLine_of_not_mem (hlines b hb s hs c hc)
  obtain ⟨n, hreads, hblocks⟩ := Block.reads_documentTokens last hrange
  rw [readBlocks, hread, hreads.firstDocument_eq]
  simp [hblocks]

/-- Lines in each style, most of which look like something else than text. -/
theorem readBlocks_blocksDocument_styles :
    readBlocks ("- kind: Function\n  lineStart: -9223372036854775808\n  lines:\n"
        ++ "    - '- x'\n    - 'a: b'\n    - '''#'''\n    - '---'\n    - f x =\n"
        ++ "    - \"\\U0001F389\\t12\"\n"
        ++ "- kind: Comment\n  lineStart: 9223372036854775807\n  lines:\n"
        ++ "    - \"\"\n    - \"true\"\n    - \"0x1F\"\n    - \"1:20\"\n    - \"2024-01-02\"\n"
        ++ "- kind: Unknown\n  lineStart: 0\n  lines: []\n")
      = some
        [⟨.function, -2 ^ 63, ["- x", "a: b", "'#'", "---", "f x =", "🎉\t12"]⟩,
        ⟨.comment, 2 ^ 63 - 1, ["", "true", "0x1F", "1:20", "2024-01-02"]⟩, ⟨.unknown, 0, []⟩] := by
  refine Eq.trans (congrArg readBlocks ?_) (readBlocks_blocksDocument _ ?_ ?_)
  · decide +kernel
  · decide
  · simp

end Derw

import Derw.Block.Segment
import Mathlib.Data.List.DropRight

/-!
# Proofs/Block/Segmentation — the one way lines fall into blocks

`Segmented` says what the blocks of some lines are without running over them: blank lines, the lines
of a block, and so on with the lines after it. What the lines of one block may be, and what becomes
of them, is `Block.Fills`. A multiline comment reaches to the line that closes it. Any other block
takes in lines that belong to the block before them, and no block may start with such a line while
there is a block for it to belong to, so that it cannot stop early either.

Two theorems make this the meaning of `blocksOf`. `exists_segmented`: lines always fall into blocks.
`Segmented.flush_steps`: whatever blocks they fall into, the run closes just these, by induction on
how they fall. What has to hold between two blocks is that the run can take a first line there
(`Segments.Ready`).
-/

namespace Derw

/-! ## Lines -/

/-- Lines with nothing on them. -/
def AllBlank (ls : List String) : Prop := ∀ l ∈ ls, Text.isBlankLine l = true

/-- A line that belongs to the block before it. -/
def Transient (line : String) : Prop :=
  classify line = some .indent ∨ classify line = some .definition

theorem continues_classify {line : String} :
    Segments.continues (classify line) = true ↔ Transient line := by
  rw [Transient]
  rcases classify line with _ | k
  · simp [Segments.continues]
  · cases k <;> simp [Segments.continues, LineKind.continues]

theorem kindOf_of_starts {line : String} {k : BlockKind}
    (h : classify line = some (.starts k)) : Segments.kindOf (classify line) = k := by
  rw [h]
  rfl

theorem kindOf_of_transient {line : String} (h : classify line = none ∨ Transient line) :
    Segments.kindOf (classify line) = .unknown := by
  rcases h with h | h | h <;> rw [h] <;> rfl

/-- The lines without a blank line that another one follows: of each run of blank lines the last one
is left. -/
def squeeze : List String → List String
  | [] => []
  | l :: ls =>
    if Text.isBlankLine l && ls.head?.any Text.isBlankLine then squeeze ls else l :: squeeze ls

theorem squeeze_cons_of_not_blank {l : String} (h : Text.isBlankLine l = false) (ls : List String) :
    squeeze (l :: ls) = l :: squeeze ls := by
  simp [squeeze, h]

theorem getLast?_squeeze (ls : List String) : (squeeze ls).getLast? = ls.getLast? := by
  induction ls with
  | nil => rfl
  | cons l ls ih =>
    rw [squeeze]
    split
    next h =>
      cases ls with
      | nil => simp at h
      | cons l' ls => rw [ih, List.getLast?_cons_cons]
    next => rw [List.getLast?_cons, List.getLast?_cons, ih]

/-- Only blank lines are lost. -/
theorem filter_squeeze (ls : List String) :
    (squeeze ls).filter (!Text.isBlankLine ·) = ls.filter (!Text.isBlankLine ·) := by
  induction ls with
  | nil => rfl
  | cons l ls ih =>
    rw [squeeze]
    split
    next h => simp_all
    next => simp [List.filter_cons, ih]

/-! ## Segmentations -/

namespace Block

/-- A multiline comment that its last line closes. -/
def IsClosedComment (b : Block) : Prop :=
  b.kind = .multilineComment ∧ b.lines.getLast? = some commentClose

/-- The block of the lines `first :: body`, where `rest` comes after. -/
structure Fills (b : Block) (first : String) (body rest : List String) : Prop where
  first_not_blank : Text.isBlankLine first = false
  kind_of_starts : ∀ k, classify first = some (.starts k) → b.kind = k
  /-- A line that is not recognised, or that belongs to the block before it, tells no kind. -/
  kind_of_transient : classify first = none ∨ Transient first → b.kind = .unknown
  /-- A multiline comment has all its lines, and ends at the first line that closes it, or with the
  text. -/
  comment : b.kind = .multilineComment → b.lines = first :: body ∧
    commentClose ∉ body.dropLast ∧ (body.getLast? = some commentClose ∨ rest = [])
  /-- Any other block loses blank lines before blank ones and ends in a line that is not blank. All
  its lines after the first, if they are not blank, belong to the block before them. -/
  other : b.kind ≠ .multilineComment → b.lines = squeeze (first :: body) ∧
    (∀ l ∈ b.lines.getLast?, Text.isBlankLine l = false) ∧
    ∀ l ∈ body, Text.isBlankLine l = false → Transient l

theorem Fills.kind_eq {b : Block} {first : String} {body rest : List String}
    (h : b.Fills first body rest) : b.kind = Segments.kindOf (classify first) := by
  rcases hc : classify first with _ | k
  · exact h.kind_of_transient (Or.inl hc)
  · cases k with
    | starts k => exact h.kind_of_starts k hc
    | indent => exact h.kind_of_transient (Or.inr (Or.inl hc))
    | definition => exact h.kind_of_transient (Or.inr (Or.inr hc))

end Block

/-- The lines from number `n` on, after the block `before`, fall into these blocks. -/
inductive Segmented : Nat → Option Block → List String → List Block → Prop
  /-- Blank lines are no block. -/
  | done {n before gap} : AllBlank gap → Segmented n before gap []
  /-- A block after blank lines. Its first line belongs to the block before it only where it cannot:
  at the start of the text, or after a comment that is closed. -/
  | block {n before gap first body rest b bs} :
    AllBlank gap →
    b.lineStart = ((n + gap.length : Nat) : Int) →
    b.Fills first body rest →
    (∀ p ∈ before, Transient first → p.IsClosedComment) →
    Segmented (n + gap.length + (body.length + 1)) (some b) rest bs →
    Segmented n before (gap ++ first :: (body ++ rest)) (b :: bs)

/-! ## The run -/

namespace Segments

variable {s : Segments} {n : Nat}

theorem steps_append (s : Segments) (n : Nat) (xs ys : List String) :
    s.steps n (xs ++ ys) = (s.steps n xs).steps (n + xs.length) ys := by
  induction xs generalizing s n with
  | nil => rfl
  | cons x xs ih =>
    rw [List.cons_append, steps, steps, ih, List.length_cons, Nat.add_assoc, Nat.add_comm 1]

/-- A block may start at the next line: the current block, if there is one, is no multiline comment,
and it is the block before that line. -/
def Ready (s : Segments) (before : Option Block) : Prop :=
  ∀ b, s.current = some b → b.kind ≠ .multilineComment ∧ before = some b

theorem step_blank {before : Option Block} {l : String} (hs : s.Ready before)
    (hl : Text.isBlankLine l = true) : s.step n l = { s with gap := some l } := by
  rw [step]
  cases hc : s.current with
  | none => simp [hl]
  | some b => simp [hl, (hs b hc).1]

/-- Blank lines leave everything as it is. -/
theorem steps_blank {before : Option Block} {ls : List String} (hs : s.Ready before)
    (hls : AllBlank ls) : ∃ gap, s.steps n ls = { s with gap := gap } := by
  induction ls generalizing s n with
  | nil => exact ⟨s.gap, rfl⟩
  | cons l ls ih =>
    have hs' : ({ s with gap := some l } : Segments).Ready before := hs
    obtain ⟨hl, hls⟩ := List.forall_mem_cons.mp hls
    obtain ⟨gap, hgap⟩ := ih (n := n + 1) hs' hls
    exact ⟨gap, by rw [steps, step_blank hs hl, hgap]⟩

/-- A line that is not blank and does not belong to the block before it starts a block. -/
theorem step_first {before : Option Block} {l : String} (hs : s.Ready before)
    (hl : Text.isBlankLine l = false)
    (hstart : ∀ p ∈ before, Transient l → p.IsClosedComment) :
    s.step n l = ⟨s.flush.closed, some ⟨kindOf (classify l), n, [l]⟩, none⟩ := by
  rw [step, flush]
  cases hc : s.current with
  | none => simp [hl]
  | some b =>
    obtain ⟨hk, hb⟩ := hs b hc
    have ht : continues (classify l) = false := by
      rw [← Bool.not_eq_true, continues_classify]
      exact fun ht => hk (hstart b hb ht).1
    simp [hl, hk, ht]

/-- A multiline comment takes the lines that do not close it. -/
theorem steps_comment {b : Block} {gap : Option String} {closed : List Block} {ls : List String}
    (hb : b.kind = .multilineComment) (hls : commentClose ∉ ls) :
    ∃ gap', steps ⟨closed, some b, gap⟩ n ls
      = ⟨closed, some { b with lines := b.lines ++ ls }, gap'⟩ := by
  induction ls generalizing b gap n with
  | nil => exact ⟨gap, by simp [steps]⟩
  | cons l ls ih =>
    rw [List.mem_cons, not_or] at hls
    have hstep : step ⟨closed, some b, gap⟩ n l
        = ⟨closed, some { b with lines := b.lines ++ [l] }, none⟩ := by
      simp [step, hb, Ne.symm hls.1]
    obtain ⟨gap', h⟩ := @ih (n + 1) { b with lines := b.lines ++ [l] } none hb hls.2
    exact ⟨gap', by rw [steps, hstep, h, List.append_assoc, List.singleton_append]⟩

/-- …up to the line that does. -/
theorem step_commentClose {b : Block} {gap : Option String} {closed : List Block}
    (hb : b.kind = .multilineComment) :
    step ⟨closed, some b, gap⟩ n commentClose
      = ⟨closed ++ [{ b with lines := b.lines ++ [commentClose] }], none, none⟩ := by
  simp [step, hb, flush]

/-- Any other block takes the lines that belong to it, with the last blank line before each. -/
theorem steps_body {b : Block} {gap : Option String} {closed : List Block} {ls : List String}
    (hb : b.kind ≠ .multilineComment) (hgap : AllBlank gap.toList)
    (hlast : ∀ l ∈ (gap.toList ++ ls).getLast?, Text.isBlankLine l = false)
    (hls : ∀ l ∈ ls, Text.isBlankLine l = false → Transient l) :
    steps ⟨closed, some b, gap⟩ n ls
      = ⟨closed, some { b with lines := b.lines ++ squeeze (gap.toList ++ ls) }, none⟩ := by
  induction ls generalizing b gap n with
  | nil =>
    cases gap with
    | none => simp [steps, squeeze]
    | some g =>
      have hblank : Text.isBlankLine g = true := hgap g (by simp)
      simp [hblank] at hlast
  | cons l ls ih =>
    obtain ⟨hl, hls⟩ := List.forall_mem_cons.mp hls
    have hlast' : ∀ x ∈ (l :: ls).getLast?, Text.isBlankLine x = false := by
      simpa [List.getLast?_append, List.getLast?_cons] using hlast
    cases hbl : Text.isBlankLine l with
    | true =>
      have hstep : step ⟨closed, some b, gap⟩ n l = ⟨closed, some b, some l⟩ := by
        simp [step, hb, hbl]
      have hsq : squeeze (gap.toList ++ l :: ls) = squeeze (l :: ls) := by
        cases gap with
        | none => rfl
        | some g => simp [squeeze, hbl, hgap g (by simp)]
      have hgap' : AllBlank (some l).toList := by simpa [AllBlank] using hbl
      rw [steps, hstep, ih hb hgap' hlast' hls, hsq]
      rfl
    | false =>
      have hstep : step ⟨closed, some b, gap⟩ n l
          = ⟨closed, some { b with lines := b.lines ++ gap.toList ++ [l] }, none⟩ := by
        simp [step, hb, hbl, continues_classify.mpr (hl hbl)]
      have hsq : squeeze (gap.toList ++ l :: ls) = gap.toList ++ l :: squeeze ls := by
        cases gap with
        | none => exact squeeze_cons_of_not_blank hbl ls
        | some g => simp [squeeze, hbl]
      have hlast'' : ∀ x ∈ (Option.toList none ++ ls).getLast?, Text.isBlankLine x = false := by
        intro x hx
        have hx : ls.getLast? = some x := hx
        exact hlast' x (by rw [List.getLast?_cons, hx]; rfl)
      have hb' : ({ b with lines := b.lines ++ gap.toList ++ [l] } : Block).kind
          ≠ .multilineComment := hb
      rw [steps, hstep, ih hb' (by simp [AllBlank]) hlast'' hls, hsq]
      simp

/-- Once the lines of a block are read, it is closed or it is the current one, and then another
block may start, unless nothing follows. -/
theorem steps_fills {b : Block} {first : String} {body rest : List String} (closed : List Block)
    (h : b.Fills first body rest) (hn : b.lineStart = n) :
    let t := steps ⟨closed, some ⟨kindOf (classify first), n, [first]⟩, none⟩ (n + 1) body
    t.flush.closed = closed ++ [b] ∧ (t.Ready (some b) ∨ rest = []) := by
  have hkind := h.kind_eq
  obtain ⟨kind, start, lines⟩ := b
  obtain ⟨hfirst, -, -, hcomment, hother⟩ := h
  obtain rfl : kind = kindOf (classify first) := hkind
  obtain rfl : start = n := hn
  intro t
  by_cases hk : kindOf (classify first) = .multilineComment
  · obtain ⟨rfl, hinner, hend⟩ := hcomment hk
    -- the lines before the one that closes the comment, or all of them
    have htake : ∀ ls, commentClose ∉ ls → ∃ gap,
        steps ⟨closed, some ⟨kindOf (classify first), n, [first]⟩, none⟩ (n + 1) ls
          = ⟨closed, some ⟨kindOf (classify first), n, first :: ls⟩, gap⟩ :=
      fun ls hls => steps_comment hk hls
    by_cases hclose : body.getLast? = some commentClose
    · obtain ⟨inner, rfl⟩ := List.getLast?_eq_some_iff.mp hclose
      rw [List.dropLast_concat] at hinner
      obtain ⟨gap, hsteps⟩ := htake inner hinner
      have ht : t = ⟨closed ++ [⟨kindOf (classify first), n, first :: (inner ++ [commentClose])⟩],
          none, none⟩ := by
        rw [show t = _ from steps_append .., hsteps]
        exact step_commentClose hk
      rw [ht]
      exact ⟨rfl, Or.inl fun b hb => by cases hb⟩
    · have hbody : commentClose ∉ body := by
        rcases List.eq_nil_or_concat body with rfl | ⟨inner, l, rfl⟩
        · exact List.not_mem_nil
        · rw [List.concat_eq_append] at hinner hclose ⊢
          rw [List.dropLast_concat] at hinner
          rw [List.getLast?_concat, Option.some_inj] at hclose
          simpa [hinner] using Ne.symm hclose
      obtain ⟨gap, hsteps⟩ := htake body hbody
      rw [show t = _ from hsteps]
      exact ⟨rfl, Or.inr (hend.resolve_left hclose)⟩
  · obtain ⟨rfl, hlast, hbody⟩ := hother hk
    have ht : t = ⟨closed, some ⟨kindOf (classify first), n, squeeze (first :: body)⟩, none⟩ := by
      rw [squeeze_cons_of_not_blank hfirst]
      refine steps_body hk (by simp [AllBlank]) ?_ hbody
      intro l hl
      have hl : body.getLast? = some l := hl
      refine hlast l ?_
      rw [getLast?_squeeze, List.getLast?_cons, hl]
      rfl
    rw [ht]
    refine ⟨rfl, Or.inl fun b hb => ?_⟩
    obtain rfl := Option.some.inj hb
    exact ⟨hk, rfl⟩

@[simp] theorem closed_flush_gap (s : Segments) (gap : Option String) :
    ({ s with gap := gap } : Segments).flush.closed = s.flush.closed := by
  rw [flush, flush]
  cases s.current <;> rfl

end Segments

theorem Segmented.eq_nil {n : Nat} {before : Option Block} {bs : List Block}
    (h : Segmented n before [] bs) : bs = [] := by
  generalize hls : ([] : List String) = ls at h
  cases h with
  | done => rfl
  | block => simp at hls

/-- **The run closes just the blocks that the lines fall into.** -/
theorem Segmented.flush_steps {n : Nat} {before : Option Block} {ls : List String}
    {bs : List Block} (h : Segmented n before ls bs) {s : Segments} (hs : s.Ready before) :
    (s.steps n ls).flush.closed = s.flush.closed ++ bs := by
  induction h generalizing s with
  | done hgap =>
    obtain ⟨gap, hsteps⟩ := Segments.steps_blank hs hgap
    rw [hsteps, List.append_nil, Segments.closed_flush_gap]
  | @block n before gap first body rest b bs hgap hstart hfills hfirst hrest ih =>
    obtain ⟨gap', hsteps⟩ := @Segments.steps_blank s n _ _ hs hgap
    have hs' : ({ s with gap := gap' } : Segments).Ready before := hs
    obtain ⟨hclosed, hready⟩ := Segments.steps_fills s.flush.closed hfills hstart
    rw [Segments.steps_append, hsteps, Segments.steps,
      Segments.step_first hs' hfills.first_not_blank hfirst, Segments.closed_flush_gap s gap',
      Segments.steps_append, Nat.add_assoc _ 1, Nat.add_comm 1]
    rcases hready with hready | rfl
    · rw [ih hready, hclosed, List.append_assoc, List.singleton_append]
    · rw [hrest.eq_nil, Segments.steps, hclosed]

/-! ## Every text falls into blocks -/

/-- The lines before the first one of a kind. -/
theorem exists_cut (p : String → Bool) (ls : List String) :
    ∃ run rest, ls = run ++ rest ∧ (∀ l ∈ run, p l = false) ∧ ∀ l ∈ rest.head?, p l = true := by
  refine ⟨ls.takeWhile (!p ·), ls.dropWhile (!p ·), by simp, fun l hl => ?_, fun l hl => ?_⟩
  · simpa using List.mem_takeWhile_imp hl
  · have h := List.head?_dropWhile_not (!p ·) ls
    rw [hl] at h
    simpa using h

/-- A line that is not blank starts a block that the next line, if any, does not belong to. -/
theorem exists_fills (n : Nat) {first : String} (hfirst : Text.isBlankLine first = false)
    (tail : List String) :
    ∃ b body rest, tail = body ++ rest ∧ b.lineStart = ((n : Nat) : Int) ∧
      Block.Fills b first body rest ∧
      ∀ l ∈ rest.find? (!Text.isBlankLine ·), Transient l → b.IsClosedComment := by
  by_cases hk : Segments.kindOf (classify first) = .multilineComment
  · obtain ⟨inner, rest, rfl, hinner, hclose⟩ := exists_cut (· == commentClose) tail
    have hinner : commentClose ∉ inner := fun h => by simpa using hinner _ h
    cases rest with
    | nil =>
      refine ⟨⟨Segments.kindOf (classify first), n, first :: inner⟩, inner, [], rfl, rfl, ⟨hfirst,
        fun _ => kindOf_of_starts, kindOf_of_transient, fun _ => ⟨rfl, ?_, Or.inr rfl⟩,
        fun h => absurd hk h⟩, by simp⟩
      exact fun h => hinner (List.dropLast_subset _ h)
    | cons close rest =>
      obtain rfl : close = commentClose := by simpa using hclose
      refine ⟨⟨Segments.kindOf (classify first), n, first :: (inner ++ [commentClose])⟩,
        inner ++ [commentClose], rest, by simp, rfl, ⟨hfirst, fun _ => kindOf_of_starts,
        kindOf_of_transient, fun _ => ⟨rfl, ?_, Or.inl ?_⟩, fun h => absurd hk h⟩,
        fun l _ _ => ⟨hk, ?_⟩⟩
      · rwa [List.dropLast_concat]
      · exact List.getLast?_concat ..
      · simp [List.getLast?_cons]
  · -- the lines that may belong to the block, and of these all but the blank ones at the end
    obtain ⟨run, rest, rfl, hrun, hrest⟩ :=
      exists_cut (fun l => !Text.isBlankLine l && !Segments.continues (classify l)) tail
    refine ⟨⟨Segments.kindOf (classify first), n,
        squeeze (first :: run.rdropWhile Text.isBlankLine)⟩,
      run.rdropWhile Text.isBlankLine, run.rtakeWhile Text.isBlankLine ++ rest, ?_, rfl,
      ⟨hfirst, fun _ => kindOf_of_starts, kindOf_of_transient, fun h => absurd h hk,
        fun _ => ⟨rfl, ?_, ?_⟩⟩, ?_⟩
    · rw [← List.append_assoc, List.rdropWhile_append_rtakeWhile]
    · intro l hl
      rw [getLast?_squeeze, List.getLast?_cons] at hl
      by_cases hne : run.rdropWhile Text.isBlankLine = []
      · simp_all
      · have h := List.rdropWhile_last_not Text.isBlankLine run hne
        rw [List.getLast?_eq_some_getLast hne] at hl
        simp_all
    · intro l hl hblank
      have h := hrun l ((List.rdropWhile_prefix _ _).subset hl)
      simpa [hblank, continues_classify] using h
    · intro l hl ht
      have hnone : (run.rtakeWhile Text.isBlankLine).find? (!Text.isBlankLine ·) = none := by
        simpa using fun l hl => List.mem_rtakeWhile_imp hl
      rw [List.find?_append, hnone, Option.none_or] at hl
      cases rest with
      | nil => simp at hl
      | cons l' rest =>
        have h : Text.isBlankLine l' = false ∧ ¬ Transient l' := by
          simpa [← continues_classify] using hrest
        rw [List.find?_cons_of_pos (by simpa using h.1)] at hl
        obtain rfl := Option.some.inj hl
        exact absurd ht h.2

/-- **Lines always fall into blocks**, if the first of them that is not blank may start one. -/
theorem exists_segmented (n : Nat) (before : Option Block) (ls : List String)
    (hstart : ∀ l ∈ ls.find? (!Text.isBlankLine ·), ∀ p ∈ before,
      Transient l → p.IsClosedComment) :
    ∃ bs, Segmented n before ls bs := by
  induction hlen : ls.length using Nat.strong_induction_on generalizing n before ls with
  | _ length ih =>
    cases hls : ls.find? (!Text.isBlankLine ·) with
    | none => exact ⟨[], .done (by simpa [AllBlank] using hls)⟩
    | some first =>
      obtain ⟨hfirst, gap, tail, rfl, hgap⟩ := List.find?_eq_some_iff_append.mp hls
      obtain ⟨b, body, rest, rfl, hn, hfills, hnext⟩ :=
        exists_fills (n + gap.length) (by simpa using hfirst) tail
      have hlt : rest.length < length := by
        simp only [List.length_append, List.length_cons] at hlen
        omega
      obtain ⟨bs, hbs⟩ := ih _ hlt (n + gap.length + (body.length + 1)) (some b) rest
        (fun l hl p hp => by obtain rfl := Option.some.inj hp; exact hnext l hl) rfl
      exact ⟨b :: bs, .block (by simpa [AllBlank] using hgap) hn hfills (hstart first hls) hbs⟩

/-- **The blocks of a text are the ones that its lines fall into.** -/
theorem segmented_iff {text : String} {bs : List Block} :
    Segmented 0 none (linesOf text) bs ↔ bs = blocksOf text := by
  have hready : Segments.Ready {} none := fun b hb => by cases hb
  have hrun : ∀ {bs}, Segmented 0 none (linesOf text) bs → bs = blocksOf text := fun h => by
    simpa [blocksOf, Segments.flush] using (h.flush_steps hready).symm
  refine ⟨hrun, ?_⟩
  rintro rfl
  obtain ⟨bs, h⟩ := exists_segmented 0 none (linesOf text) (by simp)
  rwa [← hrun h]

end Derw

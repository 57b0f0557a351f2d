import Derw.Yaml.Write
import Mathlib.Algebra.Group.Nat.Defs

/-!
# Proofs/Yaml/Scalar — a scalar is read back as it was written

A reader of scalars keeps the blanks since the last character apart from the characters before them,
as it does not know yet whether they belong to the text. Both together are what has been read so far
(`Gap.of`): that is the invariant of all three readers here, the one of bare texts and those of the
two kinds of quotes.
-/

namespace Derw.Yaml

/-! ## Places -/

/-- The characters that do not end a line. -/
def staysOnLine (c : Char) : Bool := !isBreak c && c != '\r' && c.toNat != 0x85

variable {l c i : Nat} {d : Char} {cs ds : List Char}

/-- The character ends no line. -/
theorem staysOnLine_of_not_mem (h : d.toNat ∉ [0x0A, 0x0D, 0x85, 0x2028, 0x2029]) :
    staysOnLine d := by
  have hfeed : d ≠ '\n' := by
    rintro rfl
    exact h (by decide)
  have hreturn : d ≠ '\r' := by
    rintro rfl
    exact h (by decide)
  simp only [List.mem_cons, not_or] at h
  simp [staysOnLine, isBreak, hfeed, hreturn, h]

theorem isBreak_of_staysOnLine (h : staysOnLine d) : isBreak d = false := by
  simp only [staysOnLine, Bool.and_eq_true, Bool.not_eq_true'] at h
  exact h.1.1

theorem staysOnLine_of_isVisible (h : isVisible d) (hbreak : isBreak d = false) :
    staysOnLine d := by
  have hreturn : d ≠ '\r' := by
    rintro rfl
    exact absurd h (by decide)
  have hnext : d.toNat ≠ 0x85 := by
    intro hn
    rw [isVisible, hn] at h
    exact absurd h (by decide)
  simp [staysOnLine, hbreak, hreturn, hnext]

/-- A line break moves on to the start of the next line. -/
theorem place_newline : place l c i ('\n' :: cs) = ⟨'\n', l, c, i⟩ :: place (l + 1) 0 (i + 1) cs :=
  rfl

/-- Any other character moves on by a column. -/
theorem place_cons (h : staysOnLine d) (l c i : Nat) (cs : List Char) :
    place l c i (d :: cs) = ⟨d, l, c, i⟩ :: place l (c + 1) (i + 1) cs := by
  simp only [staysOnLine, Bool.and_eq_true, Bool.not_eq_true', bne_iff_ne] at h
  obtain ⟨⟨hbreak, hreturn⟩, hnext⟩ := h
  rw [place]
  · simp [hbreak, hreturn, hnext]
  · rintro ds rfl
    exact absurd rfl hreturn

/-- A text on one line is placed part by part. -/
theorem place_append (h : ∀ d ∈ cs, staysOnLine d) :
    place l c i (cs ++ ds) = place l c i cs ++ place l (c + cs.length) (i + cs.length) ds := by
  induction cs generalizing c i with
  | nil => rfl
  | cons d cs ih =>
    have hd := h d (List.mem_cons_self ..)
    rw [List.cons_append, place_cons hd, ih fun e he => h e (List.mem_cons_of_mem _ he),
      place_cons hd, List.length_cons, List.cons_append, Nat.add_right_comm, Nat.add_assoc c,
      Nat.add_right_comm i, Nat.add_assoc i]

/-- Every character of a text on one line is a glyph. -/
theorem length_place (h : ∀ d ∈ cs, staysOnLine d) : (place l c i cs).length = cs.length := by
  induction cs generalizing c i with
  | nil => rfl
  | cons d cs ih =>
    rw [place_cons (h d (List.mem_cons_self ..)), List.length_cons, List.length_cons,
      ih fun e he => h e (List.mem_cons_of_mem _ he)]

/-! ## What has been read so far -/

/-- Blanks that may yet turn out to be part of the text, latest first. -/
def Gap.of (blanks : List Char) : Gap := { blanks }

theorem Gap.reverse_text_of (blanks : List Char) : (Gap.of blanks).text.reverse = blanks :=
  List.reverse_reverse blanks

/-- A character goes behind the blanks before it. -/
theorem Gap.push_of (blanks : List Char) (h : isBreak d = false) :
    (Gap.of blanks).push d = .of (d :: blanks) := by
  rw [push, h]
  rfl

/-- A document mark stands at the start of a line. -/
theorem not_atDocumentMark {g : Glyph} (gs : List Glyph) (h : 0 < g.column) :
    atDocumentMark (g :: gs) = false := by
  have hcolumn : (g.column == 0) = false := beq_eq_false_iff_ne.2 (Nat.ne_of_gt h)
  rw [atDocumentMark]
  match gs with
  | [] | [_] => rfl
  | _ :: _ :: _ => simp only [atMark, hcolumn, Bool.false_and, Bool.or_false]

/-! ## Quoted texts -/

section Quoted

variable (quote : Char) (l : Nat) (text rest : List Char)

/-- With `read` behind it, latest first, the reader of a quoted text comes to `text` and to the
`rest` of the line. -/
def QuotedFrom (read : List Char) (gs : List Glyph) : Prop :=
  ∀ acc blanks, blanks ++ acc = read →
    ∃ c i, quotedRest quote acc (.of blanks) .text gs = some (text, place l c i rest)

variable {quote l text rest} {read : List Char} {g e : Glyph} {gs : List Glyph}

/-- The characters that stand for themselves. -/
theorem QuotedFrom.char (h : QuotedFrom quote l text rest (g.char :: read) gs)
    (hcolumn : 0 < g.column) (hbreak : isBreak g.char = false) (hquote : g.char ≠ quote)
    (hslash : quote = '"' → g.char ≠ '\\') : QuotedFrom quote l text rest read (g :: gs) := by
  intro acc blanks hread
  rw [quotedRest, hbreak, Bool.or_false, Gap.push_of blanks hbreak]
  split
  next => exact h acc (g.char :: blanks) (congrArg (g.char :: ·) hread)
  next =>
    have hescape : (quote == '"' && g.char == '\\') = false := by simpa using hslash
    rw [not_atDocumentMark gs hcolumn, if_neg Bool.false_ne_true, Gap.reverse_text_of,
      if_neg (by simpa using hquote), hescape, if_neg Bool.false_ne_true]
    exact h (g.char :: (blanks ++ acc)) [] (congrArg (g.char :: ·) hread)

/-- A backslash settles the blanks before it. -/
theorem quotedRest_backslash (hcolumn : 0 < g.column) (hslash : g.char = '\\')
    (acc blanks : List Char) :
    quotedRest '"' acc (.of blanks) .text (g :: gs)
      = quotedRest '"' (blanks ++ acc) {} .escape gs := by
  rw [quotedRest, not_atDocumentMark gs hcolumn, hslash, Gap.reverse_text_of]
  rfl

/-- A letter behind a backslash is read as the character it stands for. -/
theorem QuotedFrom.letter {n : Nat} (h : QuotedFrom '"' l text rest (Char.ofNat n :: read) gs)
    (hcolumn : 0 < g.column) (hslash : g.char = '\\') (hbreak : isBreak e.char = false)
    (hletter : escapes.lookup e.char = some n) :
    QuotedFrom '"' l text rest read (g :: e :: gs) := by
  rintro acc blanks rfl
  rw [quotedRest_backslash hcolumn hslash, quotedRest, hbreak, if_neg Bool.false_ne_true, hletter]
  exact h (Char.ofNat n :: (blanks ++ acc)) [] rfl

/-! ### Code points -/

/-- The digit of `hexDigits 'A'` for `n`. -/
def upperDigit (n : Nat) : Char :=
  if n < 10 then Char.ofNat (48 + n) else Char.ofNat (65 + (n - 10))

theorem hexDigits_succ (w n : Nat) :
    Text.hexDigits 'A' (w + 1) n = Text.hexDigits 'A' w (n / 16) ++ [upperDigit (n % 16)] := rfl

/-- The digits that are written are read back. -/
theorem upperDigit_spec :
    ∀ n < 16, hexValue (upperDigit n) = some n ∧ staysOnLine (upperDigit n) := by
  decide

/-- All digits but the last add to the value of the code point. -/
theorem quotedRest_digits (w k n v : Nat) (acc rest : List Char) :
    quotedRest '"' acc {} (.code (w + (k + 1)) v) (place l c i (Text.hexDigits 'A' w n ++ rest))
      = quotedRest '"' acc {} (.code (k + 1) (v * 16 ^ w + n % 16 ^ w))
          (place l (c + w) (i + w) rest) := by
  induction w generalizing k n rest with
  | zero => simp [Text.hexDigits, Nat.mod_one]
  | succ w ih =>
    obtain ⟨hvalue, hline⟩ := upperDigit_spec (n % 16) (Nat.mod_lt _ (by decide))
    have hleft : w + 1 + (k + 1) = w + (k + 1 + 1) := by omega
    have hsum : (v * 16 ^ w + n / 16 % 16 ^ w) * 16 + n % 16
        = v * 16 ^ (w + 1) + n % 16 ^ (w + 1) := by
      rw [Nat.pow_succ', Nat.mod_mul, Nat.mul_left_comm]
      omega
    rw [hexDigits_succ, List.append_assoc, hleft, ih, List.singleton_append, place_cons hline,
      quotedRest, hvalue]
    dsimp only
    rw [if_neg (by omega), hsum, Nat.add_sub_cancel]
    rfl

/-- A code point with as many digits as its letter announces. -/
theorem QuotedFrom.code {x : Char} {w : Nat} (hx : staysOnLine x) (hnone : escapes.lookup x = none)
    (hcode : codeEscapes.lookup x = some (w + 1)) (hsize : d.toNat < 16 ^ (w + 1)) (hcolumn : 0 < c)
    (h : ∀ c i, 0 < c → QuotedFrom '"' l text rest (d :: read) (place l c i ds)) :
    QuotedFrom '"' l text rest read
      (place l c i ('\\' :: x :: Text.hexDigits 'A' (w + 1) d.toNat ++ ds)) := by
  rintro acc blanks rfl
  obtain ⟨hvalue, hline⟩ := upperDigit_spec (d.toNat % 16) (Nat.mod_lt _ (by decide))
  have hbreak := isBreak_of_staysOnLine hx
  have hsum : (0 * 16 ^ w + d.toNat / 16 % 16 ^ w) * 16 + d.toNat % 16 = d.toNat := by
    rw [Nat.zero_mul, Nat.zero_add, Nat.mod_eq_of_lt]
    · omega
    · rw [Nat.pow_succ] at hsize
      omega
  have hchar : ((0xD800 ≤ d.toNat && d.toNat ≤ 0xDFFF) || decide (0x10FFFF < d.toNat)) = false := by
    have hvalid : d.toNat.isValidChar := d.valid
    simp only [Nat.isValidChar] at hvalid
    simp
    omega
  rw [List.cons_append, List.cons_append, place_cons (by decide), place_cons hx,
    quotedRest_backslash hcolumn rfl, quotedRest, hbreak, if_neg Bool.false_ne_true, hnone, hcode]
  dsimp only
  rw [hexDigits_succ, List.append_assoc, quotedRest_digits w 0, List.singleton_append,
    place_cons hline, quotedRest, hvalue]
  dsimp only
  rw [if_pos (Nat.le_refl 1), hsum, hchar, if_neg Bool.false_ne_true, Char.ofNat_toNat]
  exact h _ _ (Nat.succ_pos _) (d :: (blanks ++ acc)) [] rfl

/-- **Whatever is escaped is read back.** -/
theorem QuotedFrom.escaped (hcolumn : 0 < c)
    (h : ∀ c i, 0 < c → QuotedFrom '"' l text rest (d :: read) (place l c i ds)) :
    QuotedFrom '"' l text rest read (place l c i (escaped d ++ ds)) := by
  have hletter : ∀ (e : Char) (n : Nat), d.toNat = n → staysOnLine e → escapes.lookup e = some n →
      QuotedFrom '"' l text rest read (place l c i ('\\' :: e :: ds)) := by
    intro e n hn he hlookup
    have hd : Char.ofNat n = d := by rw [← hn, Char.ofNat_toNat]
    rw [place_cons (by decide), place_cons he]
    exact .letter (hd ▸ h _ _ (Nat.succ_pos _)) hcolumn rfl (isBreak_of_staysOnLine he) hlookup
  rw [Yaml.escaped]
  split
  next hplain =>
    simp only [Bool.and_eq_true, Bool.not_eq_true', bne_iff_ne] at hplain
    obtain ⟨⟨⟨hvisible, hquote⟩, hslash⟩, hbreak⟩ := hplain
    rw [List.singleton_append, place_cons (staysOnLine_of_isVisible hvisible hbreak)]
    exact .char (h _ _ (Nat.succ_pos _)) hcolumn hbreak hquote fun _ => hslash
  next =>
    rw [escapeOf]
    split <;> rename_i hn
    any_goals exact hletter _ _ hn (by decide) (by decide)
    split
    next hn => exact .code (by decide) (by decide) (by decide) (Nat.lt_succ_of_le hn) hcolumn h
    next =>
      split
      next hn => exact .code (by decide) (by decide) (by decide) (Nat.lt_succ_of_le hn) hcolumn h
      next =>
        have hsize : d.toNat < 16 ^ 8 := by
          have hvalid : d.toNat.isValidChar := d.valid
          simp only [Nat.isValidChar] at hvalid
          omega
        exact .code (by decide) (by decide) (by decide) hsize hcolumn h

/-- What is written in double quotes is read back, behind what has been read. -/
theorem quotedFrom_double (hcolumn : 0 < c) (read cs : List Char) :
    QuotedFrom '"' l (read.reverse ++ cs) rest read
      (place l c i (cs.flatMap escaped ++ '"' :: rest)) := by
  induction cs generalizing read c i with
  | nil =>
    rintro acc blanks rfl
    refine ⟨c + 1, i + 1, ?_⟩
    rw [List.flatMap_nil, List.nil_append, place_cons (by decide), quotedRest,
      not_atDocumentMark _ hcolumn, Gap.reverse_text_of, List.append_nil]
    rfl
  | cons d cs ih =>
    rw [List.flatMap_cons, List.append_assoc]
    refine .escaped hcolumn fun c i hc => ?_
    have hrest := ih (c := c) (i := i) hc (d :: read)
    rwa [List.reverse_cons, List.append_assoc, List.singleton_append] at hrest

/-- Single quotes do so for texts of one line. -/
theorem quotedFrom_single (hcolumn : 0 < c) (margin : Nat) (read : List Char)
    (hline : ∀ d ∈ cs, staysOnLine d) :
    QuotedFrom '\'' l (read.reverse ++ cs) ('\n' :: rest) read
      (place l c i (singleQuotedText margin false cs ++ '\'' :: '\n' :: rest)) := by
  induction cs generalizing read c i with
  | nil =>
    rintro acc blanks rfl
    refine ⟨c + 1, i + 1, ?_⟩
    rw [singleQuotedText, List.nil_append, place_cons (by decide), quotedRest,
      not_atDocumentMark _ hcolumn, Gap.reverse_text_of, List.append_nil]
    rfl
  | cons d cs ih =>
    have hd := hline d (List.mem_cons_self ..)
    have hbreak := isBreak_of_staysOnLine hd
    have hrest := fun c i hc => ih (c := c) (i := i) hc (d :: read) fun e he =>
      hline e (List.mem_cons_of_mem _ he)
    rw [List.reverse_cons, List.append_assoc, List.singleton_append] at hrest
    rw [singleQuotedText, hbreak, if_neg Bool.false_ne_true, if_neg Bool.false_ne_true,
      List.nil_append]
    split
    next hquote =>
      -- Of two quotes, the first settles the blanks and the second is the character.
      obtain rfl := eq_of_beq hquote
      rintro acc blanks rfl
      rw [List.append_assoc, List.cons_append, List.singleton_append, place_cons hd, place_cons hd,
        quotedRest, not_atDocumentMark _ hcolumn, Gap.reverse_text_of]
      exact hrest (c + 1 + 1) (i + 1 + 1) (Nat.succ_pos _) ('\'' :: (blanks ++ acc)) [] rfl
    next hquote =>
      rw [List.append_assoc, List.singleton_append, place_cons hd]
      exact .char (hrest _ _ (Nat.succ_pos _)) hcolumn hbreak (by simpa using hquote)
        (absurd · (by decide))

/-- What is left is not longer. -/
theorem length_quotedRest_le {acc cs : List Char} {gap : Gap} {state : QuotedState}
    {gs rest : List Glyph} (h : quotedRest quote acc gap state gs = some (cs, rest)) :
    rest.length ≤ gs.length := by
  -- It goes on behind a glyph, or it ends here or is at fault.
  fun_induction quotedRest quote acc gap state gs
  all_goals first
    | exact Nat.le_succ_of_le (by rename_i ih; exact ih h)
    | cases h <;> simp

end Quoted

/-! ## Bare texts -/

/-- A text that can be written as it is. -/
structure Bare (cs : List Char) : Prop where
  ne_nil : cs ≠ []
  visible : ∀ d ∈ cs, isVisible d
  noQuotes : needsQuotes cs = false

namespace Bare

instance (cs : List Char) : Decidable (Bare cs) :=
  decidable_of_iff (cs ≠ [] ∧ cs.all isVisible = true ∧ needsQuotes cs = false)
    ⟨fun h => ⟨h.1, List.all_eq_true.1 h.2.1, h.2.2⟩,
      fun h => ⟨h.ne_nil, List.all_eq_true.2 h.visible, h.noQuotes⟩⟩

variable (h : Bare cs)

include h

/-- What is asked of a bare text, condition by condition. -/
theorem parts : (cs.head? ≠ some ' ' ∧ cs.getLast? ≠ some ' ') ∧ (∀ d ∈ cs, isBreak d = false) ∧
    opensOtherwise cs = false ∧ endsEarly cs = false := by
  have hparts := h.noQuotes
  simp only [needsQuotes, Bool.or_eq_false_iff, beq_eq_false_iff_ne, List.any_eq_false,
    Bool.not_eq_true] at hparts
  exact ⟨hparts.1.1.1, hparts.1.1.2, hparts.1.2, hparts.2⟩

theorem staysOnLine : ∀ d ∈ cs, staysOnLine d := fun d hd =>
  staysOnLine_of_isVisible (h.visible d hd) (h.parts.2.1 d hd)

theorem isSpaceOrTab_eq (hd : d ∈ cs) : isSpaceOrTab d = (d == ' ') := by
  have htab : d ≠ '\t' := by
    rintro rfl
    exact absurd (h.visible _ hd) (by decide)
  rw [isSpaceOrTab, beq_eq_false_iff_ne.2 htab, Bool.or_false]

/-- A bare text does not end with a blank. -/
theorem getLast?_not_blank : ∀ d ∈ cs.getLast?, isSpaceOrTab d = false := by
  intro d hd
  have hmem : d ∈ cs := List.mem_of_getLast? hd
  rw [h.isSpaceOrTab_eq hmem, beq_eq_false_iff_ne]
  rintro rfl
  exact h.parts.1.2 hd

end Bare

/-- A mark that does not stand before a gap in the text does not do so in the document. -/
theorem not_atGap {b : Bool} (hline : ∀ d ∈ cs, staysOnLine d) (h : (b && beforeGap cs) = false)
    (l c i : Nat) (ds : List Char) : (b && atGap (place l c i (cs ++ ds))) = false := by
  cases cs with
  | nil =>
    rw [beforeGap, Bool.and_true] at h
    rw [h, Bool.false_and]
  | cons e es =>
    have he := hline e (List.mem_cons_self ..)
    rw [List.cons_append, place_cons he, atGap, isBreak_of_staysOnLine he, Bool.or_false]
    exact h

/-- The characters of a bare text up to its end, with `blanks` since the last other one. -/
theorem bareRest_append {margin : Nat} (acc blanks : List Char) (hline : ∀ d ∈ cs, staysOnLine d)
    (hends : endsEarly cs = false) (hlast : ∀ d ∈ cs.getLast?, isSpaceOrTab d = false)
    (hblanks : blanks ≠ [] → cs ≠ [] ∧ cs.head? ≠ some '#' ∧ margin ≤ c) (hmargin : margin ≤ c + 1)
    (hcolumn : 0 < c) :
    bareRest false margin acc (.of blanks) (place l c i (cs ++ ds))
      = bareRest false margin (cs.reverse ++ (blanks ++ acc)) {}
          (place l (c + cs.length) (i + cs.length) ds) := by
  induction cs generalizing acc blanks c i with
  | nil =>
    cases blanks with
    | nil => rfl
    | cons b bs => exact absurd rfl (hblanks (List.cons_ne_nil _ _)).1
  | cons d cs ih =>
    have hd := hline d (List.mem_cons_self ..)
    have hbreak := isBreak_of_staysOnLine hd
    simp only [endsEarly, Bool.or_eq_false_iff] at hends
    obtain ⟨⟨hcolon, hcomment⟩, hends⟩ := hends
    have hstep : ∀ acc' blanks', blanks' ++ acc' = d :: (blanks ++ acc) →
        (blanks' ≠ [] → cs ≠ [] ∧ cs.head? ≠ some '#' ∧ margin ≤ c + 1) →
        bareRest false margin acc' (.of blanks') (place l (c + 1) (i + 1) (cs ++ ds))
          = bareRest false margin ((d :: cs).reverse ++ (blanks ++ acc)) {}
            (place l (c + (d :: cs).length) (i + (d :: cs).length) ds) := by
      intro acc' blanks' hread hblanks'
      rw [ih acc' blanks' (fun e he => hline e (List.mem_cons_of_mem _ he)) hends ?_ hblanks'
        (Nat.le_succ_of_le hmargin) (Nat.succ_pos c), hread, List.reverse_cons, List.append_assoc,
        List.singleton_append, List.length_cons, Nat.add_right_comm, Nat.add_assoc c,
        Nat.add_right_comm i, Nat.add_assoc i]
      intro e he
      exact hlast e (by rw [List.getLast?_cons, he]; rfl)
    rw [List.cons_append, place_cons hd, bareRest]
    split
    next hspace =>
      have hcs : cs ≠ [] := by
        rintro rfl
        exact absurd (hlast d rfl) (by rw [hspace]; decide)
      rw [hspace, Bool.true_and, beq_eq_false_iff_ne] at hcomment
      rw [Gap.push_of blanks hbreak]
      exact hstep acc (d :: blanks) rfl fun _ => ⟨hcs, hcomment, hmargin⟩
    next hspace =>
      have hgo : (!(Gap.of blanks).isEmpty && (!false && decide (c < margin)
          || atDocumentMark (⟨d, l, c, i⟩ :: place l (c + 1) (i + 1) (cs ++ ds)) || d == '#'))
          = false := by
        cases blanks with
        | nil => rfl
        | cons b bs =>
          obtain ⟨-, hhash, hle⟩ := hblanks (List.cons_ne_nil _ _)
          have hchar : d ≠ '#' := fun h => hhash (congrArg some h)
          have hmark := not_atDocumentMark (g := ⟨d, l, c, i⟩)
            (place l (c + 1) (i + 1) (cs ++ ds)) hcolumn
          simp [hmark, hchar, Nat.not_lt.2 hle]
      have hgap := not_atGap (fun e he => hline e (List.mem_cons_of_mem _ he)) hcolon l (c + 1)
        (i + 1) ds
      rw [hbreak, if_neg Bool.false_ne_true, hgo, if_neg Bool.false_ne_true, hgap, Bool.false_and,
        Bool.or_false, if_neg Bool.false_ne_true, Gap.reverse_text_of]
      exact hstep (d :: (blanks ++ acc)) [] rfl fun h => absurd rfl h

/-- A bare text in front of anything. -/
theorem Bare.bareRest_append {margin : Nat} (h : Bare cs) (hmargin : margin ≤ c + 1)
    (hcolumn : 0 < c) :
    bareRest false margin [] {} (place l c i (cs ++ ds))
      = bareRest false margin cs.reverse {} (place l (c + cs.length) (i + cs.length) ds) := by
  refine (Yaml.bareRest_append [] [] h.staysOnLine h.parts.2.2.2 h.getLast?_not_blank (absurd rfl)
    hmargin hcolumn).trans ?_
  rw [List.append_nil, List.append_nil]

/-- Past the end of its line, a bare text goes on if the next line is indented far enough. -/
theorem bareRest_indentation {margin : Nat} (acc : List Char) (k : Nat) (hk : c + k < margin)
    (hnext : ∀ d ∈ ds.head?, isSpaceOrTab d = false ∧ staysOnLine d) :
    bareRest false margin acc { broken := true, first := some '\n' }
        (place l c i (List.replicate k ' ' ++ ds))
      = some (acc.reverse, true, place l (c + k) (i + k) ds) := by
  induction k generalizing c i with
  | zero =>
    cases ds with
    | nil => rfl
    | cons d ds =>
      obtain ⟨hspace, hd⟩ := hnext d rfl
      have hless : decide (c < margin) = true := decide_eq_true hk
      rw [List.replicate_zero, List.nil_append, place_cons hd, bareRest, hspace,
        isBreak_of_staysOnLine hd, hless]
      exact congrArg (fun gs => some (acc.reverse, true, gs)) (place_cons hd ..).symm
  | succ k ih =>
    have hspace : isSpaceOrTab ' ' = true := rfl
    rw [List.replicate_succ, List.cons_append, place_cons (by decide), bareRest, if_pos hspace,
      if_neg (by simp)]
    refine (ih (c := c + 1) (i := i + 1) (by omega)).trans ?_
    rw [Nat.add_assoc, Nat.add_comm 1 k, Nat.add_assoc, Nat.add_comm 1 k]

/-- A bare text ends with its line if the next one is indented less. -/
theorem bareRest_newline {margin : Nat} (acc : List Char) (k : Nat) (hk : k < margin)
    (hnext : ∀ d ∈ ds.head?, isSpaceOrTab d = false ∧ staysOnLine d) :
    bareRest false margin acc {} (place l c i ('\n' :: (List.replicate k ' ' ++ ds)))
      = some (acc.reverse, true, place (l + 1) k (i + 1 + k) ds) := by
  rw [place_newline]
  refine (bareRest_indentation acc k (by omega) hnext).trans ?_
  rw [Nat.zero_add]

/-! ## Admitted characters -/

/-- What is visible is admitted. -/
theorem isAdmitted_of_isVisible (h : isVisible d) : isAdmitted d := by
  simp only [isVisible, Bool.or_eq_true, Bool.and_eq_true, decide_eq_true_eq] at h
  simp only [isAdmitted, Bool.or_eq_true, Bool.and_eq_true, decide_eq_true_eq]
  omega

theorem all_isAdmitted_hexDigits (w n : Nat) : (Text.hexDigits 'A' w n).all isAdmitted := by
  have hdigit : ∀ n < 16, isAdmitted (upperDigit n) := by decide
  induction w generalizing n with
  | zero => rfl
  | succ w ih => simp [hexDigits_succ, ih, hdigit (n % 16) (Nat.mod_lt _ (by decide))]

/-- Escaped characters are written in admitted ones. -/
theorem all_isAdmitted_escaped (d : Char) : (escaped d).all isAdmitted := by
  rw [escaped]
  split
  next hplain =>
    simp only [Bool.and_eq_true] at hplain
    simp [isAdmitted_of_isVisible hplain.1.1.1]
  next =>
    rw [escapeOf]
    split
    all_goals try decide
    have hslash : isAdmitted '\\' ∧ isAdmitted 'x' ∧ isAdmitted 'u' ∧ isAdmitted 'U' := by decide
    split
    next => simp only [List.all_cons, all_isAdmitted_hexDigits, hslash]; rfl
    next => split <;> simp only [List.all_cons, all_isAdmitted_hexDigits, hslash] <;> rfl

theorem all_isAdmitted_singleQuotedText (margin : Nat) (afterBreak : Bool)
    (h : cs.all isAdmitted) : (singleQuotedText margin afterBreak cs).all isAdmitted := by
  induction cs generalizing afterBreak with
  | nil => rfl
  | cons d cs ih =>
    obtain ⟨hd, hcs⟩ : isAdmitted d ∧ cs.all isAdmitted := by simpa using h
    rw [singleQuotedText]
    split
    next => simp [hd, ih true hcs]
    next =>
      have hblank : isAdmitted ' ' ∧ isAdmitted '\'' := by decide
      simp only [List.all_append, ih false hcs]
      split <;> split <;> simp [hblank, hd]

/-- Every scalar is written in admitted characters, whatever its style. -/
theorem all_isAdmitted_scalarText (margin : Nat) (s : String) :
    (scalarText margin s).toList.all isAdmitted := by
  have hquote : isAdmitted '"' ∧ isAdmitted '\'' := by decide
  rw [scalarText]
  split
  next => simp [hquote, all_isAdmitted_escaped]
  next hdouble =>
    simp only [Bool.or_eq_true, not_or, Bool.not_eq_true, List.any_eq_false,
      Bool.not_eq_false'] at hdouble
    have hall : s.toList.all isAdmitted :=
      List.all_eq_true.2 fun d hd => isAdmitted_of_isVisible (hdouble.1.2 d hd)
    split
    next => simp [hquote, all_isAdmitted_singleQuotedText margin false hall]
    next => exact hall

theorem glyphs_eq {text : String} (h : text.toList.all isAdmitted)
    (hmark : text.toList.head? ≠ some byteOrderMark) :
    glyphs text = some (place 0 0 0 text.toList) := by
  rw [glyphs]
  cases htext : text.toList with
  | nil => rfl
  | cons d cs =>
    rw [htext] at h hmark
    have hd : (d == byteOrderMark) = false :=
      beq_eq_false_iff_ne.2 fun hd => hmark (congrArg some hd)
    simp only [hd, Bool.false_eq_true, if_false, h, if_true]

end Derw.Yaml

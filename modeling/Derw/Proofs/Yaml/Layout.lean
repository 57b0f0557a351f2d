import Derw.Proofs.Yaml.Scalar

/-!
# Proofs/Yaml/Layout — the tokens of an indented document

`Scans s ts` says that the scanner comes from `s` to the end of its text without a fault, with the
tokens `ts`. In a block this does not depend on how far into the text a place is, nor on a key that
may have started before it, so `At` leaves both open: it is about a line, a column and the text from
there on. Each lemma puts one piece of text in front.
-/

namespace Derw.Yaml.Scanner

/-- The run from here ends with these tokens, and not with a fault. -/
inductive Scans : Scanner → List Token → Prop
  | last {s s' : Scanner} (hs : s.ended = false) (hfetch : s.fetch = some s')
    (hended : s'.ended = true) : Scans s s'.tokens.toList
  | next {s s' : Scanner} {ts : List Token} (hs : s.ended = false) (hfetch : s.fetch = some s')
    (hrest : s'.rest.length < s.rest.length) (h : Scans s' ts) : Scans s ts

/-- Any fuel above the number of characters left is enough. -/
theorem Scans.run_eq {s : Scanner} {ts : List Token} (h : Scans s ts) {n : Nat}
    (hn : s.rest.length < n) : run n s = ts := by
  induction h generalizing n with
  | @last s s' hs hfetch hended =>
    obtain ⟨n, rfl⟩ := Nat.exists_eq_add_one_of_ne_zero (Nat.ne_of_gt (Nat.zero_lt_of_lt hn))
    rw [run, hs, if_neg Bool.false_ne_true, hfetch]
    cases n with
    | zero => rfl
    | succ n => exact if_pos hended
  | @next s s' ts hs hfetch hrest _ ih =>
    obtain ⟨n, rfl⟩ := Nat.exists_eq_add_one_of_ne_zero (Nat.ne_of_gt (Nat.zero_lt_of_lt hn))
    rw [run, hs, if_neg Bool.false_ne_true, hfetch]
    exact ih (by omega)

/-- A step that leaves the fetched token the same leaves all tokens the same. -/
theorem Scans.of_fetch {s s' : Scanner} {ts : List Token} (h : Scans s' ts)
    (hended : s.ended = s'.ended) (hfetch : s.fetch = s'.fetch)
    (hrest : s'.rest.length ≤ s.rest.length) : Scans s ts := by
  cases h with
  | last hs h hend => exact .last (hended.trans hs) (hfetch.trans h) hend
  | next hs h hlt hnext => exact .next (hended.trans hs) (hfetch.trans h) (by omega) hnext

/-- Two scanners in front of the same token. -/
theorem Scans.of_skip {s s' : Scanner} {ts : List Token} (h : Scans s' ts)
    (hskip : s.skip = s'.skip) (hrest : s'.rest.length ≤ s.rest.length) : Scans s ts := by
  have hended : s.skip.ended = s'.skip.ended := by rw [hskip]
  exact h.of_fetch hended (by rw [fetch, hskip, fetch]) hrest

section

variable (last : Nat) (ts : List Token)

/-- A possible key that does not have to be one. -/
def Loose (start : Option KeyStart) : Prop := ∀ k ∈ start, k.required = false

/-- In a block with these margins, innermost first, behind the tokens `toks`. -/
def inBlock (allowed : Bool) (toks : List Token) (margins : List Nat) (start : Option KeyStart)
    (rest : List Glyph) : Scanner where
  rest
  last
  tokens := toks.toArray
  margin := margins.headD 0
  margins := margins.tail
  keyAllowed := allowed
  start

/-- From this place of the text, wherever it is in the text and whatever key may have started. -/
def At (allowed : Bool) (toks : List Token) (margins : List Nat) (l c : Nat) (text : List Char) :
    Prop :=
  ∀ i start, Loose start →
    Scans (inBlock last allowed toks margins start (place l c i text)) ts

variable {last ts} {allowed : Bool} {toks : List Token} {margins : List Nat} {l c m : Nat}
  {text : List Char}

/-- A token goes behind those that are there. -/
theorem emit_inBlock (toks : List Token) (margins : List Nat) (start : Option KeyStart)
    (rest : List Glyph) (kind : TokenKind) :
    (inBlock last allowed toks margins start rest).emit l kind
      = inBlock last allowed (toks ++ [⟨l, kind⟩]) margins start rest := by
  simp only [inBlock, emit, List.push_toArray]

/-- A blank moves the column on. -/
theorem At.blank (h : At last ts allowed toks margins l (c + 1) text) :
    At last ts allowed toks margins l c (' ' :: text) := fun i start hstart =>
  (h (i + 1) start hstart).of_skip rfl (Nat.le_succ _)

/-- A line break starts a line, on which a key may start. -/
theorem At.newline (allowed : Bool) (c : Nat) (h : At last ts true toks margins (l + 1) 0 text) :
    At last ts allowed toks margins l c ('\n' :: text) := fun i start hstart =>
  (h (i + 1) start hstart).of_skip rfl (Nat.le_succ _)

/-! ## Closing blocks -/

/-- Nothing is closed where the margin is not deeper. -/
theorem closeTo_of_le {s : Scanner} {n : Nat} (h : s.margin ≤ n) : closeTo n s = s := by
  rw [closeTo]
  split
  next => rfl
  next => rw [List.takeWhile_cons_of_neg (by simpa using h)]; rfl

/-- Closing changes the tokens only, so the margins can be set before or after. -/
theorem foldl_emit (s : Scanner) (deeper : List Nat) (margin : Nat) (margins : List Nat) :
    ({ deeper.foldl (fun s _ => s.emit s.line .blockEnd) s with margin, margins } : Scanner)
      = deeper.foldl (fun s _ => s.emit s.line .blockEnd) { s with margin, margins } := by
  induction deeper generalizing s with
  | nil => rfl
  | cons _ _ ih => exact ih _

/-- Every margin deeper than the column is closed, one `blockEnd` for each. -/
theorem closeTo_eq {s : Scanner} (n : Nat) (hflow : s.inFlow = false) :
    let deeper := (s.margin :: s.margins).takeWhile (n < ·)
    let kept := (s.margin :: s.margins).drop deeper.length
    closeTo n s = deeper.foldl (fun s _ => s.emit s.line .blockEnd)
      { s with margin := kept.headD 0, margins := kept.tail } := by
  rw [closeTo, hflow, if_neg Bool.false_ne_true]
  exact foldl_emit ..

theorem closeTo_cons {s : Scanner} {n : Nat} {ms : List Nat} (hflow : s.inFlow = false)
    (h : n < s.margin) (hms : s.margins = m :: ms) :
    closeTo n s = closeTo n { s.emit s.line .blockEnd with margin := m, margins := ms } := by
  rw [closeTo_eq n hflow, hms,
    List.takeWhile_cons_of_pos (p := fun k => decide (n < k)) (decide_eq_true h)]
  exact (closeTo_eq (s := { s.emit s.line .blockEnd with margin := m, margins := ms }) n hflow).symm

/-- Where nothing is skipped. -/
def solid (d : Char) : Bool :=
  staysOnLine d && !isSpaceOrTab d && d != '#' && d != byteOrderMark

theorem staysOnLine_of_solid {d : Char} (h : solid d) : staysOnLine d := by
  simp only [solid, Bool.and_eq_true] at h
  exact h.1.1.1

section Solid

variable {s : Scanner} {g : Glyph} {gs : List Glyph} (hrest : s.rest = g :: gs) (hg : solid g.char)

include hrest hg

/-- There is nothing to skip in front of it. -/
theorem skip_of_solid : s.skip = s := by
  simp only [solid, Bool.and_eq_true, Bool.not_eq_true', bne_iff_ne] at hg
  obtain ⟨⟨⟨hline, hspace⟩, hhash⟩, hmark⟩ := hg
  simp only [isSpaceOrTab, Bool.or_eq_false_iff] at hspace
  have hskip : skipBlanks s.inFlow s.keyAllowed false false s.rest = (s.keyAllowed, s.rest) := by
    rw [hrest, skipBlanks, isBreak_of_staysOnLine hline]
    simp [hspace, hhash, hmark]
  rw [skip, hskip]

/-- Blocks deeper than its column are closed, then its token is fetched. -/
theorem fetch_of_solid : s.fetch = (closeTo (g.column + 1) s).fetchToken g gs := by
  rw [fetch, skip_of_solid hrest hg, hrest]

/-- What stands less deep ends a block. -/
theorem Scans.close {ms : List Nat} (hflow : s.inFlow = false) (hm : g.column + 1 < s.margin)
    (hms : s.margins = m :: ms)
    (h : Scans { s.emit s.line .blockEnd with margin := m, margins := ms } ts) : Scans s ts := by
  refine h.of_fetch rfl ?_ (Nat.le_refl _)
  have hclosed := fetch_of_solid
    (s := { s.emit s.line .blockEnd with margin := m, margins := ms }) hrest hg
  rw [fetch_of_solid hrest hg, closeTo_cons hflow hm hms, hclosed]

/-- In a block that goes on here. -/
theorem Scans.token {s' : Scanner} (hended : s.ended = false) (hm : s.margin ≤ g.column + 1)
    (hfetch : s.fetchToken g gs = some s') (hlt : s'.rest.length < s.rest.length)
    (h : Scans s' ts) : Scans s ts := by
  refine .next hended ?_ hlt h
  rw [fetch_of_solid hrest hg, closeTo_of_le hm, hfetch]

end Solid

/-- One block is closed in front of a character left of it. -/
theorem At.close {d : Char} {ms : List Nat} {k : Nat} (hd : solid d) (hk : c + 1 < k)
    (h : At last ts true (toks ++ [⟨l, .blockEnd⟩]) (m :: ms) l c (d :: text)) :
    At last ts true toks (k :: m :: ms) l c (d :: text) := by
  intro i start hstart
  have hs := h i start hstart
  have hrest := place_cons (staysOnLine_of_solid hd) l c i text
  rw [hrest] at hs ⊢
  refine .close rfl hd rfl hk rfl ?_
  rw [emit_inBlock]
  exact hs

/-! ## Entries -/

theorem dropKey_of_loose {s : Scanner} (h : Loose s.start) :
    s.dropKey = some { s with start := none } := by
  rw [dropKey]
  cases hstart : s.start with
  | none => exact congrArg some (by rw [← hstart])
  | some k => exact if_neg (by rw [h k hstart]; decide)

theorem atMark_of_char {g : Glyph} {gs : List Glyph} {d : Char} (h : (g.char == d) = false) :
    atMark d (g :: gs) = false := by
  match gs with
  | [] | [_] => rfl
  | _ :: _ :: _ => simp [atMark, h]

theorem atMark_of_second {g g' : Glyph} {gs : List Glyph} {d : Char} (h : (g'.char == d) = false) :
    atMark d (g :: g' :: gs) = false := by
  match gs with
  | [] => rfl
  | _ :: _ => simp [atMark, h]

/-- A dash before a blank is an entry. -/
theorem fetchToken_dash (s : Scanner) {g g' : Glyph} (gs : List Glyph) (hg : g.char = '-')
    (hg' : g'.char = ' ') : s.fetchToken g (g' :: gs) = s.fetchEntry := by
  rw [fetchToken, atMark_of_char (d := '.') (by rw [hg]; rfl),
    atMark_of_second (d := '-') (by rw [hg']; rfl), hg]
  simp [atGap, hg', isSpaceOrTab]

section Entry

variable {s : Scanner} (hflow : s.inFlow = false) (hallowed : s.keyAllowed = true)
  (hstart : Loose s.start)

include hflow hallowed hstart

/-- An entry left of the margin belongs to the open sequence. -/
theorem fetchEntry_of_lt (hcolumn : s.column < s.margin) :
    s.fetchEntry = some { s.emit s.line .entry with
      rest := s.rest.drop 1, keyAllowed := true, start := none } := by
  have hopen : s.openAt s.column (·.emit s.line .blockSequence) = s := by
    rw [openAt, hflow, if_neg (by simpa using hcolumn)]
  rw [fetchEntry, hopen, dropKey_of_loose hstart, hflow, hallowed]
  rfl

/-- An entry at the margin or right of it opens a sequence. -/
theorem fetchEntry_of_le (hcolumn : s.margin ≤ s.column) :
    s.fetchEntry = some { (s.emit s.line .blockSequence).emit s.line .entry with
      rest := s.rest.drop 1, margin := s.column + 1, margins := s.margin :: s.margins,
      keyAllowed := true, start := none } := by
  have hopen : s.openAt s.column (·.emit s.line .blockSequence)
      = { s.emit s.line .blockSequence with
        margin := s.column + 1, margins := s.margin :: s.margins } := by
    rw [openAt, hflow, if_pos (by simpa using hcolumn)]
    rfl
  rw [fetchEntry, hopen, dropKey_of_loose (s := { s.emit s.line .blockSequence with
        margin := s.column + 1, margins := s.margin :: s.margins }) hstart, hflow, hallowed]
  rfl

end Entry

theorem loose_none : Loose none := by simp [Loose]

/-- A dash at the margin of its sequence. -/
theorem At.entry {ms : List Nat}
    (h : At last ts true (toks ++ [⟨l, .entry⟩]) ((c + 1) :: ms) l (c + 1) (' ' :: text)) :
    At last ts true toks ((c + 1) :: ms) l c ('-' :: ' ' :: text) := by
  intro i start hstart
  have hdash : solid '-' = true := by decide
  have hs := h (i + 1) none loose_none
  rw [place_cons (d := '-') (by decide)]
  rw [place_cons (d := ' ') (by decide)] at hs ⊢
  refine .token rfl hdash rfl (Nat.le_refl _) ?_ (Nat.lt_succ_self _) hs
  rw [fetchToken_dash _ _ rfl rfl, fetchEntry_of_lt rfl rfl hstart (Nat.lt_succ_self _),
    emit_inBlock]
  rfl

/-- A dash behind the margin starts a sequence. -/
theorem At.firstEntry {ms : List Nat} (hm : m ≤ c)
    (h : At last ts true (toks ++ [⟨l, .blockSequence⟩, ⟨l, .entry⟩]) ((c + 1) :: m :: ms) l (c + 1)
      (' ' :: text)) : At last ts true toks (m :: ms) l c ('-' :: ' ' :: text) := by
  intro i start hstart
  have hdash : solid '-' = true := by decide
  have hs := h (i + 1) none loose_none
  rw [place_cons (d := '-') (by decide)]
  rw [List.append_cons, place_cons (d := ' ') (by decide)] at hs
  rw [place_cons (d := ' ') (by decide)]
  refine .token rfl hdash rfl (Nat.le_succ_of_le hm) ?_ (Nat.lt_succ_self _) hs
  rw [fetchToken_dash _ _ rfl rfl, fetchEntry_of_le rfl rfl hstart hm, emit_inBlock, emit_inBlock]
  rfl

/-! ## Bare scalars and keys -/

/-- The possible key once a token has started at `g`. -/
def startAt (s : Scanner) (g : Glyph) : Option KeyStart :=
  if s.keyAllowed then
    some ⟨s.margin == g.column + 1, s.tokens.size, g.line, g.column, g.index⟩
  else s.start

/-- A scalar that may be a key is noted with its token and place. -/
theorem noteKey_eq {s : Scanner} {g : Glyph} {gs : List Glyph} (hflow : s.inFlow = false)
    (hstart : Loose s.start) (hrest : s.rest = g :: gs) :
    s.noteKey = some { s with start := s.startAt g } := by
  rw [noteKey, startAt]
  split
  next => rw [dropKey_of_loose hstart, hrest, hflow]; rfl
  next => rfl

theorem line_of_rest {s : Scanner} {g : Glyph} {gs : List Glyph} (hrest : s.rest = g :: gs) :
    s.line = g.line := by
  rw [line, hrest]
  rfl

/-- A bare scalar is read up to where bare texts end. -/
theorem fetchBare_eq {s : Scanner} {g : Glyph} {gs rest : List Glyph} {cs : List Char}
    {broken : Bool} (hflow : s.inFlow = false) (hstart : Loose s.start) (hrest : s.rest = g :: gs)
    (hbare : bareRest false s.margin [] {} s.rest = some (cs, broken, rest)) :
    s.fetchBare = some { s.emit g.line (.scalar .bare (String.ofList cs)) with
      rest, keyAllowed := broken, start := s.startAt g } := by
  have hflow' : ∀ start, ({ s with start } : Scanner).inFlow = false := fun _ => hflow
  rw [fetchBare, line_of_rest hrest, noteKey_eq hflow hstart hrest, Option.bind_eq_bind,
    Option.bind_some, hflow', hbare]
  rfl

theorem mem_indicators {d : Char} (h : d ∈ indicators) :
    d ∈ openingMarks ∨ d = '-' ∨ d = '?' ∨ d = ':' := by
  have hall : indicators.all (fun d => openingMarks.contains d || d == '-' || d == '?' || d == ':')
      = true := by decide
  simpa [or_assoc] using List.all_eq_true.1 hall d h

/-- The first character of a bare text starts a bare scalar and nothing else. -/
theorem fetchToken_bare {s : Scanner} {d : Char} {cs ds : List Char} {i : Nat}
    (hflow : s.inFlow = false) (h : Bare (d :: cs)) (hcolumn : 0 < c) :
    s.fetchToken ⟨d, l, c, i⟩ (place l (c + 1) (i + 1) (cs ++ ds)) = s.fetchBare := by
  have hzero : (c == 0) = false := beq_eq_false_iff_ne.2 (Nat.ne_of_gt hcolumn)
  have hmark := not_atDocumentMark (g := ⟨d, l, c, i⟩) (place l (c + 1) (i + 1) (cs ++ ds)) hcolumn
  simp only [atDocumentMark, Bool.or_eq_false_iff] at hmark
  obtain ⟨⟨hspace, -⟩, hbreak, hopens, -⟩ := h.parts
  simp only [opensOtherwise, Bool.or_eq_false_iff] at hopens
  obtain ⟨⟨⟨hopening, hgap⟩, -⟩, -⟩ := hopens
  have hgap := not_atGap (fun e he => h.staysOnLine e (List.mem_cons_of_mem _ he)) hgap l (c + 1)
    (i + 1) ds
  have hd : d ∉ openingMarks := by simpa using hopening
  have hsolid : atGap (⟨d, l, c, i⟩ :: place l (c + 1) (i + 1) (cs ++ ds)) = false := by
    rw [atGap, h.isSpaceOrTab_eq (List.mem_cons_self ..), hbreak d (List.mem_cons_self ..),
      Bool.or_false, beq_eq_false_iff_ne]
    exact fun hd => hspace (congrArg some hd)
  rw [fetchToken, hmark.1, hmark.2]
  dsimp only
  rw [hzero, Bool.false_and, if_neg Bool.false_ne_true, if_neg Bool.false_ne_true,
    if_neg Bool.false_ne_true]
  split
  all_goals try exact absurd (by decide) hd
  -- What is left are the characters without a meaning of their own, and three that have one only
  -- before a gap.
  have hbar : (d == '|') = false := beq_eq_false_iff_ne.2 fun hd' => hd (by rw [hd']; decide)
  have hangle : (d == '>') = false := beq_eq_false_iff_ne.2 fun hd' => hd (by rw [hd']; decide)
  have hplain : (!indicators.contains d || d == '-' || (!s.inFlow && (d == '?' || d == ':')))
      = true := by
    by_cases hmem : d ∈ indicators
    · obtain hopen | hother := mem_indicators hmem
      · exact absurd hopen hd
      · rcases hother with rfl | rfl | rfl <;> simp [hflow]
    · simp [hmem]
  have hmarks : ∀ b : Bool, ((d == '?' || d == ':' || d == '-') && b) = false →
      (d == '?' && b) = false ∧ (d == ':' && b) = false ∧ (d == '-' && b) = false := by
    intro b
    cases b <;> simp +contextual
  obtain ⟨hquestion, hcolon, hdash⟩ := hmarks _ hgap
  rw [hplain, hflow, hsolid, hbar, hangle, Bool.false_or, hquestion, hcolon, hdash]
  rfl

theorem solid_of_bare {d : Char} {cs : List Char} (h : Bare (d :: cs)) : solid d := by
  have hmem : d ∈ d :: cs := List.mem_cons_self ..
  obtain ⟨⟨hspace, -⟩, -, hopens, -⟩ := h.parts
  have hopening : openingMarks.contains d = false := by
    simp only [opensOtherwise, Bool.or_eq_false_iff] at hopens
    exact hopens.1.1.1
  have hblank : isSpaceOrTab d = false := by
    rw [h.isSpaceOrTab_eq hmem, beq_eq_false_iff_ne]
    exact fun hd => hspace (congrArg some hd)
  have hhash : d ≠ '#' := by
    rintro rfl
    exact absurd hopening (by decide)
  have hmark : d ≠ byteOrderMark := by
    rintro rfl
    exact absurd (h.visible _ hmem) (by decide)
  simp [solid, h.staysOnLine d hmem, hblank, hhash, hmark]

/-- A key that starts right of the margin is none that must be there. -/
theorem loose_startAt {s : Scanner} {g : Glyph} (hm : s.margin ≤ g.column)
    (hstart : Loose s.start) : Loose (s.startAt g) := by
  rw [startAt]
  split
  next =>
    rintro k ⟨⟩
    exact beq_eq_false_iff_ne.2 (by omega)
  next => exact hstart

/-- A bare text up to the next line, which is indented by `k`. -/
theorem At.bare {cs : List Char} {k : Nat} {ms : List Nat} (h : Bare cs) (hcolumn : 0 < c)
    (hm : m ≤ c) (hk : k < m) (hnext : ∀ d ∈ text.head?, isSpaceOrTab d = false ∧ staysOnLine d)
    (hs : At last ts true (toks ++ [⟨l, .scalar .bare (String.ofList cs)⟩]) (m :: ms) (l + 1) k
      text) :
    At last ts allowed toks (m :: ms) l c (cs ++ '\n' :: (List.replicate k ' ' ++ text)) := by
  intro i start hstart
  have hread := (h.bareRest_append (l := l) (i := i) (Nat.le_succ_of_le hm) hcolumn).trans
    (bareRest_newline cs.reverse k hk hnext)
  rw [List.reverse_reverse] at hread
  have hlt : (place (l + 1) k (i + cs.length + 1 + k) text).length
      < (place l c i (cs ++ '\n' :: (List.replicate k ' ' ++ text))).length := by
    have hspaces : ∀ d ∈ List.replicate k ' ', staysOnLine d := fun d hd => by
      rw [List.eq_of_mem_replicate hd]
      decide
    rw [place_append h.staysOnLine, place_newline, place_append hspaces]
    simp
    omega
  obtain ⟨d, cs, rfl⟩ := List.exists_cons_of_ne_nil h.ne_nil
  have hrest := place_cons (h.staysOnLine d (List.mem_cons_self ..)) l c i
    (cs ++ '\n' :: (List.replicate k ' ' ++ text))
  have hs := hs (i + (d :: cs).length + 1 + k) _
    (loose_startAt (s := inBlock last allowed toks (m :: ms) start []) (g := ⟨d, l, c, i⟩) hm
      hstart)
  refine .token hrest (solid_of_bare h) rfl (Nat.le_succ_of_le hm) ?_ hlt hs
  rw [fetchToken_bare rfl h hcolumn, fetchBare_eq rfl hstart hrest hread, emit_inBlock]
  rfl

/-! ## Quoted scalars -/

/-- A quoted scalar is read up to its closing quote. -/
theorem fetchQuoted_eq {s : Scanner} {g : Glyph} {gs rest : List Glyph} {quote : Char}
    {cs : List Char} (hflow : s.inFlow = false) (hstart : Loose s.start) (hrest : s.rest = g :: gs)
    (hquoted : quotedRest quote [] {} .text gs = some (cs, rest)) :
    s.fetchQuoted quote = some { s.emit g.line (.scalar .quoted (String.ofList cs)) with
      rest, keyAllowed := false, start := s.startAt g } := by
  rw [fetchQuoted, line_of_rest hrest, noteKey_eq hflow hstart hrest, Option.bind_eq_bind,
    Option.bind_some, hrest, List.drop_one, List.tail_cons, hquoted]
  rfl

theorem fetchToken_quote (s : Scanner) {g : Glyph} (gs : List Glyph) {quote : Char}
    (hquote : quote = '"' ∨ quote = '\'') (hg : g.char = quote) :
    s.fetchToken g gs = s.fetchQuoted quote := by
  rcases hquote with rfl | rfl
  all_goals
    rw [fetchToken, atMark_of_char (by rw [hg]; rfl), atMark_of_char (by rw [hg]; rfl), hg]
    simp

/-- A quoted text up to the next line. -/
theorem At.quoted {quote : Char} {cs inside : List Char} {ms : List Nat}
    (hquote : quote = '"' ∨ quote = '\'')
    (hread : ∀ c i, 0 < c → QuotedFrom quote l cs ('\n' :: text) [] (place l c i inside))
    (hm : m ≤ c)
    (hs : At last ts true (toks ++ [⟨l, .scalar .quoted (String.ofList cs)⟩]) (m :: ms) (l + 1) 0
      text) : At last ts allowed toks (m :: ms) l c (quote :: inside) := by
  intro i start hstart
  have hsolid : solid quote := by rcases hquote with rfl | rfl <;> decide
  have hrest := place_cons (staysOnLine_of_solid hsolid) l c i inside
  obtain ⟨c', i', hquoted⟩ := hread (c + 1) (i + 1) (Nat.succ_pos c) [] [] rfl
  have hs := (At.newline false c' hs) i' _
    (loose_startAt (s := inBlock last allowed toks (m :: ms) start []) (g := ⟨quote, l, c, i⟩) hm
      hstart)
  refine .token hrest hsolid rfl (Nat.le_succ_of_le hm) ?_ ?_ hs
  · rw [fetchToken_quote _ _ hquote rfl, fetchQuoted_eq rfl hstart hrest hquoted, emit_inBlock]
    rfl
  · rw [hrest]
    exact Nat.lt_succ_of_le (length_quotedRest_le hquoted)

/-! ## Texts -/

/-- Blanks move the column on. -/
theorem At.blanks {k : Nat} (h : At last ts allowed toks margins l (c + k) text) :
    At last ts allowed toks margins l c (List.replicate k ' ' ++ text) := by
  induction k generalizing c with
  | zero => exact h
  | succ k ih =>
    rw [List.replicate_succ, List.cons_append]
    refine .blank (ih ?_)
    rwa [Nat.add_assoc, Nat.add_comm 1 k]

/-- Whether a text is written between quotes. -/
def scalarStyle (s : String) : Style :=
  if misread s || s.toList.any (fun d => !isVisible d) || spaceAtBreak s.toList then .quoted
  else if needsQuotes s.toList then .quoted
  else .bare

/-- What is written bare can be read bare, and means a text. -/
theorem bare_of_scalarStyle {s : String} (h : scalarStyle s = .bare) :
    Bare s.toList ∧ meaning true s = .text := by
  rw [scalarStyle] at h
  split at h
  next => exact absurd h (by decide)
  next hdouble =>
    split at h
    next => exact absurd h (by decide)
    next hquotes =>
      simp only [Bool.or_eq_true, not_or, Bool.not_eq_true, List.any_eq_false,
        Bool.not_eq_false'] at hdouble hquotes
      obtain ⟨⟨hmisread, hvisible⟩, -⟩ := hdouble
      simp only [misread, Bool.or_eq_false_iff, bne_eq_false_iff_eq] at hmisread
      refine ⟨⟨?_, hvisible, hquotes⟩, hmisread.1.1⟩
      rintro hempty
      rw [String.toList_eq_nil_iff.1 hempty] at hmisread
      exact absurd hmisread.1.1 (by decide)

/-- **A text that stays on its line is read back**, in any style. -/
theorem At.scalar {s : String} {k : Nat} {ms : List Nat} (hline : ∀ d ∈ s.toList, staysOnLine d)
    (hcolumn : 0 < c) (hm : m ≤ c) (hk : k < m)
    (hnext : ∀ d ∈ text.head?, isSpaceOrTab d = false ∧ staysOnLine d) (margin : Nat)
    (hs : At last ts true (toks ++ [⟨l, .scalar (scalarStyle s) s⟩]) (m :: ms) (l + 1) k text) :
    At last ts allowed toks (m :: ms) l c
      ((scalarText margin s).toList ++ '\n' :: (List.replicate k ' ' ++ text)) := by
  have hs : At last ts true (toks ++ [⟨l, .scalar (scalarStyle s) (String.ofList s.toList)⟩])
      (m :: ms) (l + 1) k text := by rwa [String.ofList_toList]
  have hblanks : At last ts true (toks ++ [⟨l, .scalar (scalarStyle s) (String.ofList s.toList)⟩])
      (m :: ms) (l + 1) 0 (List.replicate k ' ' ++ text) := .blanks (by rwa [Nat.zero_add])
  rw [scalarText]
  split
  next hdouble =>
    rw [scalarStyle, if_pos hdouble] at hblanks
    have hread : At last ts allowed toks (m :: ms) l c ('"' :: _) :=
      .quoted (.inl rfl) (fun c i hc => quotedFrom_double hc [] s.toList) hm hblanks
    simpa using hread
  next hdouble =>
    split
    next hsingle =>
      rw [scalarStyle, if_neg hdouble, if_pos hsingle] at hblanks
      have hread : At last ts allowed toks (m :: ms) l c ('\'' :: _) :=
        .quoted (.inr rfl) (fun c i hc => quotedFrom_single hc margin [] hline) hm hblanks
      simpa using hread
    next hquotes =>
      have hstyle : scalarStyle s = .bare := by
        rw [scalarStyle, if_neg hdouble, if_neg hquotes]
      rw [hstyle] at hs
      exact .bare (bare_of_scalarStyle hstyle).1 hcolumn hm hk hnext hs

/-! ## Keys -/

/-- A colon before a gap is a value. -/
theorem fetchToken_colon {s : Scanner} {g : Glyph} {gs : List Glyph} (hg : g.char = ':')
    (hgap : atGap gs = true) : s.fetchToken g gs = s.fetchValue := by
  rw [fetchToken, atMark_of_char (by rw [hg]; rfl), atMark_of_char (by rw [hg]; rfl), hg]
  simp [hgap]

section Value

variable {s : Scanner} {k : KeyStart} (hstart : s.start = some k) (hstale : s.isStale k = false)

include hstart hstale

/-- A key left of the margin belongs to the open mapping. -/
theorem fetchValue_of_lt (hcolumn : k.column < s.margin) :
    s.fetchValue = some { (s.insertAt k.token k.line .key).emit s.line .value with
      rest := s.rest.drop 1, keyAllowed := false, start := none } := by
  have hopen : (s.insertAt k.token k.line .key).openAt k.column
      (·.insertAt k.token k.line .blockMapping) = s.insertAt k.token k.line .key := by
    refine if_neg ?_
    change ¬ (!s.inFlow && decide (s.margin ≤ k.column)) = true
    simp [hcolumn]
  rw [fetchValue, hstart]
  dsimp only
  rw [hstale, if_neg Bool.false_ne_true, hopen]
  rfl

/-- A key at the margin or right of it opens a mapping, in front of the key's token. -/
theorem fetchValue_of_le (hflow : s.inFlow = false) (hcolumn : s.margin ≤ k.column) :
    s.fetchValue = some { ((s.insertAt k.token k.line .key).insertAt k.token k.line
        .blockMapping).emit s.line .value with
      rest := s.rest.drop 1, margin := k.column + 1, margins := s.margin :: s.margins,
      keyAllowed := false, start := none } := by
  have hopen : (s.insertAt k.token k.line .key).openAt k.column
      (·.insertAt k.token k.line .blockMapping)
        = { (s.insertAt k.token k.line .key).insertAt k.token k.line .blockMapping with
          margin := k.column + 1, margins := s.margin :: s.margins } := by
    refine if_pos ?_
    change (!s.inFlow && decide (s.margin ≤ k.column)) = true
    simp [hcolumn, hflow]
  rw [fetchValue, hstart]
  dsimp only
  rw [hstale, if_neg Bool.false_ne_true, hopen]
  rfl

end Value

/-- A token put in at the place a key was noted. -/
theorem insertAt_inBlock (toks tail : List Token) (margins : List Nat) (start : Option KeyStart)
    (rest : List Glyph) (kind : TokenKind) :
    (inBlock last allowed (toks ++ tail) margins start rest).insertAt toks.length l kind
      = inBlock last allowed (toks ++ ⟨l, kind⟩ :: tail) margins start rest := by
  simp [inBlock, insertAt]

/-- The name of a key, up to its colon. -/
theorem Scans.keyName {cs : List Char} {ms : List Nat} {i : Nat} {start : Option KeyStart}
    (h : Bare cs) (hcolumn : 0 < c) (hm : m ≤ c + 1)
    (hgap : atGap (place l (c + cs.length + 1) (i + cs.length + 1) text) = true)
    (hstart : Loose start)
    (hs : Scans (inBlock last false (toks ++ [⟨l, .scalar .bare (String.ofList cs)⟩]) (m :: ms)
      (some ⟨m == c + 1, toks.length, l, c, i⟩)
      (place l (c + cs.length) (i + cs.length) (':' :: text))) ts) :
    Scans (inBlock last true toks (m :: ms) start (place l c i (cs ++ ':' :: text))) ts := by
  have hread : bareRest false m [] {} (place l c i (cs ++ ':' :: text))
      = some (cs, false, place l (c + cs.length) (i + cs.length) (':' :: text)) := by
    have hcolon : isSpaceOrTab ':' = false ∧ isBreak ':' = false := by decide
    rw [h.bareRest_append hm hcolumn, place_cons (d := ':') (by decide), bareRest, hcolon.1,
      hcolon.2, hgap, List.reverse_reverse]
    rfl
  have hlt : (place l (c + cs.length) (i + cs.length) (':' :: text)).length
      < (place l c i (cs ++ ':' :: text)).length := by
    rw [place_append h.staysOnLine, List.length_append, length_place h.staysOnLine]
    have hpos := List.length_pos_iff.2 h.ne_nil
    omega
  obtain ⟨d, cs, rfl⟩ := List.exists_cons_of_ne_nil h.ne_nil
  have hrest := place_cons (h.staysOnLine d (List.mem_cons_self ..)) l c i (cs ++ ':' :: text)
  refine .token hrest (solid_of_bare h) rfl hm ?_ hlt hs
  rw [fetchToken_bare rfl h hcolumn, fetchBare_eq rfl hstart hrest hread, emit_inBlock]
  rfl

/-- A key on the line, near enough, is still a key. -/
theorem isStale_near {s : Scanner} {gs : List Glyph} {d : Char} {n i t : Nat} {b : Bool}
    (hrest : s.rest = ⟨d, l, c + n, i + n⟩ :: gs) (hn : n ≤ 1024) :
    s.isStale ⟨b, t, l, c, i⟩ = false := by
  rw [isStale, hrest]
  simp
  omega

section Key

variable {cs : List Char} {ms : List Nat} (h : Bare cs) (hcolumn : 0 < c)
  (hshort : cs.length ≤ 1024)
  (hgap : ∀ i, atGap (place l (c + cs.length + 1) i text) = true)

include h hcolumn hshort hgap

/-- A key at the margin of its mapping. -/
theorem At.key
    (hs : At last ts false
      (toks ++ [⟨l, .key⟩, ⟨l, .scalar .bare (String.ofList cs)⟩, ⟨l, .value⟩]) ((c + 1) :: ms) l
      (c + cs.length + 1) text) :
    At last ts true toks ((c + 1) :: ms) l c (cs ++ ':' :: text) := by
  intro i start hstart
  refine .keyName h hcolumn (Nat.le_refl _) (hgap _) hstart ?_
  have hcolon : solid ':' = true := by decide
  have hs := hs (i + cs.length + 1) none loose_none
  rw [place_cons (staysOnLine_of_solid hcolon)]
  refine .token rfl hcolon rfl (by simp [inBlock]) ?_ (Nat.lt_succ_self _) hs
  rw [fetchToken_colon rfl (hgap _),
    fetchValue_of_lt rfl (isStale_near rfl hshort) (Nat.lt_succ_self _), line_of_rest rfl]
  dsimp only
  rw [insertAt_inBlock, emit_inBlock, List.append_assoc]
  rfl

/-- A key behind the margin starts a mapping. -/
theorem At.firstKey (hm : m ≤ c)
    (hs : At last ts false
      (toks ++ [⟨l, .blockMapping⟩, ⟨l, .key⟩, ⟨l, .scalar .bare (String.ofList cs)⟩, ⟨l, .value⟩])
      ((c + 1) :: m :: ms) l (c + cs.length + 1) text) :
    At last ts true toks (m :: ms) l c (cs ++ ':' :: text) := by
  intro i start hstart
  refine .keyName h hcolumn (Nat.le_succ_of_le hm) (hgap _) hstart ?_
  have hcolon : solid ':' = true := by decide
  have hs := hs (i + cs.length + 1) none loose_none
  rw [place_cons (staysOnLine_of_solid hcolon)]
  refine .token rfl hcolon rfl (by simp [inBlock]; omega) ?_ (Nat.lt_succ_self _) hs
  rw [fetchToken_colon rfl (hgap _), fetchValue_of_le rfl (isStale_near rfl hshort) rfl hm,
    line_of_rest rfl]
  dsimp only
  rw [insertAt_inBlock, insertAt_inBlock, emit_inBlock, List.append_assoc]
  rfl

end Key

/-! ## Empty sequences and the end -/

theorem fetchToken_open {s : Scanner} {g : Glyph} {gs : List Glyph} (hg : g.char = '[') :
    s.fetchToken g gs = s.fetchOpen .sequenceOpen := by
  rw [fetchToken, atMark_of_char (by rw [hg]; rfl), atMark_of_char (by rw [hg]; rfl), hg]
  simp

theorem fetchToken_close {s : Scanner} {g : Glyph} {gs : List Glyph} (hg : g.char = ']') :
    s.fetchToken g gs = s.fetchClose .sequenceClose := by
  rw [fetchToken, atMark_of_char (by rw [hg]; rfl), atMark_of_char (by rw [hg]; rfl), hg]
  simp

/-- An empty sequence up to the next line. The key that may have started before it waits outside of
the brackets. -/
theorem At.emptySequence {ms : List Nat} (hm : m ≤ c)
    (hs : At last ts true (toks ++ [⟨l, .sequenceOpen⟩, ⟨l, .sequenceClose⟩]) (m :: ms) (l + 1) 0
      text) : At last ts allowed toks (m :: ms) l c ('[' :: ']' :: '\n' :: text) := by
  intro i start hstart
  have hopen : solid '[' = true := by decide
  have hclose : solid ']' = true := by decide
  have hs := (At.newline false (c + 1 + 1) hs) (i + 1 + 1) _
    (loose_startAt (s := inBlock last allowed toks (m :: ms) start []) (g := ⟨'[', l, c, i⟩) hm
      hstart)
  rw [List.append_cons, ← emit_inBlock] at hs
  rw [place_cons (staysOnLine_of_solid hopen), place_cons (staysOnLine_of_solid hclose)]
  have hinside : Scans
      { inBlock last true (toks ++ [⟨l, .sequenceOpen⟩]) (m :: ms) none
          (⟨']', l, c + 1, i + 1⟩ :: place l (c + 1 + 1) (i + 1 + 1) ('\n' :: text)) with
        outer := [startAt (inBlock last allowed toks (m :: ms) start []) ⟨'[', l, c, i⟩] } ts := by
    refine .token rfl hclose rfl (Nat.le_succ_of_le (Nat.le_succ_of_le hm)) ?_
      (Nat.lt_succ_self _) hs
    rw [fetchToken_close rfl, fetchClose, dropKey_of_loose loose_none]
    rfl
  refine .token rfl hopen rfl (Nat.le_succ_of_le hm) ?_ (Nat.lt_succ_self _) hinside
  rw [fetchToken_open rfl, fetchOpen, noteKey_eq rfl hstart rfl, ← emit_inBlock]
  rfl

/-- At the end of the text, one block is closed. -/
theorem At.close_end {ms : List Nat} {k : Nat} (hk : 0 < k)
    (h : At last ts true (toks ++ [⟨last, .blockEnd⟩]) (m :: ms) l c []) :
    At last ts true toks (k :: m :: ms) l c [] := by
  intro i start hstart
  refine (h i start hstart).of_fetch rfl ?_ (Nat.le_refl _)
  rw [← emit_inBlock]
  change fetchEnd _ = fetchEnd _
  rw [fetchEnd, reset, closeTo_cons rfl hk rfl]
  rfl

/-- With all blocks closed, the text ends. -/
theorem At.done : At last (toks ++ [⟨last, .textEnd⟩]) true toks [0] l c [] := by
  intro i start hstart
  have hclose : closeTo 0 (inBlock last true toks [0] start [])
      = inBlock last true toks [0] start [] := closeTo_of_le (Nat.le_refl 0)
  have hfetch : (inBlock last true toks [0] start []).fetch = some
      { (inBlock last false toks [0] none []).emit last .textEnd with ended := true } := by
    change (inBlock last true toks [0] start []).fetchEnd = _
    rw [fetchEnd, reset, hclose, dropKey_of_loose hstart]
    rfl
  have hs := Scans.last rfl hfetch rfl
  rw [emit_inBlock] at hs
  exact hs

/-- **The tokens of a text** are those that the scanner comes to from its start. -/
theorem At.scan_eq (h : At (endLine (place 0 0 0 text)) ts true [] [0] 0 0 text) :
    scan (place 0 0 0 text) = ts :=
  (h 0 none loose_none).run_eq (Nat.lt_succ_self _)

end

end Derw.Yaml.Scanner

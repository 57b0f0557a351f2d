import Derw.Name.Usage
import Mathlib.Data.List.TakeWhile

/-!
# Proofs/Reader/Token — how the text of a program falls into tokens

The target is read in two steps, and this is the first: a text falls into words, numerals and marks,
at each place the longest that fits, with blanks between them dropped. The one trap is that a
numeral may end in a dot. In `1.concat(xs)` the dot belongs to the `1`, and a numeral must not run
into a word, so that text is `malformed` where `x.concat(xs)` and `1.5.concat(xs)` are not.

`lex_word`, `lex_number` and `lex_mark` say what one token in front of a text adds to the tokens of
the rest; `lex_integer_dot` is the trap.
-/

namespace Derw.Script.Reader

/-- What a text of the target falls into. -/
inductive Token
  /-- A name or a keyword. -/
  | word (text : String)
  | number (text : String)
  | mark (text : String)
  /-- A numeral that runs into the next token, or a character that starts no token. -/
  | malformed (text : String)
  deriving DecidableEq, Repr

/-- Whether it is no token of the target. -/
def Token.isMalformed : Token → Bool
  | malformed _ => true
  | word _ | number _ | mark _ => false

/-! ## Characters -/

/-- White space and line ends. The next-line character is not among them, the byte-order mark is. -/
def spaces : List Nat :=
  [0x09, 0x0A, 0x0B, 0x0C, 0x0D, 0x20, 0xA0, 0x1680, 0x2000, 0x2001, 0x2002, 0x2003, 0x2004, 0x2005,
    0x2006, 0x2007, 0x2008, 0x2009, 0x200A, 0x2028, 0x2029, 0x202F, 0x205F, 0x3000, 0xFEFF]

/-- Irreducible, because unification would compare the code points one by one. -/
@[irreducible] def isSpace (c : Char) : Bool := spaces.contains c.toNat

def startsWord (c : Char) : Bool := Name.startsName c

def continuesWord (c : Char) : Bool := startsWord c || Text.isDigit c

/-- The marks, each before those it starts with. The two that open a comment are marks that no
expression has. -/
def marks : List String :=
  [">>>=", "...", "===", "!==", "**=", "<<=", ">>=", ">>>", "&&=", "||=", "??=", "=>", "==", "!=",
    "<=", ">=", "&&", "||", "??", "?.", "++", "--", "+=", "-=", "*=", "/=", "%=", "&=", "|=", "^=",
    "<<", ">>", "**", "//", "/*", "\x7b", "\x7d", "(", ")", "[", "]", ".", ";", ",", "<", ">", "+",
    "-", "*", "/", "%", "&", "|", "^", "!", "~", "?", ":", "="]

/-! ## Numerals -/

/-- A dot with the digits after it, and what follows. -/
def fraction : List Char → List Char × List Char
  | '.' :: cs => ('.' :: cs.takeWhile Char.isDigit, cs.dropWhile Char.isDigit)
  | cs => ([], cs)

def isSign (c : Char) : Bool := c == '+' || c == '-'

def isExponentLetter (c : Char) : Bool := c == 'e' || c == 'E'

/-- A power of ten, and what follows. Without a digit it is none. -/
def exponent : List Char → List Char × List Char
  | [] => ([], [])
  | e :: cs =>
    let sign := (cs.take 1).filter isSign
    let digits := cs.drop sign.length
    if isExponentLetter e && digits.head?.any Char.isDigit then
      (e :: sign ++ digits.takeWhile Char.isDigit, digits.dropWhile Char.isDigit)
    else ([], e :: cs)

/-- The longest numeral in front of a text, and what follows. -/
def numeral (cs : List Char) : List Char × List Char :=
  let f := fraction (cs.dropWhile Char.isDigit)
  let x := exponent f.2
  (cs.takeWhile Char.isDigit ++ f.1 ++ x.1, x.2)

/-- Whether digits follow a zero in front. -/
def hasLeadingZero : List Char → Bool
  | '0' :: d :: _ => d.isDigit
  | _ => false

/-- Whether a text starts like a numeral: with a digit, or with a dot and a digit. -/
def startsNumeral (c : Char) (cs : List Char) : Bool :=
  c.isDigit || (c == '.' && cs.head?.any Char.isDigit)

/-! ## Tokens -/

/-- The token that starts with `c`, and what follows it. -/
def nextToken (c : Char) (cs : List Char) : Token × List Char :=
  if startsWord c then
    (.word (String.ofList (c :: cs.takeWhile continuesWord)), cs.dropWhile continuesWord)
  else if startsNumeral c cs then
    let n := numeral (c :: cs)
    let text := String.ofList n.1
    (if hasLeadingZero n.1 || n.2.head?.any continuesWord then .malformed text else .number text,
      n.2)
  else match marks.find? (·.toList.isPrefixOf (c :: cs)) with
    | some m => (.mark m, cs.drop (m.length - 1))
    | none => (.malformed c.toString, cs)

/-- The readers of a numeral's parts leave no more than they were given. -/
theorem length_fraction_le (cs : List Char) : (fraction cs).2.length ≤ cs.length := by
  unfold fraction
  split
  next cs => exact Nat.le_succ_of_le (List.dropWhile_sublist _).length_le
  next => exact Nat.le_refl _

theorem length_exponent_le (cs : List Char) : (exponent cs).2.length ≤ cs.length := by
  cases cs with
  | nil => exact Nat.le_refl _
  | cons e cs =>
    simp only [exponent]
    split
    · exact ((List.dropWhile_sublist _).trans (List.drop_sublist _ _)).length_le.trans
        (Nat.le_succ _)
    · exact Nat.le_refl _

theorem length_numeral_le {c : Char} {cs : List Char} (h : startsNumeral c cs = true) :
    (numeral (c :: cs)).2.length ≤ cs.length := by
  refine (length_exponent_le _).trans ?_
  by_cases hc : c.isDigit = true
  · rw [List.dropWhile_cons_of_pos hc]
    exact (length_fraction_le _).trans (List.dropWhile_sublist _).length_le
  · rw [List.dropWhile_cons_of_neg hc]
    obtain rfl : c = '.' := by
      simp only [startsNumeral, hc, Bool.false_or, Bool.and_eq_true, beq_iff_eq] at h
      exact h.1
    exact (List.dropWhile_sublist _).length_le

/-- The reader of a token leaves at most what is behind its first character, so `lex` ends. -/
theorem length_nextToken_le (c : Char) (cs : List Char) :
    (nextToken c cs).2.length ≤ cs.length := by
  unfold nextToken
  split
  · exact (List.dropWhile_sublist _).length_le
  · split
    next h => exact length_numeral_le h
    next =>
      split
      · exact (List.drop_sublist _ _).length_le
      · exact Nat.le_refl _

/-- The tokens of a text. -/
def lex : List Char → List Token
  | [] => []
  | c :: cs => if isSpace c then lex cs else (nextToken c cs).1 :: lex (nextToken c cs).2
termination_by cs => cs.length
decreasing_by
  · exact Nat.lt_succ_self _
  · exact Nat.lt_succ_of_le (length_nextToken_le c cs)

/-! ## Reading from the front -/

section

variable {p : Char → Bool} {cs rest : List Char}

/-- The longest run of such characters ends where another one follows. -/
theorem takeWhile_append_stop (h : ∀ c ∈ cs, p c = true) (hr : ∀ c ∈ rest.head?, p c = false) :
    (cs ++ rest).takeWhile p = cs := by
  rw [List.takeWhile_append_of_pos h]
  cases rest with
  | nil => simp
  | cons c rest => simp [hr c rfl]

theorem dropWhile_append_stop (h : ∀ c ∈ cs, p c = true) (hr : ∀ c ∈ rest.head?, p c = false) :
    (cs ++ rest).dropWhile p = rest := by
  rw [List.dropWhile_append_of_pos h]
  cases rest with
  | nil => rfl
  | cons c rest => simp [hr c rfl]

end

/-- Where among the code points white space, digits and marks stand: between the letters. -/
def betweenLetters (n : Nat) : Bool :=
  [(0, 0x40), (0x5B, 0x60), (0x7B, 0xA9), (0x1680, 0x1680), (0x2000, 0x206F), (0x3000, 0x3000),
    (0xFEFF, 0xFEFF)].any fun gap => gap.1 ≤ n && n ≤ gap.2

/-- No letter lies between the ranges of the letters. -/
theorem isLetter_of_betweenLetters {c : Char} (h : betweenLetters c.toNat = true) :
    Text.isLetter c = false := by
  refine List.any_eq_false.mpr fun r hr => ?_
  have hgap : ∀ r ∈ Text.letters, (0x40 < r.lo ∧ (r.hi < 0x5B ∨ 0x60 < r.lo)) ∧
      (r.hi < 0x7B ∨ 0xA9 < r.lo) ∧ (r.hi < 0x1680 ∨ 0x1680 < r.lo) ∧
      (r.hi < 0x2000 ∨ 0x206F < r.lo) ∧ (r.hi < 0x3000 ∨ 0x3000 < r.lo) ∧
      (r.hi < 0xFEFF ∨ 0xFEFF < r.lo) := by decide +kernel
  have := hgap r hr
  simp only [betweenLetters, List.any_cons, List.any_nil, Bool.or_eq_true, Bool.and_eq_true,
    decide_eq_true_eq, Bool.or_false] at h
  simp only [Text.CharRun.contains, Bool.and_eq_true, decide_eq_true_eq, not_and]
  omega

/-- Only letters, the underscore and the dollar sign start a word. -/
theorem startsWord_eq_false {c : Char} (h : betweenLetters c.toNat = true) (h1 : c ≠ '_')
    (h2 : c ≠ '$') : startsWord c = false := by
  simp [startsWord, Name.startsName, isLetter_of_betweenLetters h, h1, h2]

section

variable {c : Char}

theorem toNat_of_isDigit (h : c.isDigit = true) : 0x30 ≤ c.toNat ∧ c.toNat ≤ 0x39 := by
  simp only [Char.isDigit, Bool.and_eq_true, decide_eq_true_eq, UInt32.le_iff_toNat_le] at h
  exact h

theorem startsWord_of_isDigit (h : c.isDigit = true) : startsWord c = false := by
  have hn := toNat_of_isDigit h
  refine startsWord_eq_false ?_ (by rintro rfl; simp at hn) (by rintro rfl; simp at hn)
  simp only [betweenLetters, List.any_cons, Bool.or_eq_true, Bool.and_eq_true, decide_eq_true_eq]
  omega

/-- A digit starts no word. -/
theorem isDigit_of_startsWord (h : startsWord c = true) : c.isDigit = false := by
  rw [← Bool.not_eq_true]
  exact fun hd => absurd (startsWord_of_isDigit hd) (by simp [h])

theorem continuesWord_of_isDigit (h : c.isDigit = true) : continuesWord c = true := by
  have hn := toNat_of_isDigit h
  have hd : Text.isDigit c = true := by
    refine List.any_eq_true.mpr ⟨.range 0x30 0x39, by simp [Text.decimalDigits], ?_⟩
    simp [Text.CharRun.contains, Text.CharRun.range, hn.1, hn.2, Nat.mod_one]
  rw [continuesWord, hd, Bool.or_true]

theorem isDigit_eq_false (h : continuesWord c = false) : c.isDigit = false := by
  rw [← Bool.not_eq_true]
  exact fun hd => absurd (continuesWord_of_isDigit hd) (by simp [h])

theorem mem_spaces (h : isSpace c = true) : c.toNat ∈ spaces := by
  rwa [isSpace, List.contains_iff_mem] at h

/-- No blank starts a word. -/
theorem isSpace_of_startsWord (h : startsWord c = true) : isSpace c = false := by
  rw [← Bool.not_eq_true]
  intro hs
  have hall : ∀ n ∈ spaces, betweenLetters n = true ∧ n ≠ '_'.toNat ∧ n ≠ '$'.toNat := by
    decide +kernel
  obtain ⟨hbetween, h1, h2⟩ := hall _ (mem_spaces hs)
  rw [startsWord_eq_false hbetween (fun hc => h1 (congrArg _ hc)) fun hc => h2 (congrArg _ hc)] at h
  cases h

theorem isSpace_of_isDigit (h : c.isDigit = true) : isSpace c = false := by
  rw [← Bool.not_eq_true]
  intro hs
  have hall : ∀ n ∈ spaces, n < 0x30 ∨ 0x39 < n := by decide
  have := hall _ (mem_spaces hs)
  have := toNat_of_isDigit h
  omega

/-- Blanks are skipped. -/
theorem lex_space (h : isSpace c = true) (cs : List Char) : lex (c :: cs) = lex cs := by
  rw [lex, if_pos h]

/-- Any other character starts a token. -/
theorem lex_cons (h : isSpace c = false) (cs : List Char) :
    lex (c :: cs) = (nextToken c cs).1 :: lex (nextToken c cs).2 := by
  rw [lex, if_neg (by simp [h])]

end

/-! ## Words -/

/-- A name of the target. -/
def isName (text : String) : Bool :=
  match text.toList with
  | [] => false
  | c :: cs => startsWord c && cs.all continuesWord

/-- A name is a character that starts a word, and others that continue it. -/
theorem exists_cons_of_isName {w : String} (hw : isName w = true) :
    ∃ c cs, w.toList = c :: cs ∧ startsWord c = true ∧ ∀ d ∈ cs, continuesWord d = true := by
  unfold isName at hw
  split at hw
  next => cases hw
  next c cs hcs =>
    obtain ⟨hc, hall⟩ := Bool.and_eq_true_iff.mp hw
    exact ⟨c, cs, hcs, hc, List.all_eq_true.mp hall⟩

/-- **A word ends where nothing continues it.** -/
theorem lex_word {w : String} {rest : List Char} (hw : isName w = true)
    (hr : ∀ c ∈ rest.head?, continuesWord c = false) :
    lex (w.toList ++ rest) = .word w :: lex rest := by
  obtain ⟨c, cs, hcs, hc, hall⟩ := exists_cons_of_isName hw
  have htext : String.ofList (c :: cs) = w := by rw [← hcs, String.ofList_toList]
  rw [hcs, List.cons_append, lex_cons (isSpace_of_startsWord hc), nextToken, if_pos hc,
    takeWhile_append_stop hall hr, dropWhile_append_stop hall hr, htext]

/-! ## Numbers -/

/-- A decimal numeral: digits, a fraction and a power of ten, of which some may be missing. -/
structure Numeral where
  whole : List Char
  frac : List Char
  exp : List Char
  whole_digits : ∀ c ∈ whole, c.isDigit = true
  frac_shape : frac = [] ∨ ∃ ds, frac = '.' :: ds ∧ ∀ c ∈ ds, c.isDigit = true
  exp_shape : exp = [] ∨ ∃ e sign d ds, exp = e :: (sign ++ d :: ds) ∧ isExponentLetter e = true ∧
    (sign = [] ∨ ∃ s, isSign s = true ∧ sign = [s]) ∧ ∀ c ∈ d :: ds, c.isDigit = true
  /-- There is a digit before the dot or right after it. -/
  starts : whole ≠ [] ∨ ∃ d ds, frac = '.' :: d :: ds
  no_leading_zero : hasLeadingZero whole = false

namespace Numeral

/-- The characters of a numeral. -/
def text (n : Numeral) : List Char := n.whole ++ n.frac ++ n.exp

variable {n : Numeral} {rest : List Char}

/-- The exponent ends where no word goes on. -/
theorem exponent_append (hr : ∀ c ∈ rest.head?, continuesWord c = false) :
    exponent (n.exp ++ rest) = (n.exp, rest) := by
  rcases n.exp_shape with he | ⟨e, sign, d, ds, he, hletter, hsign, hdigits⟩
  · rw [he, List.nil_append]
    cases rest with
    | nil => rfl
    | cons c rest =>
      have hc : isExponentLetter c = false := by
        rw [← Bool.not_eq_true]
        intro hc
        rcases (by simpa [isExponentLetter] using hc : c = 'e' ∨ c = 'E') with rfl | rfl <;>
          exact absurd (hr _ rfl) (by decide +kernel)
      simp [exponent, hc]
  · have hd : d.isDigit = true := hdigits d List.mem_cons_self
    have hr : ∀ c ∈ rest.head?, c.isDigit = false := fun c hc => isDigit_eq_false (hr c hc)
    have hsplit : ((sign ++ d :: (ds ++ rest)).take 1).filter isSign = sign := by
      rcases hsign with rfl | ⟨s, hs, rfl⟩
      · have : isSign d = false := by
          rw [← Bool.not_eq_true]
          intro hs
          rcases (by simpa [isSign] using hs : d = '+' ∨ d = '-') with rfl | rfl <;>
            exact absurd hd (by decide)
        simp [this]
      · simp [hs]
    rw [he, List.cons_append, List.append_assoc, List.cons_append]
    simp only [exponent, hsplit, List.drop_left, List.head?_cons, hletter, hd, Option.any_some,
      Bool.and_true, if_true]
    have hds : d :: (ds ++ rest) = (d :: ds) ++ rest := rfl
    rw [hds, takeWhile_append_stop hdigits hr, dropWhile_append_stop hdigits hr]
    rfl

/-- What follows the digits before or after the dot is no digit. -/
theorem head?_exp_append (hr : ∀ c ∈ rest.head?, continuesWord c = false) :
    ∀ c ∈ (n.exp ++ rest).head?, c.isDigit = false := by
  intro c hc
  rcases n.exp_shape with he | ⟨e, sign, d, ds, he, hletter, -, -⟩
  · rw [he, List.nil_append] at hc
    exact isDigit_eq_false (hr c hc)
  · obtain rfl : e = c := by simpa [he] using hc
    rcases (by simpa [isExponentLetter] using hletter : e = 'e' ∨ e = 'E') with rfl | rfl <;> decide

/-- So does the fraction, if what follows it is no dot. -/
theorem fraction_append (hr : ∀ c ∈ rest.head?, continuesWord c = false)
    (hdot : n.frac = [] → (n.exp ++ rest).head? ≠ some '.') :
    fraction (n.frac ++ (n.exp ++ rest)) = (n.frac, n.exp ++ rest) := by
  rcases n.frac_shape with hf | ⟨ds, hf, hdigits⟩
  · rw [hf, List.nil_append]
    unfold fraction
    split
    next cs hcs => exact absurd (by rw [hcs]; rfl) (hdot hf)
    next => rfl
  · have hstop := head?_exp_append (n := n) hr
    rw [hf, List.cons_append, fraction, takeWhile_append_stop hdigits hstop,
      dropWhile_append_stop hdigits hstop]

/-- No digit follows the whole part. -/
theorem head?_frac_append (hr : ∀ c ∈ rest.head?, continuesWord c = false) :
    ∀ c ∈ (n.frac ++ (n.exp ++ rest)).head?, c.isDigit = false := by
  intro c hc
  rcases n.frac_shape with hf | ⟨ds, hf, -⟩
  · rw [hf, List.nil_append] at hc
    exact head?_exp_append hr c hc
  · obtain rfl : '.' = c := by simpa [hf] using hc
    decide

/-- A numeral ends where nothing continues it. A dot continues it if it is a whole number. -/
theorem numeral_append (hr : ∀ c ∈ rest.head?, continuesWord c = false)
    (hdot : n.frac = [] → n.exp = [] → rest.head? ≠ some '.') :
    numeral (n.text ++ rest) = (n.text, rest) := by
  have hstop := head?_frac_append (n := n) hr
  have hdot : n.frac = [] → (n.exp ++ rest).head? ≠ some '.' := by
    intro hf
    rcases n.exp_shape with he | ⟨e, sign, d, ds, he, hletter, -, -⟩
    · rw [he, List.nil_append]
      exact hdot hf he
    · rintro hc
      obtain rfl : e = '.' := by simpa [he] using hc
      exact absurd hletter (by decide)
  rw [text, List.append_assoc, List.append_assoc, numeral,
    takeWhile_append_stop n.whole_digits hstop, dropWhile_append_stop n.whole_digits hstop,
    fraction_append hr hdot]
  simp only [exponent_append hr, List.append_assoc]

/-- A numeral starts with a digit, or with a dot before one. -/
theorem exists_startsNumeral (n : Numeral) (rest : List Char) :
    ∃ c cs, n.text ++ rest = c :: cs ∧ startsNumeral c cs = true ∧ isSpace c = false ∧
      startsWord c = false := by
  cases hw : n.whole with
  | cons c cs =>
    have hd : c.isDigit = true := n.whole_digits c (by rw [hw]; exact List.mem_cons_self)
    exact ⟨c, cs ++ n.frac ++ n.exp ++ rest, by simp [text, hw], by simp [startsNumeral, hd],
      isSpace_of_isDigit hd, startsWord_of_isDigit hd⟩
  | nil =>
    obtain ⟨d, ds, hf⟩ := n.starts.resolve_left (· hw)
    have hd : d.isDigit = true := by
      obtain ⟨ds', h, hdigits⟩ := n.frac_shape.resolve_left (by rw [hf]; simp)
      obtain rfl : d :: ds = ds' := (List.cons.inj (hf.symm.trans h)).2
      exact hdigits d List.mem_cons_self
    exact ⟨'.', d :: (ds ++ n.exp ++ rest), by simp [text, hw, hf], by simp [startsNumeral, hd],
      by decide +kernel, by decide +kernel⟩

/-- A numeral of this form has no zero in front of another digit. -/
theorem hasLeadingZero_text (n : Numeral) : hasLeadingZero n.text = false := by
  have htail := @head?_frac_append n [] (by simp)
  rw [List.append_nil] at htail
  have hzero := n.no_leading_zero
  rw [text, List.append_assoc]
  match hw : n.whole with
  | [] =>
    obtain ⟨d, ds, hf⟩ := n.starts.resolve_left (· hw)
    rw [hf]
    rfl
  | [c] =>
    unfold hasLeadingZero
    split
    next d cs h =>
      have h : n.frac ++ n.exp = d :: cs := (List.cons.inj h).2
      exact htail d (by rw [h]; rfl)
    next => rfl
  | c :: d :: ds =>
    rw [hw] at hzero
    unfold hasLeadingZero at hzero ⊢
    split
    next d' cs h =>
      obtain ⟨hc, h⟩ := List.cons.inj h
      obtain ⟨rfl, -⟩ := List.cons.inj h
      rwa [hc] at hzero
    next => rfl

end Numeral

section

variable {n : Numeral} {rest : List Char}

/-- The first token of a numeral is what the reader of numerals takes. -/
theorem lex_numeral (n : Numeral) (rest : List Char) :
    lex (n.text ++ rest) = (
      let m := numeral (n.text ++ rest)
      if hasLeadingZero m.1 || m.2.head?.any continuesWord then .malformed (String.ofList m.1)
      else .number (String.ofList m.1)) :: lex (numeral (n.text ++ rest)).2 := by
  obtain ⟨c, cs, heq, hnum, hspace, hword⟩ := n.exists_startsNumeral rest
  rw [heq, lex_cons hspace, nextToken, if_neg (by simp [hword]), if_pos hnum]

/-- **A numeral ends where nothing continues it**, be it a letter, a digit or, after a whole number,
a dot. -/
theorem lex_number (hr : ∀ c ∈ rest.head?, continuesWord c = false)
    (hdot : n.frac = [] → n.exp = [] → rest.head? ≠ some '.') :
    lex (n.text ++ rest) = .number (String.ofList n.text) :: lex rest := by
  have hany : rest.head?.any continuesWord = false := by
    cases rest with
    | nil => rfl
    | cons c rest => exact hr c rfl
  rw [lex_numeral, Numeral.numeral_append hr hdot]
  simp only [n.hasLeadingZero_text, hany, Bool.or_self, Bool.false_eq_true, if_false]

/-- **A whole number takes the dot behind it**, and then runs into the word that follows. -/
theorem lex_integer_dot (hfrac : n.frac = []) (hexp : n.exp = []) {c : Char}
    (hc : startsWord c = true) (he : isExponentLetter c = false) (cs : List Char) :
    lex (n.text ++ '.' :: c :: cs)
      = .malformed (String.ofList (n.text ++ ['.'])) :: lex (c :: cs) := by
  have htext : n.text = n.whole := by
    rw [Numeral.text, hfrac, hexp, List.append_nil, List.append_nil]
  have hd : c.isDigit = false := isDigit_of_startsWord hc
  have hnum : numeral (n.text ++ '.' :: c :: cs) = (n.text ++ ['.'], c :: cs) := by
    have hdot : ∀ d ∈ ('.' :: c :: cs).head?, d.isDigit = false := by
      intro d hd
      obtain rfl : '.' = d := by simpa using hd
      decide
    rw [htext, numeral, takeWhile_append_stop n.whole_digits hdot,
      dropWhile_append_stop n.whole_digits hdot]
    simp [fraction, exponent, hd, he]
  have hcont : continuesWord c = true := by rw [continuesWord, hc, Bool.true_or]
  rw [lex_numeral, hnum]
  simp only [List.head?_cons, Option.any_some, hcont, Bool.or_true, if_true]

end

/-! ## Marks -/

/-- A mark starts with no character of another kind. -/
theorem start_of_mark {m : String} (hm : m ∈ marks) {c : Char} {cs : List Char}
    (h : m.toList.isPrefixOf (c :: cs) = true) :
    isSpace c = false ∧ startsWord c = false ∧ c.isDigit = false := by
  have hall : ∀ m ∈ marks, m.toList.head?.any (fun c => !isSpace c && !c.isDigit &&
      (betweenLetters c.toNat && (c != '_' && c != '$'))) = true := by decide +kernel
  obtain ⟨d, hhead, hd⟩ := (Option.any_eq_true _ _).mp (hall m hm)
  obtain ⟨ds, hm⟩ := List.head?_eq_some_iff.mp hhead
  rw [hm] at h
  obtain rfl : d = c := by
    simp only [List.isPrefixOf, Bool.and_eq_true, beq_iff_eq] at h
    exact h.1
  simp only [Bool.and_eq_true, Bool.not_eq_true', bne_iff_ne] at hd
  obtain ⟨⟨hspace, hdigit⟩, hbetween, h1, h2⟩ := hd
  exact ⟨hspace, startsWord_eq_false hbetween h1 h2, hdigit⟩

/-- The mark in front of a text is the first of `marks` that the text starts with. -/
theorem lex_of_find {c : Char} {cs : List Char} {m : String}
    (hm : marks.find? (·.toList.isPrefixOf (c :: cs)) = some m)
    (hdot : c = '.' → cs.head?.any Char.isDigit = false) :
    lex (c :: cs) = .mark m :: lex (cs.drop (m.length - 1)) := by
  obtain ⟨hspace, hword, hdigit⟩ :=
    start_of_mark (List.mem_of_find?_eq_some hm) (by simpa using List.find?_some hm)
  have hnum : startsNumeral c cs = false := by
    rw [startsNumeral, hdigit, Bool.false_or, Bool.and_eq_false_imp]
    exact fun hc => hdot (by simpa using hc)
  rw [lex_cons hspace, nextToken, if_neg (by simp [hword]), if_neg (by simp [hnum]), hm]

/-- The marks that no other mark starts with. -/
def closedMarks : List String := ["(", ")", "[", "]", "\x7b", "\x7d", ",", ":"]

/-- A mark that is not the start of another one. -/
theorem lex_closedMark {m : String} (h : m ∈ closedMarks) (rest : List Char) :
    lex (m.toList ++ rest) = .mark m :: lex rest := by
  simp only [closedMarks, List.mem_cons, List.not_mem_nil, or_false] at h
  rcases h with rfl | rfl | rfl | rfl | rfl | rfl | rfl | rfl <;>
    exact lex_of_find rfl (by rintro ⟨⟩)

theorem lex_spread (rest : List Char) : lex ("...".toList ++ rest) = .mark "..." :: lex rest :=
  lex_of_find rfl fun _ => rfl

/-- The marks that stand between blanks. -/
def spacedMarks : List String :=
  ["||", "&&", "===", "!==", "<", ">", "<=", ">=", "+", "-", "*", "/", "%", "?", ":"]

/-- A mark with a blank behind it, which ends it. -/
theorem lex_spacedMark {m : String} (h : m ∈ spacedMarks) (rest : List Char) :
    lex (m.toList ++ ' ' :: rest) = .mark m :: lex rest := by
  rw [← lex_space (c := ' ') (by decide +kernel) rest]
  simp only [spacedMarks, List.mem_cons, List.not_mem_nil, or_false] at h
  rcases h with rfl | rfl | rfl | rfl | rfl | rfl | rfl | rfl | rfl | rfl | rfl | rfl | rfl | rfl |
    rfl <;> exact lex_of_find rfl (by rintro ⟨⟩)

/-- A bang that no equals sign follows. -/
theorem lex_bang {rest : List Char} (h : rest.head? ≠ some '=') :
    lex ('!' :: rest) = .mark "!" :: lex rest := by
  refine lex_of_find ?_ (by rintro ⟨⟩)
  cases rest with
  | nil => rfl
  | cons c rest =>
    have hc : ('=' == c) = false := by simpa using fun h' : '=' = c => h (by rw [h']; rfl)
    simp [marks, List.isPrefixOf, hc]

/-- A dot before a name. -/
theorem lex_dot {c : Char} (hc : startsWord c = true) (rest : List Char) :
    lex ('.' :: c :: rest) = .mark "." :: lex (c :: rest) := by
  have hd : c.isDigit = false := isDigit_of_startsWord hc
  have hdot : ('.' == c) = false := by
    simp only [beq_eq_false_iff_ne]
    rintro rfl
    rw [startsWord_eq_false (by decide) (by decide) (by decide)] at hc
    cases hc
  refine lex_of_find ?_ (fun _ => by simp [hd])
  simp [marks, List.isPrefixOf, hdot]

end Derw.Script.Reader

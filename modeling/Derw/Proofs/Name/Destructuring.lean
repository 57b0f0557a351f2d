import Derw.Proofs.Reader.Token
import Derw.Proofs.Text.Cut
import Derw.Script.Match
import Mathlib.Data.List.Forall2

/-!
# Proofs/Name/Destructuring — the names of a destructuring text, read twice

A text such as `{ a, b: c }` goes into the generated program as it stands, so what it declares is
for the target to say: `fieldNames?` reads its tokens. The checker of names reads the same text by
cutting it at commas and colons (`destructuredNames`).

Both find the same names, in the same order, in every flat text: entries of names with blanks
anywhere, or nothing at all.
-/

namespace Derw.Script

open Reader Text

/-! ## The target's reading -/

/-- The names that the entries of a destructuring declare, up to its closing brace. -/
def entryNames? : List Token → Option (List String)
  | [.mark "\x7d"] => some []
  | [.word k, .mark "\x7d"] => some [k]
  | [.word _, .mark ":", .word n, .mark "\x7d"] => some [n]
  | .word k :: .mark "," :: ts => (entryNames? ts).map (k :: ·)
  | .word _ :: .mark ":" :: .word n :: .mark "," :: ts => (entryNames? ts).map (n :: ·)
  | _ => none

/-- The names that a destructuring text declares, if the target can read it. -/
def fieldNames? (text : String) : Option (List String) :=
  match lex text.toList with
  | .mark "\x7b" :: ts => entryNames? ts
  | _ => none

/-! ## Flat texts -/

/-- White space of both readings. Two characters are white space of one only: the next-line
character for the checker, the byte-order mark for the target. -/
def isSpacing (c : Char) : Bool := isBlank c && isSpace c

/-- A name with blanks around it. -/
structure Spaced (cs : List Char) (name : String) : Prop where
  isName : isName name = true
  blanks : ∃ before after, cs = before ++ (name.toList ++ after) ∧
    (∀ c ∈ before, isSpacing c = true) ∧ ∀ c ∈ after, isSpacing c = true

/-- An entry, and the name it declares: `k`, or `k: n`. -/
inductive FlatEntry : List Char → String → Prop
  | short {cs : List Char} {k : String} (hk : Spaced cs k) : FlatEntry cs k
  | renamed {cs ds : List Char} {k n : String} (hk : Spaced cs k) (hn : Spaced ds n) :
    FlatEntry (cs ++ ':' :: ds) n

/-- Entries with commas between them. -/
def commaText : List (List Char) → List Char
  | [] => []
  | [cs] => cs
  | cs :: ds :: css => cs ++ ',' :: commaText (ds :: css)

/-- A flat text, and the names it declares. -/
inductive FlatText : List Char → List String → Prop
  /-- Nothing but blanks. -/
  | blank {cs : List Char} (h : ∀ c ∈ cs, isSpacing c = true) : FlatText cs []
  /-- Braces with nothing but blanks between them. -/
  | empty {before inner after : List Char} (hb : ∀ c ∈ before, isSpacing c = true)
    (hi : ∀ c ∈ inner, isSpacing c = true) (ha : ∀ c ∈ after, isSpacing c = true) :
    FlatText (before ++ '\x7b' :: (inner ++ '\x7d' :: after)) []
  | entries {before after : List Char} {css : List (List Char)} {names : List String}
    (hb : ∀ c ∈ before, isSpacing c = true) (ha : ∀ c ∈ after, isSpacing c = true)
    (h : List.Forall₂ FlatEntry css names) (hne : css ≠ []) :
    FlatText (before ++ '\x7b' :: (commaText css ++ '\x7d' :: after)) names

/-! ## Characters -/

/-- Blanks lie between the ranges of the letters. -/
theorem betweenLetters_of_isBlank {c : Char} (h : isBlank c = true) :
    betweenLetters c.toNat = true := by
  simp only [isBlank, Bool.or_eq_true, Bool.and_eq_true, decide_eq_true_eq, beq_iff_eq] at h
  simp only [betweenLetters, List.any_cons, List.any_nil, Bool.or_eq_true, Bool.and_eq_true,
    decide_eq_true_eq, Bool.or_false]
  omega

theorem isDigit_of_isBlank {c : Char} (h : isBlank c = true) : Text.isDigit c = false := by
  have hgap : ∀ r ∈ decimalDigits, 0x20 < r.lo ∧ (r.hi < 0x85 ∨ 0xA0 < r.lo) ∧
      (r.hi < 0x1680 ∨ 0x1680 < r.lo) ∧ (r.hi < 0x2000 ∨ 0x205F < r.lo) ∧
      (r.hi < 0x3000 ∨ 0x3000 < r.lo) := by decide +kernel
  refine List.any_eq_false.mpr fun r hr => ?_
  have := hgap r hr
  simp only [isBlank, Bool.or_eq_true, Bool.and_eq_true, decide_eq_true_eq, beq_iff_eq] at h
  simp only [CharRun.contains, Bool.and_eq_true, decide_eq_true_eq, not_and]
  omega

/-- No blank continues a name. -/
theorem continuesWord_of_isBlank {c : Char} (h : isBlank c = true) : continuesWord c = false := by
  have hstart : startsWord c = false :=
    startsWord_eq_false (betweenLetters_of_isBlank h) (by rintro rfl; exact absurd h (by decide))
      (by rintro rfl; exact absurd h (by decide))
  rw [continuesWord, hstart, isDigit_of_isBlank h]
  rfl

theorem isBlank_of_continuesWord {c : Char} (h : continuesWord c = true) : isBlank c = false := by
  rw [← Bool.not_eq_true]
  intro hb
  rw [continuesWord_of_isBlank hb] at h
  cases h

/-- A name continues a word in each of its characters. -/
theorem continuesWord_of_mem {w : String} (hw : isName w = true) :
    ∀ c ∈ w.toList, continuesWord c = true := by
  obtain ⟨c, cs, hcs, hc, hall⟩ := exists_cons_of_isName hw
  rw [hcs]
  refine List.forall_mem_cons.mpr ⟨?_, hall⟩
  rw [continuesWord, hc, Bool.true_or]

theorem toList_ne_nil {w : String} (hw : isName w = true) : w.toList ≠ [] := by
  obtain ⟨c, cs, hcs, -⟩ := exists_cons_of_isName hw
  rw [hcs]
  exact List.cons_ne_nil c cs

/-- The characters that divide a destructuring text. -/
def dividers : List Char := ['\x7b', '\x7d', ',', ':']

/-- A divider is neither part of a word nor blank. -/
theorem divider_not {d : Char} (h : d ∈ dividers) :
    continuesWord d = false ∧ isBlank d = false := by
  have hall : dividers.all (fun c => !continuesWord c && !isBlank c) = true := by decide +kernel
  simpa using List.all_eq_true.mp hall d h

/-- No divider occurs in a key. -/
theorem Spaced.not_mem {cs : List Char} {k : String} (h : Spaced cs k) {d : Char}
    (hd : d ∈ dividers) : d ∉ cs := by
  obtain ⟨before, after, rfl, hb, ha⟩ := h.blanks
  obtain ⟨hword, hblank⟩ := divider_not hd
  have hspacing : isSpacing d ≠ true := by
    rw [isSpacing, hblank]
    exact Bool.false_ne_true
  have hname : d ∉ k.toList := fun hmem => by
    rw [continuesWord_of_mem h.isName d hmem] at hword
    cases hword
  rw [List.mem_append, List.mem_append, not_or, not_or]
  exact ⟨fun hmem => hspacing (hb d hmem), hname, fun hmem => hspacing (ha d hmem)⟩

/-- So the entries are what lies between the commas. -/
theorem FlatEntry.comma_not_mem {cs : List Char} {n : String} (h : FlatEntry cs n) : ',' ∉ cs := by
  cases h with
  | short hk => exact hk.not_mem (by decide)
  | renamed hk hn =>
    rw [List.mem_append, List.mem_cons, not_or, not_or]
    exact ⟨hk.not_mem (by decide), by decide, hn.not_mem (by decide)⟩

/-! ## Cutting at commas and colons -/

/-- Trimming takes the blanks at both ends and nothing else. -/
theorem trimmed_append {before cs after : List Char} (hb : ∀ c ∈ before, isBlank c = true)
    (ha : ∀ c ∈ after, isBlank c = true) (hne : cs ≠ [])
    (hfirst : ∀ c ∈ cs.head?, isBlank c = false) (hlast : ∀ c ∈ cs.getLast?, isBlank c = false) :
    trimmed (before ++ (cs ++ after)) = cs := by
  have hhead : ∀ c ∈ (cs ++ after).head?, isBlank c = false := by
    rw [List.head?_append_of_ne_nil _ hne]
    exact hfirst
  have hend : ∀ c ∈ cs.reverse.head?, isBlank c = false := by
    rw [List.head?_reverse]
    exact hlast
  rw [trimmed, strip, dropWhile_append_stop hb hhead, List.reverse_append,
    dropWhile_append_stop (fun c hc => ha c (List.mem_reverse.mp hc)) hend, List.reverse_reverse]

theorem trimmed_blank {cs : List Char} (h : ∀ c ∈ cs, isBlank c = true) : trimmed cs = [] := by
  rw [trimmed, strip, List.dropWhile_eq_nil_iff.mpr h]
  rfl

theorem isBlank_of_isSpacing {cs : List Char} (h : ∀ c ∈ cs, isSpacing c = true) :
    ∀ c ∈ cs, isBlank c = true := fun c hc => (Bool.and_eq_true_iff.mp (h c hc)).1

/-- A key is what trimming leaves of it. -/
theorem Spaced.trimmed {cs : List Char} {k : String} (h : Spaced cs k) :
    trimmed cs = k.toList := by
  obtain ⟨before, after, rfl, hb, ha⟩ := h.blanks
  have hword : ∀ c ∈ k.toList, isBlank c = false := fun c hc =>
    isBlank_of_continuesWord (continuesWord_of_mem h.isName c hc)
  exact trimmed_append (isBlank_of_isSpacing hb) (isBlank_of_isSpacing ha)
    (toList_ne_nil h.isName) (fun c hc => hword c (List.mem_of_mem_head? hc))
    fun c hc => hword c (List.mem_of_mem_getLast? hc)

/-- The commas of a flat text are those between its entries. -/
theorem splitWhere_commaText {css : List (List Char)} {names : List String}
    (h : List.Forall₂ FlatEntry css names) (hne : css ≠ []) :
    splitWhere (· == ',') (commaText css) = css := by
  have hnot : ∀ {cs n}, FlatEntry cs n → ∀ c ∈ cs, (c == ',') = false := fun hcs c hc => by
    simpa using fun heq : c = ',' => hcs.comma_not_mem (heq ▸ hc)
  induction h with
  | nil => exact absurd rfl hne
  | @cons cs n css names hcs hcss ih =>
    cases hcss with
    | nil => exact splitWhere_of_not (hnot hcs)
    | cons _ _ =>
      rw [commaText, splitWhere_append_cons (hnot hcs) rfl, ih (by simp)]

/-- The first colon is where an entry is cut. -/
theorem cutAt_colon {cs : List Char} (h : ':' ∉ cs) (ds : List Char) :
    cutAt [':'] (cs ++ ':' :: ds) = some (cs, ds) := by
  induction cs with
  | nil => rfl
  | cons c cs ih =>
    rw [List.mem_cons, not_or] at h
    have hc : (':' == c) = false := by simpa using h.1
    rw [List.cons_append, cutAt, ih h.2]
    simp [List.isPrefixOf, hc]

theorem cutAt_of_not_mem {cs : List Char} (h : ':' ∉ cs) : cutAt [':'] cs = none := by
  induction cs with
  | nil => rfl
  | cons c cs ih =>
    rw [List.mem_cons, not_or] at h
    have hc : (':' == c) = false := by simpa using h.1
    rw [cutAt, ih h.2]
    simp [List.isPrefixOf, hc]

/-- What the checker takes from a piece between two commas. -/
def pieceName? (piece : List Char) : Option String :=
  let bound := match cutAt [':'] piece with
    | some (_, renamed) => renamed
    | none => piece
  if (trimmed bound).isEmpty then none else some (String.ofList (trimmed bound))

/-- The names of the pattern are read piece by piece, between the braces. -/
theorem destructuredNames_eq (fields : String) :
    Name.destructuredNames fields
      = (splitWhere (· == ',') (withoutTail ['\x7d'] (withoutHead ['\x7b']
          (trimmed fields.toList)))).filterMap pieceName? := rfl

/-- A key in blanks is a name, as it is not empty. -/
theorem Spaced.name? {cs : List Char} {k : String} (h : Spaced cs k) :
    (if (Text.trimmed cs).isEmpty then none else some (String.ofList (Text.trimmed cs)))
      = some k := by
  have hne : k.toList.isEmpty = false := by
    rw [List.isEmpty_eq_false_iff]
    exact toList_ne_nil h.isName
  rw [h.trimmed, hne, String.ofList_toList]
  rfl

/-- The name of an entry, with a type behind it or not. -/
theorem FlatEntry.pieceName? {cs : List Char} {n : String} (h : FlatEntry cs n) :
    pieceName? cs = some n := by
  cases h with
  | short hk =>
    rw [Script.pieceName?, cutAt_of_not_mem (hk.not_mem (by decide))]
    exact hk.name?
  | renamed hk hn =>
    rw [Script.pieceName?, cutAt_colon (hk.not_mem (by decide))]
    exact hn.name?

/-- The names of the entries, in their order. -/
theorem filterMap_pieceName? {css : List (List Char)} {names : List String}
    (h : List.Forall₂ FlatEntry css names) : css.filterMap pieceName? = names := by
  induction h with
  | nil => rfl
  | cons hcs _ ih => rw [List.filterMap_cons_some hcs.pieceName?, ih]

theorem withoutHead_brace (cs : List Char) : withoutHead ['\x7b'] ('\x7b' :: cs) = cs := rfl

theorem withoutTail_brace (cs : List Char) : withoutTail ['\x7d'] (cs ++ ['\x7d']) = cs := by
  rw [withoutTail, if_pos (List.isSuffixOf_iff_suffix.mpr (List.suffix_append _ _))]
  simp

/-- The text between braces, of which the inside is given, without the blanks around it. -/
theorem trimmed_braces {before after : List Char} (hb : ∀ c ∈ before, isSpacing c = true)
    (ha : ∀ c ∈ after, isSpacing c = true) (inner : List Char) :
    trimmed (before ++ '\x7b' :: (inner ++ '\x7d' :: after)) = '\x7b' :: (inner ++ ['\x7d']) := by
  have hsplit : before ++ '\x7b' :: (inner ++ '\x7d' :: after)
      = before ++ (('\x7b' :: (inner ++ ['\x7d'])) ++ after) := by simp
  rw [hsplit]
  refine trimmed_append (isBlank_of_isSpacing hb) (isBlank_of_isSpacing ha) (by simp) ?_ ?_
  · intro c hc
    obtain rfl : '\x7b' = c := by simpa using hc
    decide
  · intro c hc
    obtain rfl : '\x7d' = c := by
      rw [← List.cons_append, List.getLast?_concat] at hc
      exact Option.some.inj hc
    decide

/-- **The checker finds the names of a flat text.** -/
theorem destructuredNames_of_flat {fields : String} {names : List String}
    (h : FlatText fields.toList names) : Name.destructuredNames fields = names := by
  rw [destructuredNames_eq]
  generalize fields.toList = cs at h
  cases h with
  | blank hb =>
    rw [trimmed_blank (isBlank_of_isSpacing hb)]
    rfl
  | @empty before inner after hb hi ha =>
    have hcomma : ∀ c ∈ inner, (c == ',') = false := fun c hc => by
      rw [beq_eq_false_iff_ne]
      rintro rfl
      exact absurd (hi _ hc) (by decide +kernel)
    have hcolon : ':' ∉ inner := fun hc => absurd (hi _ hc) (by decide +kernel)
    have hnone : pieceName? inner = none := by
      rw [pieceName?, cutAt_of_not_mem hcolon]
      simp only [trimmed_blank (isBlank_of_isSpacing hi), List.isEmpty_nil, if_true]
    rw [trimmed_braces hb ha, withoutHead_brace, withoutTail_brace, splitWhere_of_not hcomma,
      List.filterMap_cons_none hnone]
    rfl
  | entries hb ha h hne =>
    rw [trimmed_braces hb ha, withoutHead_brace, withoutTail_brace, splitWhere_commaText h hne]
    exact filterMap_pieceName? h

/-! ## Reading tokens -/

/-- Spaces in front of a text are no tokens. -/
theorem lex_spacing {before : List Char} (h : ∀ c ∈ before, isSpacing c = true)
    (rest : List Char) : lex (before ++ rest) = lex rest := by
  induction before with
  | nil => rfl
  | cons c cs ih =>
    obtain ⟨hc, hcs⟩ := List.forall_mem_cons.mp h
    rw [List.cons_append, lex_space (Bool.and_eq_true_iff.mp hc).2, ih hcs]

/-- A key in blanks is one word. -/
theorem Spaced.lex {cs : List Char} {k : String} (h : Spaced cs k) {rest : List Char}
    (hr : ∀ c ∈ rest.head?, continuesWord c = false) :
    lex (cs ++ rest) = .word k :: lex rest := by
  obtain ⟨before, after, rfl, hb, ha⟩ := h.blanks
  have hstop : ∀ c ∈ (after ++ rest).head?, continuesWord c = false := by
    intro c hc
    cases after with
    | nil => exact hr c hc
    | cons d ds =>
      obtain rfl : d = c := by simpa using hc
      exact continuesWord_of_isBlank (isBlank_of_isSpacing ha d List.mem_cons_self)
  rw [List.append_assoc, List.append_assoc, lex_spacing hb, lex_word h.isName hstop,
    lex_spacing ha]

/-- A divider is a mark of its own. -/
theorem lex_divider {d : Char} (hd : d ∈ dividers) (rest : List Char) :
    lex (d :: rest) = .mark d.toString :: lex rest := by
  have hall : dividers.all (closedMarks.contains ·.toString) = true := by decide
  have hmark := List.contains_iff_mem.mp (List.all_eq_true.mp hall d hd)
  have hlex := lex_closedMark hmark rest
  rwa [Char.toString, String.toList_singleton] at hlex

/-- The tokens of an entry, before the comma or brace after it. -/
theorem FlatEntry.lex {cs : List Char} {n : String} (h : FlatEntry cs n) {d : Char}
    (hd : d ∈ dividers) (rest : List Char) :
    lex (cs ++ d :: rest) = .word n :: .mark d.toString :: lex rest ∨
      ∃ k, lex (cs ++ d :: rest)
        = .word k :: .mark ":" :: .word n :: .mark d.toString :: lex rest := by
  have hstop : ∀ {e : Char} {es : List Char}, e ∈ dividers →
      ∀ c ∈ (e :: es).head?, continuesWord c = false := fun he c hc => by
    obtain rfl := Option.some.inj hc
    exact (divider_not he).1
  cases h with
  | short hk =>
    refine Or.inl ?_
    rw [hk.lex (hstop hd), lex_divider hd]
  | @renamed cs ds k n hk hn =>
    refine Or.inr ⟨k, ?_⟩
    rw [List.append_assoc, List.cons_append, hk.lex (hstop (by decide)), lex_divider (by decide),
      hn.lex (hstop hd), lex_divider hd]
    rfl

/-- The target reads the same names, from the tokens. -/
theorem entryNames?_commaText {css : List (List Char)} {names : List String}
    (h : List.Forall₂ FlatEntry css names) (hne : css ≠ []) :
    entryNames? (lex (commaText css ++ ['\x7d'])) = some names := by
  induction h with
  | nil => exact absurd rfl hne
  | @cons cs n css names hcs hcss ih =>
    cases hcss with
    | nil =>
      rw [commaText]
      obtain hlex | ⟨k, hlex⟩ := hcs.lex (d := '\x7d') (by decide) [] <;>
      · rw [hlex, Reader.lex]
        rfl
    | cons _ _ =>
      have ih := ih (by simp)
      rw [commaText, List.append_assoc, List.cons_append]
      obtain hlex | ⟨k, hlex⟩ := hcs.lex (d := ',') (by decide) (commaText _ ++ ['\x7d']) <;>
      · rw [hlex]
        change (entryNames? _).map _ = _
        rw [ih]
        rfl

/-- There is something to read in every entry. -/
theorem FlatEntry.exists_continuesWord {cs : List Char} {n : String} (h : FlatEntry cs n) :
    ∃ c ∈ cs, continuesWord c = true := by
  have hspaced : ∀ {cs k}, Spaced cs k → ∃ c ∈ cs, continuesWord c = true := fun {cs k} hk => by
    obtain ⟨before, after, rfl, -, -⟩ := hk.blanks
    obtain ⟨c, hc⟩ := List.exists_mem_of_ne_nil _ (toList_ne_nil hk.isName)
    exact ⟨c, by simp [hc], continuesWord_of_mem hk.isName c hc⟩
  cases h with
  | short hk => exact hspaced hk
  | renamed hk _ =>
    obtain ⟨c, hc, hword⟩ := hspaced hk
    exact ⟨c, List.mem_append_left _ hc, hword⟩

theorem subset_commaText (cs : List Char) (css : List (List Char)) :
    cs ⊆ commaText (cs :: css) := by
  cases css with
  | nil => exact List.Subset.refl _
  | cons ds css => exact List.subset_append_left _ _

/-- A text between braces is taken over, unless it is `{}` with blanks. -/
theorem fieldsText?_braces {fields : String} {inner : List Char}
    (h : trimmed fields.toList = '\x7b' :: (inner ++ ['\x7d'])) :
    fieldsText? fields = none ∧ (∀ c ∈ inner, c = ' ' ∨ c ∈ dividers) ∨
      fieldsText? fields = some (String.ofList ('\x7b' :: (inner ++ ['\x7d']))) := by
  rw [fieldsText?, h]
  split
  next hnone =>
    refine Or.inl ⟨rfl, fun c hc => ?_⟩
    by_cases hblank : c = ' '
    · exact Or.inl hblank
    · have hfilter : ('\x7b' :: (inner ++ ['\x7d'])).filter (· != ' ') = ['\x7b', '\x7d'] := by
        simpa using hnone
      have hmem : c ∈ ['\x7b', '\x7d'] := by
        rw [← hfilter]
        simp [hc, hblank]
      refine Or.inr ?_
      simp only [List.mem_cons, List.not_mem_nil, or_false] at hmem
      rcases hmem with rfl | rfl <;> decide
  next => exact Or.inr rfl

/-- What stands between the braces is read as entries. -/
theorem fieldNames?_braces (inner : List Char) :
    fieldNames? (String.ofList ('\x7b' :: (inner ++ ['\x7d'])))
      = entryNames? (lex (inner ++ ['\x7d'])) := by
  rw [fieldNames?, String.toList_ofList, lex_divider (by decide)]
  rfl

/-- **The target finds the names of a flat text.** Where the program leaves the declaration out,
there is none. -/
theorem fieldNames?_of_flat {fields : String} {names : List String}
    (h : FlatText fields.toList names) :
    (fieldsText? fields).elim (some []) fieldNames? = some names := by
  generalize hcs : fields.toList = cs at h
  cases h with
  | blank hb =>
    rw [fieldsText?, hcs, trimmed_blank (isBlank_of_isSpacing hb)]
    rfl
  | empty hb hi ha =>
    rcases fieldsText?_braces (hcs ▸ trimmed_braces hb ha _) with ⟨hnone, -⟩ | hsome
    · rw [hnone]
      rfl
    · rw [hsome, Option.elim_some, fieldNames?_braces, lex_spacing hi, lex_divider (by decide),
        Reader.lex]
      rfl
  | entries hb ha h hne =>
    rcases fieldsText?_braces (hcs ▸ trimmed_braces hb ha _) with ⟨-, hinner⟩ | hsome
    · -- a character of a name is left, so the declaration is not left out
      cases h with
      | nil => exact absurd rfl hne
      | cons hentry _ =>
        obtain ⟨c, hc, hword⟩ := hentry.exists_continuesWord
        rcases hinner c (subset_commaText _ _ hc) with rfl | hd
        · exact absurd hword (by decide +kernel)
        · rw [(divider_not hd).1] at hword
          cases hword
    · rw [hsome, Option.elim_some, fieldNames?_braces, entryNames?_commaText h hne]

end Derw.Script

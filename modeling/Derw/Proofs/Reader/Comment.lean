import Derw.Proofs.Reader.Element
import Derw.Script.Program

/-!
# Proofs/Reader/Comment — how far a comment of a module reaches in the program

The text of a comment opens a comment of the target, and the body is put behind it as it is. So what
matters is where the target sees the end: behind `//` at the first end of a line, whichever
character that is, and behind `/*` at the first `*/`. What follows is read as program text, and it
is harmless only if it is blank or opens the next comment itself (`onlyComments_declText`).
Splitting the body into lines and emptying blank ones makes no new `*/` (`not_closes_linesText`).
-/

namespace Derw.Script

open Reader

/-- Whether a text consists of white space and comments. -/
def onlyComments (cs : List Char) : Bool := (elements [] cs).all Element.isComment

theorem onlyComments_space {c : Char} (h : isSpace c = true) (cs : List Char) :
    onlyComments (c :: cs) = onlyComments cs := by
  rw [onlyComments, elements_space h]
  rfl

/-- A text that goes on with a token is not only comments. -/
theorem onlyComments_token {c : Char} (hspace : isSpace c = false) (h : c ∉ openers)
    (cs : List Char) : onlyComments (c :: cs) = false := by
  rw [onlyComments, elements_token hspace h]
  rfl

/-! ## Comments of one line -/

/-- What is left of a text from the end of its first line on. -/
def behindLine (cs : List Char) : List Char := cs.dropWhile (!isLineEnd ·)

theorem onlyComments_line (cs : List Char) :
    onlyComments ('/' :: '/' :: cs) = onlyComments (behindLine cs) := by
  rw [onlyComments, elements_lineComment]
  rfl

theorem behindLine_eq_nil {cs : List Char} (h : cs.any isLineEnd = false) : behindLine cs = [] := by
  refine List.dropWhile_eq_nil_iff.mpr fun c hc => ?_
  simpa using List.any_eq_false.mp h c hc

/-- The end of the line is the last that a comment of one line may reach. -/
theorem behindLine_concat (cs : List Char) :
    behindLine (cs ++ ['\n']) = behindLine cs ++ ['\n'] := by
  rw [behindLine, List.dropWhile_append]
  split
  next h =>
    rw [behindLine, List.isEmpty_iff.mp h]
    rfl
  next => rfl

theorem toList_comment (s : Style) (body : String) :
    (declText s (.comment body)).toList
      = '/' :: '/' :: ' ' :: ((commentBody body).toList ++ ['\n']) := by
  simp [declText, itemsOf, Item.isType, Item.print, Text.join, line, indentation]

theorem onlyComments_comment (s : Style) (body : String) :
    onlyComments (declText s (.comment body)).toList
      = onlyComments (behindLine (commentBody body).toList ++ ['\n']) := by
  have hblank : ∀ cs, behindLine (' ' :: cs) = behindLine cs := fun cs =>
    List.dropWhile_cons_of_pos (by decide)
  rw [toList_comment, onlyComments_line, hblank, behindLine_concat]

/-! ## Comments of many lines -/

/-- Whether a text holds the end of a comment. -/
def closes (cs : List Char) : Bool := Text.occurs "*/".toList cs

/-- What is left of a text behind the first end of a comment. -/
def behindClose (cs : List Char) : List Char :=
  ((Text.cutAt "*/".toList cs).map (·.2)).getD []

theorem onlyComments_block {cs : List Char} (h : closes cs = true) :
    onlyComments ('/' :: '*' :: cs) = onlyComments (behindClose cs) := by
  obtain ⟨cut, hcut⟩ := Option.isSome_iff_exists.mp h
  rw [onlyComments, elements_blockComment hcut, behindClose, hcut]
  rfl

/-- A text without some character does not lie across it. -/
theorem infix_of_append_cons {c : Char} {sep xs ys : List Char} (hc : c ∉ sep)
    (h : sep <:+: xs ++ c :: ys) : sep <:+: xs ∨ sep <:+: ys := by
  obtain ⟨before, after, h⟩ := h
  rw [List.append_assoc, List.append_eq_append_iff] at h
  rcases h with ⟨mid, rfl, hmid⟩ | ⟨mid, -, hmid⟩
  · rcases List.append_eq_append_iff.mp hmid with ⟨rest, rfl, -⟩ | ⟨rest, rfl, hrest⟩
    · exact .inl ⟨before, rest, by simp⟩
    · cases rest with
      | nil => exact .inl ⟨before, [], by simp⟩
      | cons d rest => exact absurd (by simp [(List.cons.inj hrest).1]) hc
  · cases mid with
    | nil =>
      cases sep with
      | nil => exact Or.inr List.nil_infix
      | cons d sep => exact absurd (by simp [(List.cons.inj hmid).1]) hc
    | cons d mid =>
      obtain ⟨-, rfl⟩ := List.cons.inj hmid
      exact .inr ⟨mid, after, by simp⟩

theorem closes_append_cons {c : Char} (hc : c ∉ "*/".toList) {xs ys : List Char}
    (hx : closes xs = false) (hy : closes ys = false) : closes (xs ++ c :: ys) = false := by
  rw [← Bool.not_eq_true, closes, Text.occurs_iff] at hx hy ⊢
  exact fun h => (infix_of_append_cons hc h).elim hx hy

/-- The lines of a comment as they are written. -/
def linesText (lines : List String) : String :=
  String.join (lines.map fun l => if Text.isBlankLine l then "\n" else line 0 l)

/-- Lines that do not end a comment do not end it together. -/
theorem not_closes_linesText {lines : List String}
    (h : lines.any (closes ·.toList) = false) : closes (linesText lines).toList = false := by
  induction lines with
  | nil => rfl
  | cons l lines ih =>
    obtain ⟨hl, hlines⟩ := Bool.or_eq_false_iff.mp h
    have hwritten : ∃ written, closes written = false ∧
        (linesText (l :: lines)).toList = written ++ '\n' :: (linesText lines).toList := by
      by_cases hblank : Text.isBlankLine l = true
      · exact ⟨[], rfl, by simp [linesText, hblank]⟩
      · exact ⟨l.toList, hl, by simp [linesText, hblank, line, indentation]⟩
    obtain ⟨written, hclosed, heq⟩ := hwritten
    rw [heq]
    exact closes_append_cons (by decide) hclosed (ih hlines)

/-- The first end of a comment is the one behind a text that holds none. -/
theorem cutAt_close {cs : List Char} (h : closes cs = false) (rest : List Char) :
    Text.cutAt "*/".toList (cs ++ '*' :: '/' :: rest) = some (cs, rest) := by
  induction cs with
  | nil => rfl
  | cons c cs ih =>
    have hnone : Text.cutAt "*/".toList (c :: cs) = none :=
      Option.isNone_iff_eq_none.mp (Option.isSome_eq_false_iff.mp h)
    rw [Text.cutAt] at hnone
    split at hnone
    next => cases hnone
    next hstart =>
      have hcs : closes cs = false := by
        rw [closes, Text.occurs, Option.map_eq_none_iff.mp hnone]
        rfl
      have hstart' : "*/".toList.isPrefixOf (c :: (cs ++ '*' :: '/' :: rest)) = false := by
        rw [← Bool.not_eq_true]
        cases cs with
        | nil => simp [List.isPrefixOf]
        | cons d cs => simpa [List.isPrefixOf] using hstart
      rw [List.cons_append, Text.cutAt, hstart', ih hcs]
      rfl

theorem toList_multilineComment (s : Style) (body : String) :
    (declText s (.multilineComment body)).toList
      = '/' :: '*' :: '\n' :: ((linesText (commentLines body)).toList ++ "*/\n".toList) := by
  simp [declText, itemsOf, Item.isType, Item.print, Text.join, line, indentation, linesText]

theorem onlyComments_multilineComment (s : Style) (body : String) :
    onlyComments (declText s (.multilineComment body)).toList
      = onlyComments (behindClose ((linesText (commentLines body)).toList ++ "*/\n".toList)) := by
  generalize hlines : (linesText (commentLines body)).toList ++ "*/\n".toList = written
  have hcloses : closes ('\n' :: written) = true := by
    rw [closes, Text.occurs_iff, ← hlines]
    exact ⟨'\n' :: (linesText (commentLines body)).toList, ['\n'], by simp⟩
  have hbehind : behindClose ('\n' :: written) = behindClose written := by
    rw [behindClose, Text.cutAt, if_neg (by simp [List.isPrefixOf]), Option.map_map]
    rfl
  rw [toList_multilineComment, hlines, onlyComments_block hcloses, hbehind]

/-! ## Both -/

theorem isSpace_newline : isSpace '\n' = true := by simp [isSpace, spaces]

theorem onlyComments_lineEnd : onlyComments ['\n'] = true := by
  rw [onlyComments_space isSpace_newline, onlyComments, elements_nil]
  rfl

/-- **A comment stays a comment unless its body gets out of it.** The text of a comment of one line
consists of white space and comments exactly if its body has no end of a line, or what follows the
first one is white space and comments again; that of a comment of many lines, exactly if no line of
its body holds `*/`, or what follows the first one is white space and comments again. -/
theorem onlyComments_declText (s : Style) (body : String) :
    onlyComments (declText s (.comment body)).toList
      = (!(commentBody body).toList.any isLineEnd
        || onlyComments (behindLine (commentBody body).toList ++ ['\n'])) ∧
    onlyComments (declText s (.multilineComment body)).toList
      = (!(commentLines body).any (closes ·.toList)
        || onlyComments
          (behindClose ((linesText (commentLines body)).toList ++ "*/\n".toList))) := by
  rw [onlyComments_comment, onlyComments_multilineComment]
  constructor
  · cases h : (commentBody body).toList.any isLineEnd with
    | true => rfl
    | false =>
      rw [behindLine_eq_nil h]
      exact onlyComments_lineEnd
  · cases h : (commentLines body).any (closes ·.toList) with
    | true => rfl
    | false =>
      have hcut := cutAt_close (not_closes_linesText h) ['\n']
      change onlyComments (behindClose (_ ++ '*' :: '/' :: ['\n'])) = true
      rw [behindClose, hcut]
      exact onlyComments_lineEnd

/-- A second line, or what stands behind `*/`, is read as program text. -/
theorem comments_spill :
    declText (styleFor .javaScript []) (.comment "-- a\nb") = "// a\nb\n" ∧
      onlyComments "// a\nb\n".toList = false ∧
      declText (styleFor .javaScript []) (.multilineComment "\x7b- a */ b -\x7d")
        = "/*\na */ b\n*/\n" ∧
      onlyComments "/*\na */ b\n*/\n".toList = false := by
  have hword : ∀ cs, onlyComments ('b' :: cs) = false :=
    onlyComments_token (by simp [isSpace, spaces]) (by decide)
  refine ⟨by decide, ?_, by decide, ?_⟩
  · have hbehind : behindLine " a\nb\n".toList = '\n' :: 'b' :: "\n".toList := by decide
    change onlyComments ('/' :: '/' :: " a\nb\n".toList) = false
    rw [onlyComments_line, hbehind, onlyComments_space isSpace_newline, hword]
  · have hcloses : closes "\na */ b\n*/\n".toList = true := by decide
    have hbehind : behindClose "\na */ b\n*/\n".toList = ' ' :: 'b' :: "\n*/\n".toList := by decide
    change onlyComments ('/' :: '*' :: "\na */ b\n*/\n".toList) = false
    rw [onlyComments_block hcloses, hbehind, onlyComments_space (by simp [isSpace, spaces]), hword]

end Derw.Script

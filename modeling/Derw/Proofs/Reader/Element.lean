import Derw.Proofs.Reader.Token
import Derw.Proofs.Text.Cut

/-!
# Proofs/Reader/Element — what the text of a program consists of

`lex` reads names, numbers and marks, which is all that plain expressions are made of. A whole
program has more: comments, literals between quotes, and templates, whose holes hold tokens again.
`elements` reads a text into all of these, at each place the longest that fits, with white space
dropped. A brace may close a hole of a template or be a mark, so the reader keeps count of the
braces that are open in each hole (`holes`, innermost first). There is no rule for regular
expressions: no program that is written here has any.

`elements_token` says when the next element is the token that `lex` reads, `elements_lineComment`
and `elements_blockComment` how far a comment goes.
-/

namespace Derw.Script.Reader

inductive Element
  | token (t : Token)
  | comment (body : String)
  /-- A literal between quotes, with its escapes as they are written. -/
  | text (body : String)
  /-- A piece of a template, up to its end or to the next hole. -/
  | template (body : String)
  deriving DecidableEq, Repr

namespace Element

def mark (m : String) : Element := .token (.mark m)

def malformed (text : String) : Element := .token (.malformed text)

def isComment : Element → Bool
  | comment _ => true
  | token _ | text _ | template _ => false

end Element

/-! ## Literals and templates -/

/-- The characters that end a line. -/
def isLineEnd (c : Char) : Bool := [0x0A, 0x0D, 0x2028, 0x2029].contains c.toNat

/-- How long a literal is that ends with `quote`. It does not go over the end of a line, unless that
is escaped. -/
def literalLength? (quote : Char) : List Char → Option Nat
  | [] => none
  | '\\' :: '\r' :: '\n' :: cs => (literalLength? quote cs).map (· + 3)
  | '\\' :: _ :: cs => (literalLength? quote cs).map (· + 2)
  | c :: cs =>
    if c == quote then some 0
    else if c == '\n' || c == '\r' then none
    else (literalLength? quote cs).map (· + 1)

/-- How long a piece of a template is, and whether a hole follows it. -/
def pieceLength? : List Char → Option (Nat × Bool)
  | [] => none
  | '\x60' :: _ => some (0, false)
  | '$' :: '\x7b' :: _ => some (0, true)
  | '\\' :: _ :: cs => (pieceLength? cs).map fun r => (r.1 + 2, r.2)
  | _ :: cs => (pieceLength? cs).map fun r => (r.1 + 1, r.2)

/-! ## Elements -/

/-- An element, the holes that are open behind it, and what follows it. -/
structure Read where
  element : Element
  holes : List Nat
  rest : List Char

/-- The rest of a line behind `//`. -/
def readLineComment (holes : List Nat) (cs : List Char) : Read :=
  ⟨.comment (String.ofList (cs.takeWhile (!isLineEnd ·))), holes, cs.dropWhile (!isLineEnd ·)⟩

/-- What stands behind an opening `/*`, up to the first `*/`. -/
def readBlockComment (holes : List Nat) (cs : List Char) : Read :=
  match Text.cutAt "*/".toList cs with
  | some (body, rest) => ⟨.comment (String.ofList body), holes, rest⟩
  | none => ⟨.malformed "/*", holes, []⟩

def readLiteral (quote : Char) (holes : List Nat) (cs : List Char) : Read :=
  match literalLength? quote cs with
  | some n => ⟨.text (String.ofList (cs.take n)), holes, cs.drop (n + 1)⟩
  | none => ⟨.malformed quote.toString, holes, cs⟩

/-- A piece of a template that stands in these holes. -/
def readPiece (holes : List Nat) (cs : List Char) : Read :=
  match pieceLength? cs with
  | some (n, true) => ⟨.template (String.ofList (cs.take n)), 0 :: holes, cs.drop (n + 2)⟩
  | some (n, false) => ⟨.template (String.ofList (cs.take n)), holes, cs.drop (n + 1)⟩
  | none => ⟨.malformed "\x60", holes, cs⟩

/-- The holes behind a token. -/
def holesBehind : Token → List Nat → List Nat
  | .mark "\x7b", n :: holes => (n + 1) :: holes
  | .mark "\x7d", n :: holes => (n - 1) :: holes
  | _, holes => holes

def readToken (holes : List Nat) (c : Char) (cs : List Char) : Read :=
  let next := nextToken c cs
  ⟨.token next.1, holesBehind next.1 holes, next.2⟩

/-- The element that starts with `c`. -/
def readElement (holes : List Nat) (c : Char) (cs : List Char) : Read :=
  if c == '/' && cs.head? == some '/' then readLineComment holes cs.tail
  else if c == '/' && cs.head? == some '*' then readBlockComment holes cs.tail
  else if c == '"' || c == '\'' then readLiteral c holes cs
  else if c == '\x60' then readPiece holes cs
  else if c == '\x7d' && holes.head? == some 0 then readPiece holes.tail cs
  else readToken holes c cs

theorem length_readBlockComment_le (holes : List Nat) (cs : List Char) :
    (readBlockComment holes cs).rest.length ≤ cs.length := by
  unfold readBlockComment
  split
  next body rest hcut =>
    rw [Text.eq_of_cutAt hcut, List.length_append]
    exact Nat.le_add_left _ _
  next => exact Nat.zero_le _

theorem length_readPiece_le (holes : List Nat) (cs : List Char) :
    (readPiece holes cs).rest.length ≤ cs.length := by
  unfold readPiece
  split
  · exact (List.drop_sublist _ _).length_le
  · exact (List.drop_sublist _ _).length_le
  · exact Nat.le_refl _

theorem length_readElement_le (holes : List Nat) (c : Char) (cs : List Char) :
    (readElement holes c cs).rest.length ≤ cs.length := by
  have htail : cs.tail.length ≤ cs.length := (List.tail_sublist cs).length_le
  unfold readElement
  split
  · exact (List.dropWhile_sublist _).length_le.trans htail
  split
  · exact (length_readBlockComment_le _ _).trans htail
  split
  · unfold readLiteral
    split
    · exact (List.drop_sublist _ _).length_le
    · exact Nat.le_refl _
  split
  · exact length_readPiece_le _ _
  split
  · exact length_readPiece_le _ _
  · exact length_nextToken_le c cs

/-- What a text consists of, in the holes of templates. -/
def elements (holes : List Nat) : List Char → List Element
  | [] => []
  | c :: cs =>
    if isSpace c then elements holes cs
    else
      let next := readElement holes c cs
      next.element :: elements next.holes next.rest
termination_by cs => cs.length
decreasing_by
  · exact Nat.lt_succ_self _
  · exact Nat.lt_succ_of_le (length_readElement_le holes c cs)

section

variable {holes : List Nat} {c : Char}

theorem elements_nil : elements holes [] = [] := by rw [elements]

theorem elements_space (h : isSpace c = true) (cs : List Char) :
    elements holes (c :: cs) = elements holes cs := by
  rw [elements, if_pos h]

theorem elements_cons (h : isSpace c = false) (cs : List Char) :
    elements holes (c :: cs) = (readElement holes c cs).element
      :: elements (readElement holes c cs).holes (readElement holes c cs).rest := by
  rw [elements, if_neg (by simp [h])]

/-- The characters with which something else than a token may start. -/
def openers : List Char := ['/', '"', '\'', '\x60', '\x7d']

/-- **Where nothing else may start, the next element is a token.** -/
theorem elements_token (hspace : isSpace c = false) (h : c ∉ openers) (cs : List Char) :
    elements holes (c :: cs) = .token (nextToken c cs).1
      :: elements (holesBehind (nextToken c cs).1 holes) (nextToken c cs).2 := by
  simp only [openers, List.mem_cons, List.not_mem_nil, or_false, not_or] at h
  have hread : readElement holes c cs = readToken holes c cs := by
    simp [readElement, h]
  rw [elements_cons hspace, hread]
  rfl

/-- A mark that is no brace leaves the holes as they are. -/
theorem elements_mark {cs : List Char} {m : String}
    (hm : marks.find? (·.toList.isPrefixOf (c :: cs)) = some m) (hc : c ∉ '.' :: openers)
    (hbrace : m ≠ "\x7b" ∧ m ≠ "\x7d") :
    elements holes (c :: cs) = .mark m :: elements holes (cs.drop (m.length - 1)) := by
  obtain ⟨hspace, hword, hdigit⟩ :=
    start_of_mark (List.mem_of_find?_eq_some hm) (by simpa using List.find?_some hm)
  obtain ⟨hdot, hopen⟩ := not_or.mp (mt List.mem_cons.mpr hc)
  have hnext : nextToken c cs = (.mark m, cs.drop (m.length - 1)) := by
    simp [nextToken, startsNumeral, hword, hdigit, hdot, hm]
  have hholes : holesBehind (.mark m) holes = holes := by
    unfold holesBehind
    split
    next h => exact absurd (Token.mark.inj h) hbrace.1
    next h => exact absurd (Token.mark.inj h) hbrace.2
    next => rfl
  rw [elements_token hspace hopen, hnext, hholes]
  rfl

theorem isSpace_slash : isSpace '/' = false := by simp [isSpace, spaces]

/-- **A comment behind `//` goes up to the end of the line.** -/
theorem elements_lineComment (cs : List Char) :
    elements holes ('/' :: '/' :: cs)
      = .comment (String.ofList (cs.takeWhile (!isLineEnd ·)))
        :: elements holes (cs.dropWhile (!isLineEnd ·)) := by
  rw [elements_cons isSpace_slash]
  rfl

/-- **A comment behind `/*` goes up to the first `*/`.** -/
theorem elements_blockComment {cs body rest : List Char}
    (h : Text.cutAt "*/".toList cs = some (body, rest)) :
    elements holes ('/' :: '*' :: cs) = .comment (String.ofList body) :: elements holes rest := by
  have hread : readElement holes '/' ('*' :: cs)
      = ⟨.comment (String.ofList body), holes, rest⟩ := by
    change readBlockComment holes cs = _
    rw [readBlockComment, h]
  rw [elements_cons isSpace_slash, hread]

end

end Derw.Script.Reader

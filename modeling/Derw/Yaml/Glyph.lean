/-!
# Yaml/Glyph — the characters of a document, each with its place

A document is read as a list of glyphs. Line breaks are settled here, once: a carriage return, alone
or before a line feed, and U+0085 count as one line feed, so that what follows sees only `\n` and
the two Unicode separators. `glyphs` refuses a text with a character that no document may hold.
-/

namespace Derw.Yaml

/-- A character and where it stands, all counted from zero. -/
structure Glyph where
  char : Char
  line : Nat
  column : Nat
  index : Nat

/-- The line breaks that are left once carriage returns are settled. -/
def isBreak (c : Char) : Bool := c == '\n' || c.toNat == 0x2028 || c.toNat == 0x2029

def isSpaceOrTab (c : Char) : Bool := c == ' ' || c == '\t'

/-- The characters a document may hold. -/
def isAdmitted (c : Char) : Bool :=
  let n := c.toNat
  n == 0x09 || n == 0x0A || n == 0x0D || (0x20 ≤ n && n ≤ 0x7E) || n == 0x85
    || (0xA0 ≤ n && n ≤ 0xD7FF) || (0xE000 ≤ n && n ≤ 0xFFFD) || 0x10000 ≤ n

/-- Gives each character its place. -/
def place (line column index : Nat) : List Char → List Glyph
  | [] => []
  | '\r' :: '\n' :: cs => ⟨'\n', line, column, index⟩ :: place (line + 1) 0 (index + 2) cs
  | c :: cs =>
    let d := if c == '\r' || c.toNat == 0x85 then '\n' else c
    if isBreak d then ⟨d, line, column, index⟩ :: place (line + 1) 0 (index + 1) cs
    else ⟨d, line, column, index⟩ :: place line (column + 1) (index + 1) cs

/-- The byte-order mark that may open a text. -/
def byteOrderMark : Char := Char.ofNat 0xFEFF

/-- The glyphs of a text, if every character is admitted. -/
def glyphs (text : String) : Option (List Glyph) :=
  let cs := match text.toList with
    | [] => []
    | c :: cs => if c == byteOrderMark then cs else c :: cs
  if cs.all isAdmitted then some (place 0 0 0 cs) else none

/-- The line on which the text ends: the one after its last character. -/
def endLine (gs : List Glyph) : Nat :=
  match gs.getLast? with
  | some g => g.line + 1
  | none => 0

/-- Nothing, or a space, tab or break, comes next. -/
def atGap : List Glyph → Bool
  | [] => true
  | g :: _ => isSpaceOrTab g.char || isBreak g.char

/-- Three times `c`, alone at the start of a line: `---` or `...`. -/
def atMark (c : Char) : List Glyph → Bool
  | g₁ :: g₂ :: g₃ :: rest =>
    g₁.column == 0 && g₁.char == c && g₂.char == c && g₃.char == c && atGap rest
  | _ => false

/-- A line that starts or ends a document comes next. -/
def atDocumentMark (gs : List Glyph) : Bool := atMark '-' gs || atMark '.' gs

end Derw.Yaml

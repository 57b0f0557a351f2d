import Derw.Yaml.Glyph

/-!
# Yaml/Scalar — reading the four kinds of scalar

Each reader takes the glyphs from where the scalar starts and gives its text and what is left. They
share the folding of lines: inside a scalar a single break is a space, and of several breaks all but
the first are kept (`Gap.text`).
-/

namespace Derw.Yaml

/-- The blanks and breaks read since the last character of a scalar, latest first. -/
structure Gap where
  /-- A break has been passed. -/
  broken : Bool := false
  blanks : List Char := []
  /-- The first break, unless it was escaped. -/
  first : Option Char := none
  more : List Char := []

def Gap.isEmpty (g : Gap) : Bool := !g.broken && g.blanks.isEmpty

def Gap.push (g : Gap) (c : Char) : Gap :=
  if isBreak c then
    if g.broken then { g with more := c :: g.more }
    else { g with broken := true, blanks := [], first := some c }
  else if g.broken then g
  else { g with blanks := c :: g.blanks }

/-- What a gap between two characters of a scalar stands for. -/
def Gap.text (g : Gap) : List Char :=
  if g.broken then
    match g.first with
    | some '\n' => if g.more.isEmpty then [' '] else g.more.reverse
    | some c => c :: g.more.reverse
    | none => g.more.reverse
  else g.blanks.reverse

/-- The rest of a bare scalar of which `acc` has been read, latest character first. It ends before
`: `, before a comment, at a document mark, at a line indented less than `margin`, and in a flow
collection also before the characters that belong to the collection. The flag tells whether it ended
on a later line than its last character. -/
def bareRest (flow : Bool) (margin : Nat) (acc : List Char) (gap : Gap) :
    List Glyph → Option (List Char × Bool × List Glyph)
  | [] => some (acc.reverse, gap.broken, [])
  | g :: gs =>
    if isSpaceOrTab g.char then
      if gap.broken && g.column < margin && g.char == '\t' then none
      else bareRest flow margin acc (gap.push g.char) gs
    else if isBreak g.char then bareRest flow margin acc (gap.push g.char) gs
    else if !gap.isEmpty
        && ((!flow && g.column < margin) || atDocumentMark (g :: gs) || g.char == '#') then
      some (acc.reverse, gap.broken, g :: gs)
    else if (g.char == ':' && atGap gs) || (flow && ",?[]\x7b\x7d".toList.contains g.char) then
      some (acc.reverse, gap.broken, g :: gs)
    else bareRest flow margin (g.char :: (gap.text.reverse ++ acc)) {} gs

/-- The value of a hexadecimal digit. -/
def hexValue (c : Char) : Option Nat :=
  if '0' ≤ c && c ≤ '9' then some (c.toNat - 48)
  else if 'a' ≤ c && c ≤ 'f' then some (c.toNat - 87)
  else if 'A' ≤ c && c ≤ 'F' then some (c.toNat - 55)
  else none

/-- The characters a double-quoted scalar writes with one letter after a backslash. -/
def escapes : List (Char × Nat) :=
  [('0', 0x00), ('a', 0x07), ('b', 0x08), ('t', 0x09), ('\t', 0x09), ('n', 0x0A), ('v', 0x0B),
    ('f', 0x0C), ('r', 0x0D), ('e', 0x1B), (' ', 0x20), ('"', 0x22), ('\'', 0x27), ('\\', 0x5C),
    ('N', 0x85), ('_', 0xA0), ('L', 0x2028), ('P', 0x2029)]

/-- The characters it writes by code point, with the number of digits. -/
def codeEscapes : List (Char × Nat) := [('x', 2), ('u', 4), ('U', 8)]

/-- Where the reader of a quoted scalar is. -/
inductive QuotedState
  | text
  /-- After a backslash. -/
  | escape
  /-- In a code point, with this many digits to come. -/
  | code (left value : Nat)
  /-- After a quote that may be the first of a doubled one. -/
  | closing

/-- The rest of a quoted scalar, after its opening quote. -/
def quotedRest (quote : Char) (acc : List Char) (gap : Gap) :
    QuotedState → List Glyph → Option (List Char × List Glyph)
  | .closing, [] => some (acc.reverse, [])
  | _, [] => none
  | .closing, g :: gs =>
    if g.char == quote then quotedRest quote (quote :: acc) {} .text gs
    else some (acc.reverse, g :: gs)
  | .escape, g :: gs =>
    if isBreak g.char then quotedRest quote acc { broken := true } .text gs
    else match escapes.lookup g.char with
      | some n => quotedRest quote (Char.ofNat n :: acc) {} .text gs
      | none =>
        match codeEscapes.lookup g.char with
        | some n => quotedRest quote acc {} (.code n 0) gs
        | none => none
  | .code left value, g :: gs =>
    match hexValue g.char with
    | none => none
    | some d =>
      let v := value * 16 + d
      if left ≤ 1 then
        if (0xD800 ≤ v && v ≤ 0xDFFF) || 0x10FFFF < v then none
        else quotedRest quote (Char.ofNat v :: acc) {} .text gs
      else quotedRest quote acc {} (.code (left - 1) v) gs
  | .text, g :: gs =>
    if isSpaceOrTab g.char || isBreak g.char then quotedRest quote acc (gap.push g.char) .text gs
    else if atDocumentMark (g :: gs) then none
    else
      let acc := gap.text.reverse ++ acc
      if g.char == quote then
        if quote == '\'' then quotedRest quote acc {} .closing gs else some (acc.reverse, gs)
      else if quote == '"' && g.char == '\\' then quotedRest quote acc {} .escape gs
      else quotedRest quote (g.char :: acc) {} .text gs

/-- What becomes of the breaks that end a literal or folded scalar. -/
inductive Chomp
  | strip
  | clip
  | keep
  deriving DecidableEq

/-- How a literal or folded scalar announces itself: `|` or `>`, then an indentation and what to do
with the last breaks, in either order. -/
structure BlockHeader where
  literal : Bool
  chomp : Chomp := .clip
  /-- The announced indentation, zero if it is to be found. -/
  indent : Nat := 0

def chompOf (c : Char) : Option Chomp :=
  if c == '+' then some .keep else if c == '-' then some .strip else none

def indentOf (c : Char) : Option Nat :=
  if '1' ≤ c && c ≤ '9' then some (c.toNat - 48) else none

/-- The header after its first character, and what follows it on the line. -/
def blockHeader (literal : Bool) : List Glyph → BlockHeader × List Glyph
  | [] => ({ literal }, [])
  | g :: gs =>
    match chompOf g.char with
    | some chomp =>
      match gs with
      | [] => ({ literal, chomp }, [])
      | g' :: gs' =>
        match indentOf g'.char with
        | some indent => ({ literal, chomp, indent }, gs')
        | none => ({ literal, chomp }, g' :: gs')
    | none =>
      match indentOf g.char with
      | none => ({ literal }, g :: gs)
      | some indent =>
        match gs with
        | [] => ({ literal, indent }, [])
        | g' :: gs' =>
          match chompOf g'.char with
          | some chomp => ({ literal, chomp, indent }, gs')
          | none => ({ literal, indent }, g' :: gs')

/-- Past the blanks and the comment that may follow a header, and past the end of its line. -/
def afterHeader (gs : List Glyph) : Option (List Glyph) :=
  let onLine := gs.dropWhile fun g => isSpaceOrTab g.char
  let atEnd :=
    if (onLine.head?.map (·.char)) == some '#' then onLine.dropWhile fun g => !isBreak g.char
    else onLine
  match atEnd with
  | [] => some []
  | g :: rest => if isBreak g.char then some rest else none

/-- The empty lines before the first line of text, and the widest indentation seen up to that line.
`column` is the column reached so far. A tab in the indentation is refused. -/
def leadingBreaks (indent column widest : Nat) (breaks : List Char) :
    List Glyph → Option (Nat × List Char × List Glyph)
  | [] => some (max widest column, breaks, [])
  | g :: gs =>
    if (indent == 0 || g.column < indent) && g.char == ' ' then
      leadingBreaks indent (g.column + 1) widest breaks gs
    else if (indent == 0 || g.column < indent) && g.char == '\t' then none
    else if isBreak g.char then
      leadingBreaks indent 0 (max widest g.column) (g.char :: breaks) gs
    else some (max widest g.column, breaks, g :: gs)

/-- A block scalar between two of its characters. -/
structure BlockState where
  /-- The text so far, latest first. -/
  acc : List Char := []
  /-- The break that ended the last line of text. -/
  lead : Option Char := none
  /-- The empty lines since, latest first. -/
  trail : List Char := []
  /-- The last line of text started with a blank. -/
  leadingBlank : Bool := false

/-- Starts a line of text with `c`. A folded scalar joins two lines that do not start with a
blank. -/
def BlockState.startLine (literal : Bool) (s : BlockState) (c : Char) : BlockState :=
  let blank := isSpaceOrTab c
  let joined :=
    if !literal && !s.leadingBlank && !blank && s.lead == some '\n' then
      if s.trail.isEmpty then ' ' :: s.acc else s.acc
    else s.lead.toList ++ s.acc
  { acc := c :: (s.trail ++ joined), leadingBlank := blank }

/-- The lines of a block scalar whose text is indented by `indent`. -/
def blockLines (literal : Bool) (indent : Nat) (inLine : Bool) (s : BlockState) :
    List Glyph → Option (BlockState × List Glyph)
  | [] => some (s, [])
  | g :: gs =>
    if inLine then
      if isBreak g.char then blockLines literal indent false { s with lead := some g.char } gs
      else blockLines literal indent true { s with acc := g.char :: s.acc } gs
    else if g.column < indent && g.char == ' ' then blockLines literal indent false s gs
    else if g.column < indent && g.char == '\t' then none
    else if isBreak g.char then
      blockLines literal indent false { s with trail := g.char :: s.trail } gs
    else if g.column == indent then
      blockLines literal indent true (s.startLine literal g.char) gs
    else some (s, g :: gs)

/-- A literal or folded scalar, after its first character, under a node that stands at
`margin - 1`. -/
def blockScalar (literal : Bool) (margin : Nat) (gs : List Glyph) :
    Option (List Char × List Glyph) := do
  let (header, gs) := blockHeader literal gs
  let gs ← afterHeader gs
  let announced := if header.indent == 0 then 0 else (margin - 1) + header.indent
  let (widest, breaks, gs) ← leadingBreaks announced 0 0 [] gs
  let indent := if announced == 0 then max (max widest margin) 1 else announced
  let (s, gs) ← blockLines literal indent false { trail := breaks } gs
  let tail := match header.chomp with
    | .strip => []
    | .clip => s.lead.toList
    | .keep => s.lead.toList ++ s.trail.reverse
  return (s.acc.reverse ++ tail, gs)

end Derw.Yaml

import Derw.Yaml.Scalar
import Derw.Yaml.Token

/-!
# Yaml/Scan — from glyphs to tokens

The scanner reads one token after another and keeps what the next one depends on: how deep the
current block is indented, which flow collections are open, and where an *implicit key* could have
started. Whether a scalar is a key shows only at the `:` behind it; at that point the key token is
put in front of the scalar, which is why tokens already read can still move (`insertAt`).

Reading is only as eager as the reader of the tokens makes it: it looks two tokens ahead. What is
wrong with a text further on than that goes unnoticed, so `scan` gives, with the tokens, only those
that can be looked at before the first fault.
-/

namespace Derw.Yaml

/-- A place where an implicit key may have started. -/
structure KeyStart where
  /-- It must turn out to be a key: nothing else may stand at this indentation. -/
  required : Bool
  /-- The number of the token that starts there. -/
  token : Nat
  line : Nat
  column : Nat
  index : Nat

structure Scanner where
  rest : List Glyph
  /-- The line on which the text ends. -/
  last : Nat
  tokens : Array Token := #[]
  /-- One more than the column of the current block; zero outside every block. -/
  margin : Nat := 0
  /-- The margins of the enclosing blocks, innermost first. -/
  margins : List Nat := []
  /-- An implicit key may start at the next token. -/
  keyAllowed : Bool := true
  /-- The possible key of the current collection. -/
  start : Option KeyStart := none
  /-- The same for the collections around it, innermost first: as many as there are open flow
  collections. -/
  outer : List (Option KeyStart) := []
  ended : Bool := false

namespace Scanner

def inFlow (s : Scanner) : Bool := !s.outer.isEmpty

/-- The position of the next glyph. -/
def line (s : Scanner) : Nat := (s.rest.head?.map (·.line)).getD s.last

def column (s : Scanner) : Nat := (s.rest.head?.map (·.column)).getD 0

def emit (s : Scanner) (line : Nat) (kind : TokenKind) : Scanner :=
  { s with tokens := s.tokens.push ⟨line, kind⟩ }

/-- Puts a token in front of the `i`-th. -/
def insertAt (s : Scanner) (i line : Nat) (kind : TokenKind) : Scanner :=
  { s with tokens := s.tokens.take i ++ #[⟨line, kind⟩] ++ s.tokens.drop i }

/-- A key start can no longer be a key once the line ends, or 1024 characters on. At the end of the
text the line counts as ended. -/
def isStale (s : Scanner) (k : KeyStart) : Bool :=
  match s.rest with
  | [] => true
  | g :: _ => k.line < g.line || k.index + 1024 < g.index

/-- Gives up the current key start; a required one is a fault. -/
def dropKey (s : Scanner) : Option Scanner :=
  match s.start with
  | some k => if k.required then none else some { s with start := none }
  | none => some s

/-- Notes that a key may start here. -/
def noteKey (s : Scanner) : Option Scanner :=
  if s.keyAllowed then do
    let s' ← s.dropKey
    match s.rest with
    | [] => return s'
    | g :: _ =>
      let required := !s.inFlow && s.margin == g.column + 1
      return { s' with start := some ⟨required, s.tokens.size, g.line, g.column, g.index⟩ }
  else some s

/-- Closes the blocks deeper than `margin`. -/
def closeTo (margin : Nat) (s : Scanner) : Scanner :=
  if s.inFlow then s else
    let deeper := (s.margin :: s.margins).takeWhile (margin < ·)
    let kept := (s.margin :: s.margins).drop deeper.length
    let s' := deeper.foldl (fun s _ => s.emit s.line .blockEnd) s
    { s' with margin := kept.headD 0, margins := kept.tail }

/-- Opens a block at `column` unless the current one is as deep. -/
def openAt (s : Scanner) (column : Nat) (open_ : Scanner → Scanner) : Scanner :=
  if !s.inFlow && s.margin ≤ column then
    open_ { s with margin := column + 1, margins := s.margin :: s.margins }
  else s

/-- The next thing after blanks leads to a comment. -/
def leadsToComment (gs : List Glyph) : Bool :=
  ((gs.dropWhile fun g => isSpaceOrTab g.char || isBreak g.char).head?.map (·.char)) == some '#'

/-- Past blanks, breaks and comments. In a block a tab may not stand where a key may start, except
between two comments. The flag tells whether a key may start at the next token. -/
def skipBlanks (flow : Bool) (allowed inComment afterComment : Bool) :
    List Glyph → Bool × List Glyph
  | [] => (allowed, [])
  | g :: gs =>
    if isBreak g.char then skipBlanks flow (!flow || allowed) false (inComment || afterComment) gs
    else if inComment then skipBlanks flow allowed true afterComment gs
    else if g.char == '#' then skipBlanks flow allowed true afterComment gs
    else if g.char == ' ' || (g.char == byteOrderMark && g.column == 0) then
      skipBlanks flow allowed false afterComment gs
    else if g.char == '\t' && (flow || !allowed || (afterComment && leadsToComment gs)) then
      skipBlanks flow allowed false afterComment gs
    else (allowed, g :: gs)

/-- Leaves a block behind, as a document mark and the end of the text do. -/
def reset (s : Scanner) : Option Scanner := do
  let s ← (closeTo 0 s).dropKey
  return { s with keyAllowed := false }

/-- The end of the text. -/
def fetchEnd (s : Scanner) : Option Scanner := do
  let s ← s.reset
  return { s.emit s.last .textEnd with ended := true }

/-- `---` or `...`. -/
def fetchMark (s : Scanner) (kind : TokenKind) : Option Scanner := do
  let line := s.line
  let s ← s.reset
  return { s.emit line kind with rest := s.rest.drop 3 }

/-- `[` or `{`. -/
def fetchOpen (s : Scanner) (kind : TokenKind) : Option Scanner := do
  let line := s.line
  let s ← s.noteKey
  let s := s.emit line kind
  return { s with
    rest := s.rest.drop 1, keyAllowed := true, start := none, outer := s.start :: s.outer }

/-- `]` or `}`. -/
def fetchClose (s : Scanner) (kind : TokenKind) : Option Scanner := do
  let line := s.line
  let s ← s.dropKey
  let s := s.emit line kind
  let s := match s.outer with
    | [] => s
    | k :: ks => { s with start := k, outer := ks }
  return { s with rest := s.rest.drop 1, keyAllowed := false }

def fetchComma (s : Scanner) : Option Scanner := do
  let line := s.line
  let s ← s.dropKey
  return { s.emit line .comma with rest := s.rest.drop 1, keyAllowed := true }

/-- `- `. In a flow collection it is left for the reader of the tokens to refuse. -/
def fetchEntry (s : Scanner) : Option Scanner := do
  let line := s.line
  if !s.inFlow && !s.keyAllowed then none
  else
    let s ← (s.openAt s.column (·.emit line .blockSequence)).dropKey
    return { s.emit line .entry with rest := s.rest.drop 1, keyAllowed := true }

/-- `? `. -/
def fetchKey (s : Scanner) : Option Scanner := do
  let line := s.line
  if !s.inFlow && !s.keyAllowed then none
  else
    let s ← (s.openAt s.column (·.emit line .blockMapping)).dropKey
    return { s.emit line .key with rest := s.rest.drop 1, keyAllowed := !s.inFlow }

/-- `: `. With a key start before it, that was a key. -/
def fetchValue (s : Scanner) : Option Scanner :=
  let line := s.line
  let withoutKey : Option Scanner :=
    if !s.inFlow && !s.keyAllowed then none
    else
      let s := s.openAt s.column (·.emit line .blockMapping)
      some { s.emit line .value with rest := s.rest.drop 1, keyAllowed := !s.inFlow }
  match s.start with
  | none => withoutKey
  | some k =>
    if s.isStale k then if k.required then none else withoutKey
    else
      let s := s.insertAt k.token k.line .key
      let s := s.openAt k.column (·.insertAt k.token k.line .blockMapping)
      some { s.emit line .value with rest := s.rest.drop 1, keyAllowed := false, start := none }

def isAnchorChar (c : Char) : Bool := c.isAlphanum || c == '_' || c == '-'

/-- `&name` or `*name`. -/
def fetchAnchor (s : Scanner) (kind : String → TokenKind) : Option Scanner := do
  let line := s.line
  let s ← s.noteKey
  let name := (s.rest.drop 1).takeWhile fun g => isAnchorChar g.char
  let rest := s.rest.drop (1 + name.length)
  let ends := atGap rest ||
    (rest.head?.map fun g => "?:,]\x7d%@\x60".toList.contains g.char) == some true
  if name.isEmpty || !ends then none
  else
    return { s.emit line (kind (String.ofList (name.map (·.char)))) with rest, keyAllowed := false }

/-- A tag in its short form: `!name` is local, `!!name` is the format's own, `!` alone says nothing.
A tag with a handle that no directive defines is refused. -/
def tagName (text : List Char) : Option (List Char) :=
  match text with
  | ['!'] => some []
  | '!' :: '<' :: rest =>
    match rest.reverse with
    | '>' :: name => some name.reverse
    | _ => none
  | '!' :: '!' :: rest => if rest.isEmpty then none else some text
  | _ => if (text.drop 1).contains '!' then none else some text

/-- `!name`. -/
def fetchTag (s : Scanner) : Option Scanner := do
  let line := s.line
  let s ← s.noteKey
  let text := s.rest.takeWhile fun g => !isSpaceOrTab g.char && !isBreak g.char
  let name ← tagName (text.map (·.char))
  return { s.emit line (.tag (String.ofList name)) with
    rest := s.rest.drop text.length, keyAllowed := false }

/-- `|` or `>`. -/
def fetchBlockScalar (s : Scanner) (literal : Bool) : Option Scanner := do
  let line := s.line
  let s ← s.dropKey
  let (text, rest) ← blockScalar literal s.margin (s.rest.drop 1)
  return { s.emit line (.scalar .quoted (String.ofList text)) with rest, keyAllowed := true }

/-- A quoted scalar. -/
def fetchQuoted (s : Scanner) (quote : Char) : Option Scanner := do
  let line := s.line
  let s ← s.noteKey
  let (text, rest) ← quotedRest quote [] {} .text (s.rest.drop 1)
  return { s.emit line (.scalar .quoted (String.ofList text)) with rest, keyAllowed := false }

/-- A bare scalar. One that ends on a later line leaves the scanner where a key may start. -/
def fetchBare (s : Scanner) : Option Scanner := do
  let line := s.line
  let s ← s.noteKey
  let (text, broken, rest) ← bareRest s.inFlow s.margin [] {} s.rest
  return { s.emit line (.scalar .bare (String.ofList text)) with rest, keyAllowed := broken }

/-- The characters that may not start a bare scalar. -/
def indicators : List Char := "-?:,[]\x7b\x7d#&*!|>'\"%@\x60".toList

/-- In front of the next token. -/
def skip (s : Scanner) : Scanner :=
  let (allowed, rest) := skipBlanks s.inFlow s.keyAllowed false false s.rest
  { s with rest, keyAllowed := allowed }

/-- The token that starts with `g`, where `gs` come next. -/
def fetchToken (g : Glyph) (gs : List Glyph) (s : Scanner) : Option Scanner :=
  if g.column == 0 && g.char == '%' then none
  else if atMark '-' (g :: gs) then s.fetchMark .documentStart
  else if atMark '.' (g :: gs) then s.fetchMark .documentEnd
  else match g.char with
    | '[' => s.fetchOpen .sequenceOpen
    | '\x7b' => s.fetchOpen .mappingOpen
    | ']' => s.fetchClose .sequenceClose
    | '\x7d' => s.fetchClose .mappingClose
    | ',' => s.fetchComma
    | '*' => s.fetchAnchor .aliased
    | '&' => s.fetchAnchor .anchor
    | '!' => s.fetchTag
    | '\'' => s.fetchQuoted '\''
    | '"' => s.fetchQuoted '"'
    | c =>
      if c == '-' && atGap gs then s.fetchEntry
      else if c == '?' && (s.inFlow || atGap gs) then s.fetchKey
      else if c == ':' && (s.inFlow || atGap gs) then s.fetchValue
      else if c == '|' && !s.inFlow then s.fetchBlockScalar true
      else if c == '>' && !s.inFlow then s.fetchBlockScalar false
      else if atGap (g :: gs) then none
      else if !indicators.contains c || c == '-' || (!s.inFlow && (c == '?' || c == ':')) then
        s.fetchBare
      else none

/-- One more token. -/
def fetch (s : Scanner) : Option Scanner :=
  let s := s.skip
  match s.rest with
  | [] => s.fetchEnd
  | g :: gs => (closeTo (g.column + 1) s).fetchToken g gs

/-- How many tokens can be looked at when the next one is at fault: those with two more behind them,
up to the first that may yet get a key in front. -/
def visible (s : Scanner) : Nat :=
  let waiting := (s.start :: s.outer).filterMap fun k =>
    k.bind fun k => if s.isStale k && !k.required then none else some k.token
  waiting.foldl min (s.tokens.size - 2)

/-- The tokens from here on, `fuel` at most. -/
def run : (fuel : Nat) → Scanner → List Token
  | 0, s => s.tokens.toList
  | n + 1, s =>
    if s.ended then s.tokens.toList
    else match s.fetch with
      | some s' => run n s'
      | none => s.tokens.toList.take s.visible

end Scanner

/-- The tokens of a text that can be looked at before the first fault; all of them, up to `textEnd`,
if there is none. Every token but the last takes a character at least, so there are at most as many
steps as characters and one. -/
def scan (gs : List Glyph) : List Token :=
  Scanner.run (gs.length + 1) { rest := gs, last := endLine gs }

end Derw.Yaml

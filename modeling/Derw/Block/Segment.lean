import Derw.Block.Line

/-!
# Block/Segment — from text to blocks

`blocksOf` folds over the lines of a text. A line that starts a block, or is not recognised, closes
the block before it; an indented or defining line continues that block, together with the last of
the blank lines in between; a multiline comment takes every line up to one that is just `-}`. Blank
lines between blocks are dropped. No text is refused: what is not recognised becomes an unknown
block.
-/

namespace Derw

/-- The lines of a text, without the carriage return one may end in. -/
def linesOf (text : String) : List String :=
  (Text.splitWhere (· == '\n') text.toList).map fun l =>
    String.ofList (Text.withoutTail ['\r'] l)

/-- The line that closes a multiline comment. -/
def commentClose : String := "-\x7d"

/-- The blocks of the lines read so far. -/
structure Segments where
  /-- The closed blocks. -/
  closed : List Block := []
  current : Option Block := none
  /-- The last blank line since the last line that is not blank. -/
  gap : Option String := none

namespace Segments

/-- The kind of a block whose first line is read like this: a line that continues nothing has no
kind of its own. -/
def kindOf : Option LineKind → BlockKind
  | some (.starts k) => k
  | _ => .unknown

/-- Closes the current block. -/
def flush (s : Segments) : Segments :=
  match s.current with
  | some b => { s with closed := s.closed ++ [b], current := none }
  | none => s

/-- Whether a line read like this continues the block before it. -/
def continues : Option LineKind → Bool
  | some k => k.continues
  | none => false

/-- The next line, with its number. -/
def step (s : Segments) (number : Nat) (line : String) : Segments :=
  match s.current with
  | some b =>
    if b.kind = .multilineComment then
      let s := { s with current := some { b with lines := b.lines ++ [line] }, gap := none }
      if line == commentClose then s.flush else s
    else if Text.isBlankLine line then { s with gap := some line }
    else if continues (classify line) then
      { s with current := some { b with lines := b.lines ++ s.gap.toList ++ [line] }, gap := none }
    else
      { s.flush with current := some ⟨kindOf (classify line), number, [line]⟩, gap := none }
  | none =>
    if Text.isBlankLine line then { s with gap := some line }
    else { s with current := some ⟨kindOf (classify line), number, [line]⟩, gap := none }

/-- The lines from number `n` on. -/
def steps (s : Segments) (n : Nat) : List String → Segments
  | [] => s
  | l :: ls => steps (s.step n l) (n + 1) ls

end Segments

/-- The blocks of a text. -/
def blocksOf (text : String) : List Block :=
  (Segments.steps {} 0 (linesOf text)).flush.closed

end Derw

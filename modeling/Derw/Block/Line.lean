import Derw.Block.Basic
import Derw.Text.Blank

/-!
# Block/Line — what a line says about the block it is in

A line either starts a block of some kind or continues the block before it. The tests are tried in
order: comments, then the keywords, with `type alias` before `type `, then indentation, and last the
shape of a signature `name: Type`. A line that passes none is not recognised.
-/

namespace Derw

/-- What a recognised line does. -/
inductive LineKind
  | starts (kind : BlockKind)
  /-- Indented, or the closing brace of a block. -/
  | indent
  /-- A definition `name args = …`. -/
  | definition
  deriving DecidableEq, Repr

namespace LineKind

def name : LineKind → String
  | starts k => k.name
  | indent => "Indent"
  | definition => "Definition"

/-- Whether a line of this kind belongs to the block before it. -/
def continues : LineKind → Bool
  | starts _ => false
  | indent | definition => true

end LineKind

namespace Line

def opens (c : Char) : Bool := c == '\x7b' || c == '(' || c == '['

def closes (c : Char) : Bool := c == '\x7d' || c == ')' || c == ']'

/-- The bracket depth after `c`. All brackets are of one kind, and one that closes nothing is
ignored. -/
def depthAfter (depth : Nat) (c : Char) : Nat :=
  if opens c then depth + 1 else if closes c then depth - 1 else depth

/-- What stands before and after the first colon outside brackets. -/
def cutColon (depth : Nat) : List Char → Option (List Char × List Char)
  | [] => none
  | c :: cs =>
    if c == ':' && depth == 0 then some ([], cs)
    else (cutColon (depthAfter depth c) cs).map fun r => (c :: r.1, r.2)

/-- The type of a signature line: the line has exactly one colon outside brackets, and a single word
before it. So neither `a: B, c: D` nor `x :: xs` is a signature. -/
def signature? (line : List Char) : Option (List Char) := do
  let (before, after) ← cutColon 0 line
  if (cutColon 0 after).isNone && (Text.words before).length == 1 then some after else none

def isFunctionType (type : List Char) : Bool := Text.occurs "->".toList type

end Line

/-- Reads a line; `none` if it is not recognised. -/
def classify (line : String) : Option LineKind :=
  let cs := line.toList
  let startsWith (s : String) : Bool := s.toList.isPrefixOf cs
  if startsWith "--" then some (.starts .comment)
  else if startsWith "\x7b-" then some (.starts .multilineComment)
  else if startsWith "type alias" then some (.starts .typeAlias)
  else if startsWith "type " then some (.starts .unionType)
  else if startsWith " " || startsWith "\t" || startsWith "\x7d" then some .indent
  else if startsWith "import" then some (.starts .imports)
  else if startsWith "exposing" then some (.starts .exports)
  else match Line.signature? cs with
    | some type => some (.starts (if Line.isFunctionType type then .function else .const))
    | none => if cs.contains '=' then some .definition else none

end Derw

import Derw.Block.Basic
import Derw.Yaml.Typed
import Derw.Yaml.Write

/-!
# Block/Document — blocks as a document

The blocks of a file are handed on as a document: a sequence with one mapping a block. Reading takes
back what writing gives, and more: fields that are missing or null are empty, other fields are
ignored, and a kind that is no name of a kind is unknown.
-/

namespace Derw

open Yaml (Node)

namespace Block

/-- Where the lines of a block stand in its document. -/
def lineMargin : Nat := 6

def entryText (b : Block) : String :=
  "- kind: " ++ b.kind.name ++ "\n  lineStart: " ++ toString b.lineStart ++ "\n  lines:"
    ++ if b.lines.isEmpty then " []\n"
      else "\n" ++
        String.join (b.lines.map fun l => "    - " ++ Yaml.scalarText lineMargin l ++ "\n")

/-- The block that a mapping describes. -/
def ofNode? (n : Node) : Option (Option Block) := do
  match ← n.fields? with
  | none => return none
  | some fields =>
    let kind ← Node.field? Node.text? "kind" fields
    let lineStart ← Node.field? Node.int? "lineStart" fields
    let lines ← Node.field? (Node.list? Node.text?) "lines" fields
    return some
      { kind := .ofName (kind.getD ""), lineStart := lineStart.getD 0, lines := lines.getD [] }

end Block

/-- The document of a list of blocks. -/
def blocksDocument (blocks : List Block) : String :=
  if blocks.isEmpty then "[]\n" else String.join (blocks.map Block.entryText)

/-- Reads a document of blocks; `none` if it is not one. -/
def readBlocks (text : String) : Option (List Block) := do
  match ← Yaml.readDocument text with
  | none => return []
  | some root => return (← root.list? Block.ofNode?).getD []

end Derw

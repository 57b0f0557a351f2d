import Derw.Text.Cut

/-!
# Block/Basic — the blocks of a source file

A source file is a sequence of blocks: runs of lines that belong to one declaration or comment. A
block remembers the line it starts on, counted from zero.
-/

namespace Derw

/-- What a block holds, as far as its first line tells. -/
inductive BlockKind
  | unknown
  | imports
  | exports
  | unionType
  | typeAlias
  | function
  | const
  | comment
  | multilineComment
  deriving DecidableEq, Repr

namespace BlockKind

def all : List BlockKind :=
  [unknown, imports, exports, unionType, typeAlias, function, const, comment, multilineComment]

def name : BlockKind → String
  | unknown => "Unknown"
  | imports => "Import"
  | exports => "Export"
  | unionType => "UnionType"
  | typeAlias => "TypeAlias"
  | function => "Function"
  | const => "Const"
  | comment => "Comment"
  | multilineComment => "MultilineComment"

/-- The kind of that name; any other name is unknown. -/
def ofName (name : String) : BlockKind := (all.find? (·.name == name)).getD unknown

@[simp] theorem ofName_name (k : BlockKind) : ofName k.name = k := by cases k <;> decide

end BlockKind

structure Block where
  kind : BlockKind
  lineStart : Int
  lines : List String
  deriving DecidableEq, Repr

/-- The source of the block. -/
def Block.text (b : Block) : String := Text.join "\n" b.lines

end Derw

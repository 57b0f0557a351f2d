/-!
# Yaml/Token — what the nesting of a document is read from

Indentation and flow brackets both become tokens, so a document's structure is a matter of tokens
alone. A token keeps the line it starts on, which is the line of the node it starts.
-/

namespace Derw.Yaml

/-- Whether a scalar stands bare or between quotes. A literal or folded scalar counts as quoted:
like a quoted one it is always text. -/
inductive Style
  | bare
  | quoted
  deriving DecidableEq, Repr

inductive TokenKind
  /-- `---` -/
  | documentStart
  /-- `...` -/
  | documentEnd
  | blockSequence
  | blockMapping
  | blockEnd
  | sequenceOpen
  | sequenceClose
  | mappingOpen
  | mappingClose
  /-- The `-` of a block sequence. -/
  | entry
  | comma
  | key
  | value
  | aliased (name : String)
  | anchor (name : String)
  | tag (name : String)
  | scalar (style : Style) (text : String)
  | textEnd
  deriving DecidableEq, Repr

structure Token where
  line : Nat
  kind : TokenKind
  deriving DecidableEq, Repr

end Derw.Yaml

/-!
# Glob/Pattern — glob patterns as trees

`*` and `**` stand for any text, `?` for one character, `[abc]`, `[a-z]` and `[!…]` for one of a
set, `{a,b}` for one of several patterns; a backslash takes the next character as it is. A bracket
must be closed and must not be empty, and a range must not descend; an open brace may stay open.
-/

namespace Derw.Glob

inductive Tree
  | pattern (parts : List Tree)
  | anyOf (alternatives : List Tree)
  | nothing
  /-- `*` -/
  | any
  /-- `**` -/
  | super
  /-- `?` -/
  | single
  | list (negated : Bool) (chars : List Char)
  | range (negated : Bool) (lo hi : Char)
  | text (chars : List Char)

mutual

def Tree.same : Tree → Tree → Bool
  | .pattern a, .pattern b => sameAll a b
  | .anyOf a, .anyOf b => sameAll a b
  | .nothing, .nothing | .any, .any | .super, .super | .single, .single => true
  | .list n cs, .list m ds => n == m && cs == ds
  | .range n a b, .range m c d => n == m && a == c && b == d
  | .text cs, .text ds => cs == ds
  | _, _ => false

def sameAll : List Tree → List Tree → Bool
  | [], [] => true
  | t :: ts, u :: us => t.same u && sameAll ts us
  | _, _ => false

end

inductive Token
  | piece (t : Tree)
  /-- `{` -/
  | opening
  /-- `,` between braces -/
  | separator
  /-- `}` -/
  | closing

/-- Where the reader of a pattern is. -/
inductive Place
  /-- In a text, read so far latest first; after a backslash or not. -/
  | text (acc : List Char) (escaped : Bool)
  /-- After `[` or `[!`. -/
  | bracket (negated : Bool)
  /-- In a set of characters. -/
  | chars (negated : Bool) (acc : List Char) (escaped : Bool)
  /-- After the `-` of a range. -/
  | upper (negated : Bool) (lo : Char)
  /-- Before the `]` of a range. -/
  | close (piece : Tree)

def textToken (acc : List Char) : List Token :=
  if acc.isEmpty then [] else [.piece (.text acc.reverse)]

/-- The tokens of a pattern, inside `depth` braces. -/
def tokensFrom (depth : Nat) : Place → List Char → Option (List Token)
  | .text acc _, [] => some (textToken acc)
  | _, [] => none
  | .text acc escaped, c :: cs =>
    if escaped then tokensFrom depth (.text (c :: acc) false) cs
    else
      let emit (t : Token) (rest : Option (List Token)) : Option (List Token) :=
        rest.map fun ts => textToken acc ++ t :: ts
      match c with
      | '\\' => tokensFrom depth (.text acc true) cs
      | '?' => emit (.piece .single) (tokensFrom depth (.text [] false) cs)
      | '*' =>
        match cs with
        | d :: ds =>
          if d == '*' then emit (.piece .super) (tokensFrom depth (.text [] false) ds)
          else emit (.piece .any) (tokensFrom depth (.text [] false) (d :: ds))
        | [] => some (textToken acc ++ [.piece .any])
      | '[' => (tokensFrom depth (.bracket false) cs).map (textToken acc ++ ·)
      | '\x7b' => emit .opening (tokensFrom (depth + 1) (.text [] false) cs)
      | ',' =>
        if 0 < depth then emit .separator (tokensFrom depth (.text [] false) cs)
        else tokensFrom depth (.text (c :: acc) false) cs
      | '\x7d' =>
        if 0 < depth then emit .closing (tokensFrom (depth - 1) (.text [] false) cs)
        else tokensFrom depth (.text (c :: acc) false) cs
      | _ => tokensFrom depth (.text (c :: acc) false) cs
  | .bracket negated, c :: cs =>
    if !negated && c == '!' then tokensFrom depth (.bracket true) cs
    else match cs with
      | d :: ds =>
        if d == '-' then tokensFrom depth (.upper negated c) ds
        else if c == ']' then none
        else if c == '\\' then tokensFrom depth (.chars negated [] true) (d :: ds)
        else tokensFrom depth (.chars negated [c] false) (d :: ds)
      | [] => none
  | .chars negated acc escaped, c :: cs =>
    if escaped then tokensFrom depth (.chars negated (c :: acc) false) cs
    else if c == '\\' then tokensFrom depth (.chars negated acc true) cs
    else if c == ']' then
      (tokensFrom depth (.text [] false) cs).map (.piece (.list negated acc.reverse) :: ·)
    else tokensFrom depth (.chars negated (c :: acc) false) cs
  | .upper negated lo, c :: cs =>
    if c < lo then none else tokensFrom depth (.close (.range negated lo c)) cs
  | .close piece, c :: cs =>
    if c == ']' then (tokensFrom depth (.text [] false) cs).map (.piece piece :: ·) else none

/-- An open brace: its finished alternatives and the parts before it, both latest first. -/
structure Frame where
  alternatives : List Tree
  before : List Tree

/-- The parts after an open brace is closed. -/
def Frame.finish (f : Frame) (parts : List Tree) : List Tree :=
  .anyOf ((.pattern parts.reverse :: f.alternatives).reverse) :: f.before

/-- Builds the tree; `parts` are those of the innermost pattern, latest first. -/
def treeFrom (frames : List Frame) (parts : List Tree) : List Token → Tree
  | [] => .pattern (frames.foldl (fun parts f => f.finish parts) parts).reverse
  | .piece t :: ts => treeFrom frames (t :: parts) ts
  | .opening :: ts => treeFrom (⟨[], parts⟩ :: frames) [] ts
  | .separator :: ts =>
    match frames with
    | f :: fs =>
      treeFrom ({ f with alternatives := .pattern parts.reverse :: f.alternatives } :: fs) [] ts
    | [] => treeFrom [] parts ts
  | .closing :: ts =>
    match frames with
    | f :: fs => treeFrom fs (f.finish parts) ts
    | [] => treeFrom [] parts ts

/-- Reads a pattern. The replacement character cannot stand in one. -/
def parse (pattern : String) : Option Tree :=
  let cs := pattern.toList
  if cs.contains (Char.ofNat 0xFFFD) then none
  else (tokensFrom 0 (.text [] false) cs).map (treeFrom [] [])

end Derw.Glob

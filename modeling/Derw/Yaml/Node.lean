import Derw.Yaml.Scan

/-!
# Yaml/Node — documents as trees

A document is a tree of scalars, sequences and mappings, with the line each node starts on. An alias
is a node of its own kind that carries the node it stands for; inside the very node it names there
is nothing to carry yet, and it is a `loop`. `readDocument` is the whole reader, from text to tree.
-/

namespace Derw.Yaml

mutual

/-- A node of a document. Lines are counted from one. -/
inductive Node
  | scalar (line : Nat) (style : Style) (tag : Option String) (text : String)
  | sequence (line : Nat) (items : List Node)
  | mapping (line : Nat) (entries : List Entry)
  | aliased (line : Nat) (name : String) (target : Node)
  | loop (line : Nat) (name : String)

/-- A key of a mapping with its value. -/
inductive Entry
  | mk (key value : Node)

end

namespace Entry

def key : Entry → Node
  | mk k _ => k

def value : Entry → Node
  | mk _ v => v

end Entry

namespace Node

def line : Node → Nat
  | scalar l .. | sequence l _ | mapping l _ | aliased l .. | loop l _ => l

/-- The spellings of nothing. -/
def nullWords : List String := ["", "~", "null", "Null", "NULL"]

/-- A scalar that says nothing: a bare one with no text or a null word. -/
def isNull : Node → Bool
  | scalar _ style tag text =>
    match tag with
    | some "" | none => style == .bare && nullWords.contains text
    | some t => t == "!!null"
  | _ => false

/-- The text under which a key is looked up; collections all count as the empty key. -/
def keyText : Node → String
  | scalar _ _ _ text => text
  | aliased _ name _ | loop _ name => name
  | sequence .. | mapping .. => ""

/-- The empty scalar, where a value is left out. -/
def empty (line : Nat) : Node := scalar (line + 1) .bare none ""

end Node

/-- The tokens still to be read and the anchors seen, latest first. An anchor whose node is still
being read has no node. -/
structure Reader where
  tokens : List Token
  anchors : List (String × Option Node) := []

namespace Reader

def peek (r : Reader) : Option Token := r.tokens.head?

def advance (r : Reader) : Reader := { r with tokens := r.tokens.tail }

/-- Opens an anchor, if there is one. -/
def openAnchor (r : Reader) : Option String → Reader
  | none => r
  | some name => { r with anchors := (name, none) :: r.anchors }

/-- Settles the anchor that was opened when there were `depth` others. -/
def settle (r : Reader) (depth : Nat) (node : Node) : Option String → Reader
  | none => r
  | some name =>
    { r with anchors := r.anchors.set (r.anchors.length - 1 - depth) (name, some node) }

/-- The anchor and the tag in front of a node. -/
structure Properties where
  anchor : Option String := none
  tag : Option String := none

def Properties.isEmpty (p : Properties) : Bool := p.anchor.isNone && p.tag.isNone

/-- Reads an anchor and a tag, in either order. -/
def properties (r : Reader) : Properties × Reader :=
  match r.tokens with
  | ⟨_, .anchor a⟩ :: ⟨_, .tag t⟩ :: ts =>
    ({ anchor := some a, tag := some t }, { r with tokens := ts })
  | ⟨_, .tag t⟩ :: ⟨_, .anchor a⟩ :: ts =>
    ({ anchor := some a, tag := some t }, { r with tokens := ts })
  | ⟨_, .anchor a⟩ :: ts => ({ anchor := some a }, { r with tokens := ts })
  | ⟨_, .tag t⟩ :: ts => ({ tag := some t }, { r with tokens := ts })
  | _ => ({}, r)

mutual

/-- One node. In a block it may be a block collection; as the value of a block mapping it may also
be a sequence that is not indented. -/
def node (block indentless : Bool) : (fuel : Nat) → Reader → Option (Node × Reader)
  | 0, _ => none
  | n + 1, r => do
    let first ← r.peek
    let line := first.line + 1
    match first.kind with
    | .aliased name =>
      match r.anchors.lookup name with
      | none => none
      | some (some target) => return (.aliased line name target, r.advance)
      | some none => return (.loop line name, r.advance)
    | _ =>
      let depth := r.anchors.length
      let (props, r) := r.properties
      let t ← r.peek
      let r := r.openAnchor props.anchor
      let (node, r) ← match t.kind with
        | .scalar style text => pure (Node.scalar line style props.tag text, r.advance)
        | .sequenceOpen => do
          let (items, r) ← flowItems true [] n r.advance
          pure (Node.sequence line items, r)
        | .mappingOpen => do
          let (entries, r) ← flowEntries true [] n r.advance
          pure (Node.mapping line entries, r)
        | kind =>
          if indentless && kind == .entry then do
            let (items, r) ← indentlessItems [] n r
            pure (Node.sequence line items, r)
          else if block && kind == .blockSequence then do
            let (items, r) ← blockItems [] n r.advance
            pure (Node.sequence line items, r)
          else if block && kind == .blockMapping then do
            let (entries, r) ← blockEntries [] n r.advance
            pure (Node.mapping line entries, r)
          else if props.isEmpty then none
          else pure (Node.scalar line .bare props.tag "", r)
      return (node, r.settle depth node props.anchor)

/-- The items of a block sequence, up to its end. -/
def blockItems (acc : List Node) : (fuel : Nat) → Reader → Option (List Node × Reader)
  | 0, _ => none
  | n + 1, r => do
    let t ← r.peek
    match t.kind with
    | .entry =>
      let r := r.advance
      let next ← r.peek
      if next.kind == .entry || next.kind == .blockEnd then
        blockItems (Node.empty t.line :: acc) n r
      else
        let (item, r) ← node true false n r
        blockItems (item :: acc) n r
    | .blockEnd => return (acc.reverse, r.advance)
    | _ => none

/-- The items of a sequence at the indentation of its key. -/
def indentlessItems (acc : List Node) : (fuel : Nat) → Reader → Option (List Node × Reader)
  | 0, _ => none
  | n + 1, r => do
    let t ← r.peek
    if t.kind == .entry then
      let r := r.advance
      let next ← r.peek
      if next.kind == .entry || next.kind == .key || next.kind == .value ||
          next.kind == .blockEnd then
        indentlessItems (Node.empty t.line :: acc) n r
      else
        let (item, r) ← node true false n r
        indentlessItems (item :: acc) n r
    else return (acc.reverse, r)

/-- The entries of a block mapping, up to its end. -/
def blockEntries (acc : List Entry) : (fuel : Nat) → Reader → Option (List Entry × Reader)
  | 0, _ => none
  | n + 1, r => do
    let t ← r.peek
    match t.kind with
    | .key =>
      let (key, r) ← blockPart t n r.advance
      let t ← r.peek
      let (value, r) ←
        if t.kind == .value then blockPart t n r.advance else pure (Node.empty t.line, r)
      blockEntries (.mk key value :: acc) n r
    | .blockEnd => return (acc.reverse, r.advance)
    | _ => none

/-- The key or the value behind the token that announces it. -/
def blockPart (announced : Token) : (fuel : Nat) → Reader → Option (Node × Reader)
  | 0, _ => none
  | n + 1, r => do
    let next ← r.peek
    if next.kind == .key || next.kind == .value || next.kind == .blockEnd then
      return (Node.empty announced.line, r)
    else node true true n r

/-- The items of a flow sequence, up to its bracket. -/
def flowItems (first : Bool) (acc : List Node) : (fuel : Nat) → Reader → Option (List Node × Reader)
  | 0, _ => none
  | n + 1, r => do
    let t ← r.peek
    if t.kind == .sequenceClose then return (acc.reverse, r.advance)
    let r ← if first then pure r else if t.kind == .comma then pure r.advance else none
    let t ← r.peek
    match t.kind with
    | .sequenceClose => return (acc.reverse, r.advance)
    | .key =>
      let (entry, r) ← flowPair n r.advance
      flowItems false (.mapping (t.line + 1) [entry] :: acc) n r
    | _ =>
      let (item, r) ← node false false n r
      flowItems false (item :: acc) n r

/-- A single entry that stands as an item of a flow sequence. -/
def flowPair : (fuel : Nat) → Reader → Option (Entry × Reader)
  | 0, _ => none
  | n + 1, r => do
    let t ← r.peek
    let (key, r) ←
      if t.kind == .value || t.kind == .comma || t.kind == .sequenceClose then
        pure (Node.empty t.line, r.advance)
      else node false false n r
    let (value, r) ← flowValue .sequenceClose n r
    return (.mk key value, r)

/-- The value of a flow entry, which may be left out. -/
def flowValue (close : TokenKind) : (fuel : Nat) → Reader → Option (Node × Reader)
  | 0, _ => none
  | n + 1, r => do
    let t ← r.peek
    if t.kind == .value then
      let r := r.advance
      let next ← r.peek
      if next.kind == .comma || next.kind == close then return (Node.empty next.line, r)
      else node false false n r
    else return (Node.empty t.line, r)

/-- The entries of a flow mapping, up to its brace. -/
def flowEntries (first : Bool) (acc : List Entry) :
    (fuel : Nat) → Reader → Option (List Entry × Reader)
  | 0, _ => none
  | n + 1, r => do
    let t ← r.peek
    if t.kind == .mappingClose then return (acc.reverse, r.advance)
    let r ← if first then pure r else if t.kind == .comma then pure r.advance else none
    let t ← r.peek
    match t.kind with
    | .mappingClose => return (acc.reverse, r.advance)
    | .key =>
      let r := r.advance
      let next ← r.peek
      let (key, r) ←
        if next.kind == .value || next.kind == .comma || next.kind == .mappingClose then
          pure (Node.empty next.line, r)
        else node false false n r
      let (value, r) ← flowValue .mappingClose n r
      flowEntries false (.mk key value :: acc) n r
    | _ =>
      let (key, r) ← node false false n r
      let next ← r.peek
      flowEntries false (.mk key (Node.empty next.line) :: acc) n r

end

end Reader

/-- The first document among the tokens, if there is one; the outer `none` is a fault. Whatever
comes after the root node ends the document, as long as it can be looked at. Each step of reading
takes a token or goes down to a part that does, so twice the number of tokens bounds the steps. -/
def firstDocument (tokens : List Token) : Option (Option Node) := do
  let fuel := 2 * tokens.length + 4
  let r : Reader := { tokens }
  let t ← r.peek
  match t.kind with
  | .textEnd => return none
  | .documentStart =>
    let r := r.advance
    let next ← r.peek
    if next.kind == .documentStart || next.kind == .documentEnd || next.kind == .textEnd then
      return some (Node.empty next.line)
    else
      let (root, r) ← r.node true false fuel
      let _ ← r.peek
      return some root
  | _ =>
    let (root, r) ← r.node true false fuel
    let _ ← r.peek
    return some root

/-- Reads the first document of a text: `none` if the text is malformed, `some none` if there is
nothing in it. -/
def readDocument (text : String) : Option (Option Node) := do
  firstDocument (scan (← glyphs text))

end Derw.Yaml

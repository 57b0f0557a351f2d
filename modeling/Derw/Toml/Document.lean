import Derw.Toml.Scalar

/-!
# Toml/Document — from text to the root table

A document is read line by line: a header, a pair, a comment or nothing, with blanks around. Arrays
and inline tables may go over several lines and may end in a comma.
-/

namespace Derw.Toml

def isBlank (c : Char) : Bool := c == ' ' || c == '\t'

def skipBlanks (cs : List Char) : List Char := cs.dropWhile isBlank

/-- Up to the end of the line. -/
def skipComment (cs : List Char) : List Char := cs.dropWhile (!isLineEnd ·)

/-- Skips blanks, line breaks and comments; `fuel` bounds their number. -/
def skipSpace : (fuel : Nat) → List Char → List Char
  | 0, cs => cs
  | n + 1, cs =>
    match cs with
    | c :: rest =>
      if isBlank c || isLineEnd c then skipSpace n rest
      else if c == '#' then skipSpace n (skipComment rest)
      else cs
    | [] => []

/-! ## Keys -/

def isKeyChar (c : Char) : Bool := c.isAlphanum || c == '_' || c == '-'

/-- One part of a key. -/
def keyPart? (cs : List Char) : Option (String × List Char) :=
  match cs with
  | '"' :: rest => basicRest [] (rest.length + 1) rest
  | '\'' :: rest => literalRest [] rest
  | _ =>
    let name := cs.takeWhile isKeyChar
    if name.isEmpty then none else some (String.ofList name, cs.drop name.length)

/-- The parts of a key, with dots between them and blanks around. -/
def key? : (fuel : Nat) → List Char → Option (List String × List Char)
  | 0, _ => none
  | n + 1, cs => do
    let (part, rest) ← keyPart? (skipBlanks cs)
    match skipBlanks rest with
    | '.' :: more =>
      let (parts, rest) ← key? n more
      return (part :: parts, rest)
    | rest => return ([part], rest)

/-! ## Values -/

/-- The entries of an inline table as one value; `none` if a key is set twice. -/
def inlineTable? (pairs : List (List String × Value)) : Option Value := do
  let t ← Table.ofStatements (pairs.map fun p => .pair p.1 p.2)
  return .inline (t.map fun e => (e.1, match e.2 with
    | .value v => v
    | .table .. | .tables _ => .inline []))

mutual

def value? : (fuel : Nat) → List Char → Option (Value × List Char)
  | 0, _ => none
  | n + 1, cs =>
    match skipBlanks cs with
    | '[' :: rest => (items? n rest).map fun r => (.array r.1, r.2)
    | '\x7b' :: rest => do
      let (pairs, rest) ← pairs? n rest
      return (← inlineTable? pairs, rest)
    | c :: rest =>
      if c == '"' || c == '\'' then (quoted? (c :: rest)).map fun r => (.text r.1, r.2)
      else
        let (w, rest) := cutWord (c :: rest)
        (word? w).map (·, rest)
    | [] => none

/-- The items of an array, up to its bracket. -/
def items? : (fuel : Nat) → List Char → Option (List Value × List Char)
  | 0, _ => none
  | n + 1, cs =>
    match skipSpace cs.length cs with
    | ']' :: rest => some ([], rest)
    | cs => do
      let (v, rest) ← value? n cs
      match skipSpace rest.length rest with
      | ',' :: rest => (items? n rest).map fun r => (v :: r.1, r.2)
      | ']' :: rest => return ([v], rest)
      | _ => none

/-- The pairs of an inline table, up to its brace. -/
def pairs? : (fuel : Nat) → List Char → Option (List (List String × Value) × List Char)
  | 0, _ => none
  | n + 1, cs =>
    match skipSpace cs.length cs with
    | '\x7d' :: rest => some ([], rest)
    | cs => do
      let (path, v, rest) ← pair? n cs
      match skipSpace rest.length rest with
      | ',' :: rest => (pairs? n rest).map fun r => ((path, v) :: r.1, r.2)
      | '\x7d' :: rest => return ([(path, v)], rest)
      | _ => none

/-- A key and its value. -/
def pair? : (fuel : Nat) → List Char → Option (List String × Value × List Char)
  | 0, _ => none
  | n + 1, cs => do
    let (path, rest) ← key? (cs.length + 1) cs
    match rest with
    | '=' :: rest =>
      let (v, rest) ← value? n rest
      return (path, v, rest)
    | _ => none

end

/-! ## Statements -/

/-- What comes after a statement: nothing, a comment, or the next line. -/
def lineEnd? (cs : List Char) : Option (List Char) :=
  match skipBlanks cs with
  | [] => some []
  | c :: rest =>
    if c == '#' then some (skipComment rest) else if isLineEnd c then some (c :: rest) else none

/-- One statement, and what is left behind it. -/
def statement? (cs : List Char) : Option (Statement × List Char) :=
  match cs with
  | '[' :: '[' :: rest => do
    let (path, rest) ← key? (rest.length + 1) rest
    match rest with
    | ']' :: ']' :: rest => return (.element path, rest)
    | _ => none
  | '[' :: rest => do
    let (path, rest) ← key? (rest.length + 1) rest
    match rest with
    | ']' :: rest => return (.header path, rest)
    | _ => none
  | _ => do
    let (path, v, rest) ← pair? (2 * cs.length + 2) cs
    return (.pair path v, rest)

/-- All statements; each takes at least one character. -/
def statements? : (fuel : Nat) → List Char → Option (List Statement)
  | 0, _ => none
  | n + 1, cs =>
    match skipSpace cs.length cs with
    | [] => some []
    | cs => do
      let (s, rest) ← statement? cs
      return s :: (← statements? n (← lineEnd? rest))

/-- Whether every character may stand in a document: of the control characters only tabs and line
ends, and carriage returns only before line feeds. -/
def isAdmitted : List Char → Bool
  | [] => true
  | '\r' :: cs => cs.head? == some '\n' && isAdmitted cs
  | c :: cs => (c == '\t' || c == '\n' || (0x20 ≤ c.toNat && c.toNat != 0x7F)) && isAdmitted cs

/-- Reads a document; `none` if it is malformed. -/
def readDocument (text : String) : Option Table :=
  let cs := match text.toList with
    | [] => []
    | c :: cs => if c.toNat == 0xFEFF then cs else c :: cs
  if isAdmitted cs then (statements? (cs.length + 1) cs).bind Table.ofStatements else none

end Derw.Toml

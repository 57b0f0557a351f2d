import Derw.Text.Utf8

/-!
# Glob/Matcher — programs that match names

A matcher decides about a whole text (`accepts`), and finds where a text starts that it accepts,
with the lengths such a text may have (`find`). Texts are bytes. Lengths known beforehand
(`length?`) count characters, and a row of matchers cuts its text by them: each matcher gets the
bytes up to the first byte of its last character. So a row matches ASCII names as expected, and no
name with a longer character in a place where a text or a set is asked for.
-/

namespace Derw.Glob

open Text (Bytes charsOf firstChar byteLength indexOf?)

inductive Matcher
  /-- Any text. -/
  | super
  /-- Any character. -/
  | single
  | text (bytes : Bytes) (chars : Nat)
  | list (negated : Bool) (codes : List Nat)
  | range (negated : Bool) (lo hi : Nat)
  | nothing
  /-- At least so many characters. -/
  | atLeast (n : Nat)
  /-- At most so many characters. -/
  | atMost (n : Nat)
  /-- The text does not occur. -/
  | lacks (part : Bytes)
  /-- The text occurs. -/
  | holds (part : Bytes)
  | startsWith (head : Bytes)
  | endsWith (tail : Bytes)
  /-- Starts with one text and ends with another; the two may overlap. -/
  | between (head tail : Bytes)
  /-- One after another, `chars` characters in all. -/
  | row (chars : Nat) (matchers : List Matcher)
  | anyOf (matchers : List Matcher)
  | everyOf (matchers : List Matcher)
  /-- Something around the first fitting occurrence of `value`. -/
  | around (value left right : Matcher)

namespace Matcher

mutual

/-- How many characters an accepted text has, where the matcher fixes it. -/
def length? : Matcher → Option Nat
  | .single | .list .. | .range .. => some 1
  | .text _ chars => some chars
  | .nothing => some 0
  | .row chars _ => some chars
  | .anyOf ms => commonLength none ms
  | .everyOf ms => if ms.isEmpty then some 0 else none
  | .around value left right =>
    match value.length?, left.length?, right.length? with
    | some v, some l, some r => some (l + v + r)
    | _, _, _ => none
  | .super | .atLeast _ | .atMost _ | .lacks _ | .holds _ | .startsWith _ | .endsWith _
  | .between .. => none

/-- The length shared with those before, `known`; leading matchers of no fixed length are passed
over. -/
def commonLength (known : Option Nat) : List Matcher → Option Nat
  | [] => known
  | m :: ms =>
    match known, m.length? with
    | none, l => commonLength l ms
    | some _, none => none
    | some k, some l => if k = l then commonLength known ms else none

end

/-- A matcher for one character accepts a text of at most one character. -/
def oneChar (p : Nat → Bool) (s : Bytes) : Bool :=
  let (code, width) := firstChar s
  s.length ≤ width && p code

/-- The first character that passes. -/
def findChar (p : Nat → Bool) (s : Bytes) : Option (Nat × List Nat) :=
  ((charsOf s).find? fun c => p c.2).map fun c => (c.1, [byteLength c.2])

/-- Where the ends of the characters lie, counted from `offset`. -/
def charEnds (offset : Nat) (s : Bytes) : List Nat :=
  (charsOf s).map fun c => offset + c.1 + byteLength c.2

/-- Where the characters start, and the end. -/
def charStarts (offset : Nat) (s : Bytes) : List Nat :=
  ((charsOf s).map fun c => offset + c.1) ++ [offset + s.length]

/-- Where the start of the `n`-th character lies, and whether there are so many. -/
def cutLength (n : Nat) (s : Bytes) : Nat × Bool :=
  let cs := charsOf s
  if n = 0 then ((cs.getLast?.map (·.1)).getD 0, true)
  else match cs[n - 1]? with
    | some c => (c.1, true)
    | none => (0, false)

/-- The union of two ascending lists. -/
def mergeLengths : List Nat → List Nat → List Nat
  | xs, [] => xs
  | xs, y :: ys =>
    mergeLengths (xs.takeWhile (· < y) ++ y :: (xs.dropWhile (· < y)).filter (· != y)) ys

/-- The lengths up to each occurrence of `tail`, counted from the last one back; `fuel` bounds their
number. -/
def tailEnds (tail : Bytes) : (fuel : Nat) → Bytes → List Nat
  | 0, _ => []
  | n + 1, s =>
    match Text.lastIndexOf? tail s with
    | none => []
    | some i => tailEnds tail n (s.take i) ++ [i + tail.length]

/-- Tries the occurrences of the middle matcher from `offset` on, the longest first at each
place. -/
def search (find : Bytes → Option (Nat × List Nat)) (left right : Bytes → Bool) (s : Bytes)
    (limit : Nat) : (fuel offset : Nat) → Bool
  | 0, _ => false
  | n + 1, offset =>
    if limit ≤ offset then false
    else match find ((s.take limit).drop offset) with
      | none => false
      | some (i, lengths) =>
        if left (s.take (offset + i)) &&
            lengths.reverse.any (fun l => right (s.drop (offset + i + l)))
        then true
        else search find left right s limit n (offset + i + (firstChar (s.drop (offset + i))).2)

/-- Keeps the lengths that the next matcher finds too. -/
def commonLengths (delta : Int) (current lengths : List Nat) : List Nat :=
  current.flatMap fun (x : Nat) => lengths.filter fun (l : Nat) => (x : Int) + delta == (l : Int)

mutual

/-- Whether the matcher accepts the whole text. -/
def accepts : Matcher → Bytes → Bool
  | .super, _ => true
  | .single, s => oneChar (fun _ => true) s
  | .text bytes _, s => s == bytes
  | .list negated codes, s => oneChar (fun c => codes.contains c != negated) s
  | .range negated lo hi, s => oneChar (fun c => (lo ≤ c && c ≤ hi) != negated) s
  | .nothing, s => s.isEmpty
  | .atLeast n, s => 0 < (charsOf s).length && n ≤ (charsOf s).length
  | .atMost n, s => (charsOf s).length ≤ n
  | .lacks part, s => (indexOf? part s).isNone
  | .holds part, s => (indexOf? part s).isSome
  | .startsWith head, s => head.isPrefixOf s
  | .endsWith tail, s => tail.isSuffixOf s
  | .between head tail, s => head.isPrefixOf s && tail.isSuffixOf s
  | .row chars ms, s => (charsOf s).length == chars && rowAccepts ms s
  | .anyOf ms, s => someAccepts ms s
  | .everyOf ms, s => allAccept ms s
  | .around value left right, s =>
    let total := (Matcher.around value left right).length?
    if (total.map fun n => decide (s.length < n)) == some true then false
    else
      let limit := match right.length? with
        | some n => s.length - n
        | none => s.length
      search (fun t => value.find t) (fun t => left.accepts t) (fun t => right.accepts t) s limit
        (s.length + 1) (left.length?.getD 0)

/-- The matchers of a row, each on its cut of the text. -/
def rowAccepts : List Matcher → Bytes → Bool
  | [], _ => true
  | m :: ms, s =>
    let (last, enough) := cutLength (m.length?.getD 0) s
    enough && m.accepts (s.take (last + 1)) && rowAccepts ms (s.drop (last + 1))

def someAccepts : List Matcher → Bytes → Bool
  | [], _ => false
  | m :: ms, s => m.accepts s || someAccepts ms s

def allAccept : List Matcher → Bytes → Bool
  | [], _ => true
  | m :: ms, s => m.accepts s && allAccept ms s

/-- Where an accepted text first starts, and the lengths it may have, ascending. -/
def find : Matcher → Bytes → Option (Nat × List Nat)
  | .super, s => some (0, charStarts 0 s)
  | .single, s => findChar (fun _ => true) s
  | .text bytes _, s => (indexOf? bytes s).map fun i => (i, [bytes.length])
  | .list negated codes, s => findChar (fun c => codes.contains c != negated) s
  | .range negated lo hi, s => findChar (fun c => (lo ≤ c && c ≤ hi) != negated) s
  | .nothing, _ => some (0, [0])
  | .atLeast n, s =>
    if s.length < n then none
    else
      let ends := (charEnds 0 s).drop (n - 1)
      if ends.isEmpty then none else some (0, ends)
  | .atMost n, s => some (0, 0 :: (charEnds 0 s).take n)
  | .lacks part, s =>
    some (0, charStarts 0 (match indexOf? part s with
      | some i => s.take i
      | none => s))
  | .holds part, s =>
    (indexOf? part s).map fun i =>
      let offset := i + part.length
      if s.length ≤ offset then (0, [offset]) else (0, charStarts offset (s.drop offset))
  | .startsWith head, s =>
    (indexOf? head s).map fun i =>
      (i, head.length :: charEnds head.length (s.drop (i + head.length)))
  | .endsWith tail, s => (indexOf? tail s).map fun i => (0, [i + tail.length])
  | .between head tail, s =>
    match indexOf? head s with
    | none => none
    | some i =>
      if tail.isEmpty then some (i, [s.length - i])
      else if s.length ≤ i then none
      else
        let ends := tailEnds tail s.length (s.drop i)
        if ends.isEmpty then none else some (i, ends)
  | .row chars ms, s =>
    ((charsOf s).map (·.1)).find? (fun i => chars ≤ s.length - i && rowAccepts ms (s.drop i))
      |>.map fun i => (i, [chars])
  | .anyOf ms, s => findAny ms s none
  | .everyOf ms, s => findEvery ms s s 0 0 none
  | .around .., _ => none

/-- The earliest of several; at the same place, the lengths of all. -/
def findAny : List Matcher → Bytes → Option (Nat × List Nat) → Option (Nat × List Nat)
  | [], _, best => best
  | m :: ms, s, best =>
    let next := match m.find s, best with
      | none, best => best
      | some found, none => some found
      | some (i, lengths), some (j, known) =>
        if i < j then some (i, lengths)
        else if j < i then some (j, known)
        else some (j, mergeLengths known lengths)
    findAny ms s next

/-- The lengths that all find, each looking on from where the one before found something. -/
def findEvery : List Matcher → Bytes → Bytes → (index offset : Nat) → Option (List Nat) →
    Option (Nat × List Nat)
  | [], _, _, index, _, current => some (index, current.getD [])
  | m :: ms, s, sub, index, offset, current =>
    match m.find sub with
    | none => none
    | some (i, lengths) =>
      let next := match current with
        | none => lengths
        | some c => commonLengths ((index : Int) - (i + offset : Nat)) c lengths
      if current.isSome && next.isEmpty then none
      else findEvery ms s (s.drop (i + offset)) (i + offset) (offset + i) (some next)

end

end Matcher

end Derw.Glob

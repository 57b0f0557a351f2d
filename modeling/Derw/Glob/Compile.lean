import Derw.Glob.Matcher
import Derw.Glob.Pattern

/-!
# Glob/Compile — from patterns to matchers

Neighbouring matchers are glued where one matcher can do their work: wildcards into a count of
characters, matchers of fixed length into a row. What is left is searched for around its longest
matcher of fixed length, since that is the quickest to refuse a name. Alternatives that begin or end
alike share those parts (`factored?`).
-/

namespace Derw.Glob

open Text (bytesOf)

/-! ## Gluing -/

/-- The characters that a wildcard keeps out, and how many characters it asks for; none for other
matchers. -/
def wildcard? : Matcher → Option (List Nat × Nat)
  | .super => some ([], 0)
  | .single => some ([], 1)
  | .list true codes => some (codes, 1)
  | _ => none

def Matcher.isSuper : Matcher → Bool
  | .super => true
  | _ => false

/-- The text of a list of codes. -/
def textOf (codes : List Nat) : String := String.ofList (codes.map Char.ofNat)

/-- Wildcards that keep out the same characters, as one matcher. -/
def glueWildcards (ms : List Matcher) : Option Matcher :=
  match ms.mapM wildcard? with
  | some ((excluded, n) :: rest) =>
    if rest.isEmpty || !rest.all (·.1 == excluded) then none
    else
      let least := (rest.map (·.2)).foldl (· + ·) n
      let open? := ms.any Matcher.isSuper
      if least == 0 then some .super
      else if open? && excluded.isEmpty then some (.atLeast least)
      else
        let counts : List Matcher := .atLeast least :: if open? then [] else [.atMost least]
        let lacking := if excluded.isEmpty then [] else [.lacks (bytesOf (textOf excluded))]
        some (.everyOf (counts ++ lacking))
  | _ => none

/-- Matchers of fixed length, as a row. -/
def glueRow (ms : List Matcher) : Option Matcher :=
  if ms.length ≤ 1 then none
  else (ms.mapM Matcher.length?).map fun lengths => .row (lengths.foldl (· + ·) 0) ms

def glue (ms : List Matcher) : Option Matcher := (glueWildcards ms).orElse fun _ => glueRow ms

/-- A run of matchers and the matcher that can stand for it. -/
structure Glued where
  start : Nat
  count : Nat
  matcher : Matcher

/-- Whether a run found later is to be taken instead: it is longer in characters or in matchers. -/
def Glued.improves (new old : Glued) : Bool :=
  old.count < new.count
    || match old.matcher.length?, new.matcher.length? with
      | some a, some b => a < b
      | _, _ => false

/-- The runs that can be glued, by start, longest first. -/
def runs (ms : List Matcher) : List Glued :=
  (List.range ms.length).flatMap fun start =>
    (List.range (ms.length - start)).reverse.filterMap fun i =>
      (glue ((ms.drop start).take (i + 1))).map fun m => ⟨start, i + 1, m⟩

/-- Glues the best run, again and again; each time there are fewer matchers. -/
def minimize : (fuel : Nat) → List Matcher → List Matcher
  | 0, ms => ms
  | n + 1, ms =>
    let best := (runs ms).foldl (fun (best : Option Glued) g =>
      match best with
      | none => some g
      | some b => if g.improves b then some g else some b) none
    match best with
    | none => ms
    | some g => minimize n (ms.take g.start ++ g.matcher :: ms.drop (g.start + g.count))

/-! ## Searching -/

/-- Puts a simpler matcher in place of a search where there is one. -/
def simplify : Matcher → Matcher
  | .anyOf [m] => m
  | .list false [code] => .text (bytesOf (textOf [code])) 1
  | .around value left right =>
    match value, simplify left, simplify right with
    | .text bytes chars, .nothing, .nothing => .text bytes chars
    | .text bytes _, .super, .super => .holds bytes
    | .text bytes _, .super, .nothing => .endsWith bytes
    | .text bytes _, .nothing, .super => .startsWith bytes
    | .text bytes _, .nothing, .endsWith tail => .between bytes tail
    | .text bytes _, .startsWith head, .nothing => .between head bytes
    | value, left, right => .around value left right
  | m => m

/-- The position of the last of the longest matchers of fixed length. -/
def longest (ms : List Matcher) : Option Nat :=
  let step (best : Option (Nat × Nat)) (m : Matcher × Nat) : Option (Nat × Nat) :=
    match m.1.length?, best with
    | none, best => best
    | some l, none => some (m.2, l)
    | some l, some (i, k) => if k ≤ l then some (m.2, l) else some (i, k)
  (ms.zipIdx.foldl step none).map (·.1)

/-- One matcher for matchers in sequence. -/
def sequence : (fuel : Nat) → List Matcher → Matcher
  | _, [] => .nothing
  | _, [m] => m
  | 0, _ => .nothing
  | n + 1, m :: ms =>
    match glue (m :: ms) with
    | some glued => glued
    | none =>
      match longest (m :: ms) with
      | none => .around m .nothing (sequence n ms)
      | some i =>
        match (m :: ms)[i]? with
        | some value =>
          .around value (sequence n ((m :: ms).take i)) (sequence n ((m :: ms).drop (i + 1)))
        | none => .nothing

/-! ## Alternatives -/

def partsOf? : Tree → Option (List Tree)
  | .pattern parts => some parts
  | _ => none

/-- How far the shared beginnings and ends of alternatives have been followed. -/
structure Shared where
  left : Nat := 0
  right : Nat := 0
  leftEnded : Bool := false
  rightEnded : Bool := false

/-- Compares the part at `i` from the left and the part at `j` of the shortest alternative with
another alternative. -/
def Shared.compare (shortest : List Tree) (i j : Nat) (s : Shared) (other : List Tree) : Shared :=
  if s.leftEnded && s.rightEnded then s
  else
    let same (a b : Option Tree) : Bool := match a, b with
      | some t, some u => t.same u
      | _, _ => false
    let leftEnded := s.leftEnded || !same shortest[i]? other[i]?
    let rightEnded := s.rightEnded || (!leftEnded && j ≤ i)
      || !same shortest[j]? other[j + other.length - shortest.length]?
    { s with leftEnded, rightEnded }

/-- One more part from each side, `remaining` parts before the right one. -/
def Shared.follow (shortest : List Tree) (others : List (List Tree)) (s : Shared) :
    (remaining : Nat) → Shared
  | 0 => s
  | j + 1 =>
    if shortest.length ≤ s.left + s.right || (s.leftEnded && s.rightEnded) then s
    else
      let i := shortest.length - (j + 1)
      let s := others.foldl (fun s o => s.compare shortest i j o) s
      let s := { s with
        left := if s.leftEnded then s.left else s.left + 1
        right := if s.rightEnded then s.right else shortest.length - j }
      follow shortest others s j

/-- How many parts the alternatives share at the left and at the right. -/
def sharedParts (alternatives : List (List Tree)) : Nat × Nat :=
  if alternatives.length ≤ 1 then (0, 0)
  else
    let least := (alternatives.map List.length).min?.getD 0
    let at? := alternatives.findIdx? (·.length == least)
    match at?, at?.bind (alternatives[·]?) with
    | some k, some shortest =>
      let s := Shared.follow shortest (alternatives.eraseIdx k) {} shortest.length
      (s.left, s.right)
    | _, _ => (0, 0)

def addDistinct (ts : List Tree) (t : Tree) : List Tree :=
  if ts.any (·.same t) then ts else ts ++ [t]

/-- Alternatives with their shared beginning and end written once; `none` if they share nothing. -/
def factored? (alternatives : List Tree) : Option Tree := do
  let parts ← alternatives.mapM partsOf?
  let (left, right) := sharedParts parts
  if left == 0 && right == 0 then none
  else
    let first := parts.headD []
    let middles := parts.foldl (fun ts ps =>
      let middle := (ps.drop left).take (ps.length - left - right)
      addDistinct ts (if middle.isEmpty then .nothing else .pattern middle)) []
    let middle : List Tree := match middles with
      | [.nothing] => []
      | [t] => [t]
      | ts => [.anyOf ts]
    let before : List Tree := if left == 0 then [] else [.pattern (first.take left)]
    let after : List Tree :=
      if right == 0 then [] else [.pattern (first.drop (first.length - right))]
    some (.pattern (before ++ middle ++ after))

/-- The matcher of a pattern. -/
def matcherOf : (fuel : Nat) → Tree → Matcher
  | 0, _ => .nothing
  | n + 1, .anyOf alternatives =>
    match factored? alternatives with
    | some t => matcherOf n t
    | none => .anyOf (alternatives.map fun t => simplify (matcherOf n t))
  | n + 1, .pattern parts =>
    if parts.isEmpty then .nothing
    else
      let ms := minimize parts.length (parts.map fun t => simplify (matcherOf n t))
      simplify (sequence ms.length ms)
  | _ + 1, .nothing => .nothing
  | _ + 1, .any | _ + 1, .super => .super
  | _ + 1, .single => .single
  | _ + 1, .list negated chars => simplify (.list negated (chars.map Char.toNat))
  | _ + 1, .range negated lo hi => .range negated lo.toNat hi.toNat
  | _ + 1, .text chars => .text (bytesOf (String.ofList chars)) chars.length

/-- The test for whole names that a pattern stands for; `none` if it is no pattern. Every step
towards the matcher of a part drops a brace, a shared part or a level of the tree, of which there
are no more than `8 * length`. -/
def compile? (pattern : String) : Option (String → Bool) :=
  (parse pattern).map fun t =>
    let m := matcherOf (8 * pattern.length + 8) t
    fun name => m.accepts (bytesOf name)

end Derw.Glob

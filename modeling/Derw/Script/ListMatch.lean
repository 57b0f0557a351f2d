import Derw.Script.Match

/-!
# Script/ListMatch — list patterns

A binder between the ends of a list pattern that stands before a searchable shape is a *gap*: it
takes the elements up to the first one of that shape. A pattern without gaps is a length guard and
one destructuring declaration (`gapless`). A pattern with gaps is laid out as a `plan`: positions
before the first gap are fixed, each gap searches for the element after it, and every later position
is counted from the element found last.
-/

namespace Derw.Script

/-- What a gap can search for. -/
def searchable : Part → Bool
  | .shape (.tag ..) | .shape (.text _) | .shape (.format _) => true
  | .shape .empty | .binder _ => false

/-- Whether one of the parts, the first of which has this position, is a gap. -/
def hasGapFrom (position : Nat) : List Part → Bool
  | .binder _ :: next :: ps =>
    (position != 0 && searchable next) || hasGapFrom (position + 1) (next :: ps)
  | _ :: ps => hasGapFrom (position + 1) ps
  | [] => false

def hasGap (parts : List Part) : Bool := hasGapFrom 0 parts

/-! ## Patterns without gaps -/

/-- How many parts take exactly one element: all but a binder or `[]` at the end. -/
def requiredLength (parts : List Part) : Nat :=
  match parts.getLast? with
  | some (.binder _) | some (.shape .empty) => parts.length - 1
  | _ => parts.length

/-- The name of the element that a part takes. -/
def elementName (position : Nat) : Part → String
  | .binder name => name
  | .shape _ => placeholder position

/-- What a part asks of the element it takes. -/
def elementChecks (position : Nat) : Part → List Cond
  | .binder _ => []
  | .shape s => [.passes (.name (placeholder position)) (testOf s)]

/-- The declarations of the fields of the element that a part takes. -/
def elementFields (position : Nat) : Part → List Bind
  | .binder _ => []
  | .shape s => fieldBinds (.name (placeholder position)) s

/-- The match of a pattern without gaps. -/
def gapless (parts : List Part) : Nest :=
  let n := requiredLength parts
  let fixed := parts.take n
  let (length, rest) : Cond × Option String := match parts[n]? with
    | some (.binder name) => (.lengthAtLeast n, some name)
    | some (.shape _) => (.lengthIs { offset := n }, none)
    | none => (.lengthAtLeast n, none)
  let names := fixed.mapIdx elementName
  let checks := (fixed.mapIdx elementChecks).flatten
  let fields := (fixed.mapIdx elementFields).flatten
  let inner := Nest.guarded checks (Nest.binds fields .body)
  .guard [length]
    (if names.isEmpty && rest.isNone then inner else .bind (.elements names rest) inner)

/-! ## Plans -/

inductive Step
  | check (c : Cond)
  | bind (b : Bind)
  /-- Looks from `start` on for the first element that passes. -/
  | scan (id : Nat) (start : Index) (test : Test)
  deriving DecidableEq, Repr

def Index.next (i : Index) : Index := { i with offset := i.offset + 1 }

/-- The element of a shape: its name, its test unless a search has made it, and its fields. -/
def elementSteps (position : Nat) (s : Shape) (index : Index) (check : Bool) : List Step :=
  .bind (.element (placeholder position) index)
    :: (if check then [.check (.passes (.name (placeholder position)) (testOf s))] else [])
    ++ (fieldBinds (.name (placeholder position)) s).map .bind

/-- The steps for the parts from `position` on, after `scans` searches, at the element `cursor`. -/
def planFrom (position scans : Nat) (cursor : Index) : List Part → List Step
  | [] => []
  | [.binder name] => [.bind (.slice name cursor none)]
  | [.shape .empty] => [.check (.lengthIs cursor)]
  | .binder name :: .shape s :: ps =>
    if position != 0 && searchable (.shape s) then
      let found : Index := { base := some scans }
      .scan scans cursor (testOf s) :: .bind (.slice name cursor (some found))
        :: elementSteps (position + 1) s found false
        ++ planFrom (position + 2) (scans + 1) found.next ps
    else
      .check (.lengthOver cursor) :: .bind (.element name cursor)
        :: planFrom (position + 1) scans cursor.next (.shape s :: ps)
  | .binder name :: .binder other :: ps =>
    .check (.lengthOver cursor) :: .bind (.element name cursor)
      :: planFrom (position + 1) scans cursor.next (.binder other :: ps)
  | .shape s :: ps =>
    .check (.lengthOver cursor) :: elementSteps position s cursor true
      ++ planFrom (position + 1) scans cursor.next ps

/-- The steps that match a pattern. -/
def plan (parts : List Part) : List Step := planFrom 0 0 {} parts

/-- Nests steps: checks that follow each other share one guard, and a search opens the scope of all
that comes after it. -/
def Nest.ofSteps (pending : List Cond) : List Step → Nest
  | [] => .guarded pending .body
  | .check c :: ss => ofSteps (pending ++ [c]) ss
  | .bind b :: ss => .guarded pending (.bind b (ofSteps [] ss))
  | .scan id start test :: ss => .guarded pending (.search id start test (ofSteps [] ss))

/-- The match of a list pattern. -/
def listMatch (parts : List Part) : Nest :=
  if parts.isEmpty then .guard [.lengthIs {}] .body
  else if hasGap parts then .ofSteps [] (plan parts)
  else gapless parts

end Derw.Script

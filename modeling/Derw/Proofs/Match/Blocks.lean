import Derw.Proofs.Match.Bounds
import Derw.Proofs.Match.Nesting

/-!
# Proofs/Match/Blocks — a match under the names of the program

A `Store` keeps the names of a pattern apart from the counters of its searches, and what is declared
hides what was declared before. The program has one kind of names for all of them (`Var.text`), the
subject included, and rules for them: a block that declares a name twice makes the whole program
none, and between the start of its block and its declaration a name holds nothing, not even what it
holds outside. `Code.start` runs the statements of a match under these rules.

A format pattern asks for the text of a template, and a template reads the names that are in scope
where it stands (`Meaning`). In the program that is the place of its guard; for a plan, it is the
step that makes the test (`Step.runIn`).
-/

namespace Derw.Script

variable {V : Type}

/-! ## Names in scope -/

/-- What each name in scope holds. A name that holds nothing cannot be read: no block around
declares it, or its block does so only further down. -/
abbrev Env (V : Type) := String → Option (Held V)

namespace Env

/-- Enters a block that declares these names. -/
def hide (names : List String) (ρ : Env V) : Env V := fun n => if n ∈ names then none else ρ n

/-- Leaves a block that declares these names. What it has assigned to others stays. -/
def leave (names : List String) (outside inside : Env V) : Env V :=
  fun n => if n ∈ names then outside n else inside n

/-- Comes to the declaration of these names. -/
def declare (ρ : Env V) (entries : List (String × Held V)) : Env V :=
  fun n => (entries.reverse.lookup n).or (ρ n)

end Env

/-- What is in scope after the declarations of a match. -/
def Store.env (σ : Store V) (outer : Env V) : Env V := fun n => (σ.lookup (.name n)).or (outer n)

/-- What values and templates mean. The text of a template depends on the names in scope, and there
is none if it reads one that holds nothing. -/
structure Meaning (V : Type) extends Values V where
  template : String → Env V → Option String

/-! ## Tests in scope

To be equal to a template is to be equal to the text that it stands for. -/

section

variable (M : Meaning V) (ρ : Env V)

def Test.settle : Test → Option Test
  | .format body => (M.template body ρ).map .text
  | t => some t

def Cond.settle : Cond → Option Cond
  | .passes place t => (t.settle M ρ).map (.passes place)
  | c => some c

def Step.settle : Step → Option Step
  | .check c => (c.settle M ρ).map .check
  | .bind b => some (.bind b)
  | .scan id start t => (t.settle M ρ).map (.scan id start)

end

namespace Step

/-- Runs a step where its tests see what was declared before it, and the names outside. -/
def runIn (M : Meaning V) (outer : Env V) (subject : Held V) (σ : Store V) (s : Step) :
    Except Halt (Store V) :=
  match s.settle M (σ.env outer) with
  | some t => t.run M.toValues subject σ
  | none => .error .fault

/-- Runs steps in order. -/
def runAllIn (M : Meaning V) (outer : Env V) (subject : Held V) (σ : Store V) :
    List Step → Except Halt (Store V)
  | [] => .ok σ
  | s :: ss => (s.runIn M outer subject σ).bind fun τ => runAllIn M outer subject τ ss

end Step

/-! ## Statements in scope

The same as in a store, but every variable is looked up by its name. -/

def Index.at (ρ : Env V) (i : Index) : Option Nat :=
  match i.base with
  | none => some i.offset
  | some id =>
    match ρ (foundName id) with
    | some (.position (.ofNat n)) => some (n + i.offset)
    | _ => none

def Place.at (s : String) (ρ : Env V) : Place → Option (Held V)
  | .subject => ρ s
  | .name n => ρ n

def Cond.holdsAt (M : Meaning V) (s : String) (ρ : Env V) : Cond → Option Bool
  | .lengthAtLeast n => (ρ s).map fun h => h.elements?.any (n ≤ ·.length)
  | .lengthOver i => do
    let h ← ρ s
    let k ← i.at ρ
    return h.elements?.any (k < ·.length)
  | .lengthIs i => do
    let h ← ρ s
    let k ← i.at ρ
    return h.elements?.any (·.length == k)
  | .passes place test => do
    let h ← place.at s ρ
    let t ← test.settle M ρ
    h.test M.toValues t

def Bind.entriesAt (M : Meaning V) (s : String) (ρ : Env V) :
    Bind → Option (List (String × Held V))
  | .fields pattern source => (source.at s ρ).bind (Held.fields M.toValues pattern)
  | .element name position => do
    let h ← ρ s
    let xs ← h.elements?
    let k ← position.at ρ
    let v ← xs[k]?
    return [(name, .one v)]
  | .slice name start stop => do
    let h ← ρ s
    let xs ← h.elements?
    let k ← start.at ρ
    let j ← stop.elim (some xs.length) (·.at ρ)
    return [(name, .many ((xs.take j).drop k))]
  | .elements names rest => do
    let h ← ρ s
    let xs ← h.elements?
    if names.length ≤ xs.length then
      return names.zip (xs.map .one) ++ (rest.map fun r => (r, .many (xs.drop names.length))).toList
    else none

def Guard.holdsAt (M : Meaning V) (s : String) (ρ : Env V) : Guard → Option Bool
  | .cond c => c.holdsAt M s ρ
  | .hit id test =>
    match (ρ s).bind Held.elements?, ρ (loopName id) with
    | some xs, some (.position (.ofNat i)) => do
      let v ← xs[i]?
      let t ← test.settle M ρ
      return M.passes t v
    | _, _ => none
  | .isFound id =>
    match ρ (foundName id) with
    | some (.position n) => some (n != -1)
    | _ => none

/-- Whether all guards hold. A guard after one that fails is not looked at. -/
def Guard.allHoldAt (M : Meaning V) (s : String) (ρ : Env V) : List Guard → Option Bool
  | [] => some true
  | g :: gs =>
    match g.holdsAt M s ρ with
    | some true => allHoldAt M s ρ gs
    | some false => some false
    | none => none

namespace Code

/-- What the block of these statements declares, blocks inside it apart. -/
def declared (fields : String → List String) : Code → List String
  | .done => []
  | .const b rest => b.names fields ++ rest.declared fields
  | .letFound id rest => foundName id :: rest.declared fields
  | .hole rest | .setFound _ rest | .exit rest | .when _ _ rest | .each _ _ _ rest
  | .block _ rest => rest.declared fields

/-- Whether no block inside declares a name twice. -/
def innerOnce (fields : String → List String) : Code → Bool
  | .done => true
  | .hole rest | .const _ rest | .letFound _ rest | .setFound _ rest | .exit rest =>
    rest.innerOnce fields
  | .when _ inner rest | .each _ _ inner rest | .block inner rest =>
    (inner.declared fields).Nodup && inner.innerOnce fields && rest.innerOnce fields

/-- Whether no block declares a name twice. -/
def once (fields : String → List String) (c : Code) : Bool :=
  (c.declared fields).Nodup && c.innerOnce fields

/-- Runs the rest of a block, on the subject that the variable `s` holds. -/
def exec (M : Meaning V) (s : String) : Code → Env V → Outcome (Env V)
  | .done, ρ => .ended ρ
  | .hole _, ρ => .entered ρ
  | .const b rest, ρ =>
    match b.entriesAt M s ρ with
    | some entries => rest.exec M s (ρ.declare entries)
    | none => .fault
  | .letFound id rest, ρ => rest.exec M s (ρ.declare [(foundName id, .position (-1))])
  | .setFound id rest, ρ =>
    match ρ (foundName id), ρ (loopName id) with
    | some _, some h => rest.exec M s (ρ.declare [(foundName id, h)])
    | _, _ => .fault
  | .exit _, ρ => .exited ρ
  | .when guards inner rest, ρ =>
    match Guard.allHoldAt M s ρ guards with
    | some true =>
      let names := inner.declared M.fieldNames
      ((inner.exec M s (ρ.hide names)).close (ρ.leave names)).andThen (rest.exec M s)
    | some false => rest.exec M s ρ
    | none => .fault
  | .each id start inner rest, ρ =>
    -- The counter has a block of its own, and holds nothing yet where it is given its start.
    match start.at (ρ.hide [loopName id]) with
    | none => .fault
    | some k =>
      let turn (i : Nat) (τ : Env V) : Env V := τ.declare [(loopName id, .position i)]
      match turn k ρ s with
      | none => .fault
      | some h =>
        let names := inner.declared M.fieldNames
        let body i τ := ((inner.exec M s ((turn i τ).hide names)).close
          ((turn i τ).leave names)).close (τ.leave [loopName id])
        (loop body (h.elements?.elim 0 fun xs => xs.length - k) k ρ).andThen (rest.exec M s)
  | .block inner rest, ρ =>
    let names := inner.declared M.fieldNames
    ((inner.exec M s (ρ.hide names)).close (ρ.leave names)).andThen (rest.exec M s)

/-- Runs statements, unless they are no program. -/
def start (M : Meaning V) (s : String) (c : Code) (ρ : Env V) : Outcome (Env V) :=
  if c.once M.fieldNames then c.exec M s (ρ.hide (c.declared M.fieldNames)) else .fault

end Code

end Derw.Script

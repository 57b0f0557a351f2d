import Derw.Proofs.Match.Store
import Derw.Script.Print

/-!
# Proofs/Match/Code — a match as statements, and what they do

A `Nest` says where the body of a match stands; `Nest.code` spells the nest out as the statements
that are written for it (`Nest.print_code`), a search as a counter, a loop that is left by `break`,
and a guard on the counter. `Code.run` executes statements: a block hides what is declared in it
when control leaves it, assignments reach through, and the conditions of a guard are tried from left
to right until one fails.
-/

namespace Derw.Script

variable {V : Type}

/-! ## Statements -/

/-- What one condition of an `if` asks. -/
inductive Guard
  | cond (c : Cond)
  /-- The element a search is looking at passes. -/
  | hit (id : Nat) (test : Test)
  /-- A search has found something. -/
  | isFound (id : Nat)
  deriving DecidableEq, Repr

/-- The statements of a block, each with the rest of its block. -/
inductive Code
  | done
  /-- The body of the match. -/
  | hole (rest : Code)
  | const (b : Bind) (rest : Code)
  /-- Declares where a search found its element: nowhere yet. -/
  | letFound (id : Nat) (rest : Code)
  /-- A search found its element where it is looking. -/
  | setFound (id : Nat) (rest : Code)
  /-- Leaves the loop. -/
  | exit (rest : Code)
  /-- Enters a block if all guards hold. -/
  | when (guards : List Guard) (inner rest : Code)
  /-- Looks at every element from `start` on. -/
  | each (id : Nat) (start : Index) (inner rest : Code)
  | block (inner rest : Code)
  deriving DecidableEq, Repr

/-- The statements of a match. -/
def Nest.code : Nest → Code
  | .body => .hole .done
  | .bind b rest => .const b rest.code
  | .guard conditions rest => .when (conditions.map .cond) rest.code .done
  | .search id start test rest =>
    .letFound id <|
    .each id start (.when [.hit id test] (.setFound id (.exit .done)) .done) <|
    .when [.isFound id] rest.code .done
  | .scope rest => .block rest.code .done

def Guard.print (subject : String) : Guard → String
  | .cond c => c.print subject
  | .hit id test => test.print (subject ++ "[" ++ loopName id ++ "]")
  | .isFound id => foundName id ++ " !== -1"

/-- Writes statements around the body that `body` writes at a given depth. -/
def Code.print (subject : String) (body : Nat → String) (depth : Nat) : Code → String
  | .done => ""
  | .hole rest => body depth ++ rest.print subject body depth
  | .const b rest => line depth (b.print subject) ++ rest.print subject body depth
  | .letFound id rest =>
    line depth ("let " ++ foundName id ++ " = -1;") ++ rest.print subject body depth
  | .setFound id rest =>
    line depth (foundName id ++ " = " ++ loopName id ++ ";") ++ rest.print subject body depth
  | .exit rest => line depth "break;" ++ rest.print subject body depth
  | .when guards inner rest =>
    braces depth ("if (" ++ Text.join " && " (guards.map (·.print subject)) ++ ")")
      (inner.print subject body (depth + 1)) "" ++ rest.print subject body depth
  | .each id start inner rest =>
    braces depth
      ("for (let " ++ loopName id ++ " = " ++ start.print ++ "; " ++ loopName id ++ " < " ++ subject
        ++ ".length; " ++ loopName id ++ "++)")
      (inner.print subject body (depth + 1)) "" ++ rest.print subject body depth
  | .block inner rest =>
    braces depth "" (inner.print subject body (depth + 1)) "" ++ rest.print subject body depth

/-- **What is executed is what is written.** -/
theorem Nest.print_code (subject : String) (body : Nat → String) (depth : Nat) (n : Nest) :
    n.code.print subject body depth = n.print subject body depth := by
  induction n generalizing depth with
  | body => simp [Nest.code, Code.print, Nest.print]
  | bind b rest ih => rw [Nest.code, Code.print, Nest.print, ih]
  | guard conditions rest ih =>
    simp [Nest.code, Code.print, Nest.print, ih, Function.comp_def, Guard.print]
  | search id start test rest ih =>
    simp [Nest.code, Code.print, Nest.print, ih, Guard.print, Text.join, String.append_assoc]
  | scope rest ih => simp [Nest.code, Code.print, Nest.print, ih]

/-! ## Running statements -/

/-- How control leaves a block, and what is in scope there. -/
inductive Outcome (S : Type)
  /-- At its end. -/
  | ended (s : S)
  /-- Out of the loop around it. -/
  | exited (s : S)
  /-- Into the body of the match, which sees this scope. -/
  | entered (s : S)
  /-- By reading what is not there. -/
  | fault

namespace Outcome

variable {S : Type}

/-- Closes a block: what was in scope at its end becomes what is in scope behind it. -/
def close (f : S → S) : Outcome S → Outcome S
  | ended s => ended (f s)
  | exited s => exited (f s)
  | entered s => entered s
  | fault => fault

@[simp] theorem close_id (o : Outcome S) : o.close (fun s => s) = o := by
  cases o <;> rfl

/-- Hides what was declared in a block, of which `depth` variables are older. -/
def leave (depth : Nat) : Outcome (Store V) → Outcome (Store V) :=
  close fun σ => σ.drop (σ.length - depth)

/-- Goes on after a block that control left at its end. -/
def andThen (next : S → Outcome S) : Outcome S → Outcome S
  | ended s => next s
  | exited s => exited s
  | entered s => entered s
  | fault => fault

end Outcome

namespace Store

/-- Assigns to the variable declared last under this name. -/
def assign (v : Var) (h : Held V) : Store V → Option (Store V)
  | [] => none
  | (w, g) :: σ => if w = v then some ((w, h) :: σ) else (assign v h σ).map ((w, g) :: ·)

end Store

def Guard.holds (m : Values V) (subject : Held V) (σ : Store V) : Guard → Option Bool
  | .cond c => c.holds m subject σ
  | .hit id test =>
    match subject.elements?, σ.lookup (.loop id) with
    | some xs, some (.position (.ofNat i)) => xs[i]?.map (m.passes test)
    | _, _ => none
  | .isFound id =>
    match σ.lookup (.found id) with
    | some (.position n) => some (n != -1)
    | _ => none

/-- Whether all guards hold. A guard after one that fails is not looked at. -/
def Guard.allHold (m : Values V) (subject : Held V) (σ : Store V) : List Guard → Option Bool
  | [] => some true
  | g :: gs =>
    match g.holds m subject σ with
    | some true => allHold m subject σ gs
    | some false => some false
    | none => none

namespace Code

/-- Runs `body` for so many positions, from `i` on. -/
def loop {S : Type} (body : Nat → S → Outcome S) : (count i : Nat) → S → Outcome S
  | 0, _, s => .ended s
  | count + 1, i, s =>
    match body i s with
    | .ended t => loop body count (i + 1) t
    | .exited t => .ended t
    | .entered t => .entered t
    | .fault => .fault

def run (m : Values V) (subject : Held V) : Code → Store V → Outcome (Store V)
  | .done, σ => .ended σ
  | .hole _, σ => .entered σ
  | .const b rest, σ =>
    match b.entries m subject σ with
    | some entries => rest.run m subject (σ.declare entries)
    | none => .fault
  | .letFound id rest, σ => rest.run m subject ((.found id, .position (-1)) :: σ)
  | .setFound id rest, σ =>
    match (σ.lookup (.loop id)).bind (σ.assign (.found id)) with
    | some τ => rest.run m subject τ
    | none => .fault
  | .exit _, σ => .exited σ
  | .when guards inner rest, σ =>
    match Guard.allHold m subject σ guards with
    | some true => ((inner.run m subject σ).leave σ.length).andThen (rest.run m subject)
    | some false => rest.run m subject σ
    | none => .fault
  | .each id start inner rest, σ =>
    match subject.elements?, start.value σ with
    | some xs, some k =>
      let body i τ := (inner.run m subject ((.loop id, .position (.ofNat i)) :: τ)).leave τ.length
      (loop body (xs.length - k) k σ).andThen (rest.run m subject)
    | _, _ => .fault
  | .block inner rest, σ =>
    ((inner.run m subject σ).leave σ.length).andThen (rest.run m subject)

end Code

end Derw.Script

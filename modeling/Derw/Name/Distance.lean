import Derw.Text.Casing

/-!
# Name/Distance — how far apart two names are

The distance of two names is the least number of characters to insert, delete or replace to turn one
into the other, and zero if they differ in case only. It is computed row by row: the row of a text
is the list of its distances to every beginning of the other text, and one more character turns a
row into the next (`nextRow`).
-/

namespace Derw.Name

/-- The rest of a row after the entry `left`, for the further character `x`. `diagonal` and `above`
are entries of the row before. -/
def rowTail (x : Char) (left diagonal : Nat) : List Char → List Nat → List Nat
  | y :: ys, above :: more =>
    let d := min (min (above + 1) (left + 1)) (diagonal + if x = y then 0 else 1)
    d :: rowTail x d above ys more
  | _, _ => []

/-- The row of `w ++ [x]` from the row of `w`. -/
def nextRow (ys : List Char) (row : List Nat) (x : Char) : List Nat :=
  match row with
  | [] => []
  | d :: ds => (d + 1) :: rowTail x (d + 1) d ys ds

/-- The row of `xs`. -/
def row (xs ys : List Char) : List Nat := xs.foldl (nextRow ys) (List.range (ys.length + 1))

/-- The number of single-character edits between two texts. -/
def edits (xs ys : List Char) : Nat := (row xs ys).getLastD 0

/-- The distance of two names. -/
def distance (a b : String) : Nat :=
  if Text.eqFold a b then 0 else edits a.toList b.toList

/-- The known names within `limit` of `name`, closest first; of two as close, the one known
first. -/
def suggest (limit : Int) (name : String) (known : List String) : List String :=
  let near := (known.map fun k => (k, distance name k)).filter fun c => (c.2 : Int) ≤ limit
  (near.mergeSort fun c d => c.2 ≤ d.2).map (·.1)

end Derw.Name

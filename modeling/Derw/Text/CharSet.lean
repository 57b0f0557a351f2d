/-!
# Text/CharSet — sets of characters given by runs

A Unicode property is a list of runs of code points. A run may skip: in much of the Latin and
Cyrillic blocks capital and small letters alternate, and the small ones form a run of step two.
-/

namespace Derw.Text

/-- The code points `lo, lo + step, …` up to `hi`. -/
structure CharRun where
  lo : Nat
  hi : Nat
  step : Nat

/-- The run of all code points from `lo` to `hi`. -/
def CharRun.range (lo hi : Nat) : CharRun := ⟨lo, hi, 1⟩

def CharRun.contains (r : CharRun) (c : Char) : Bool :=
  r.lo ≤ c.toNat && c.toNat ≤ r.hi && (c.toNat - r.lo) % r.step == 0

/-- A set of characters, as the union of its runs. -/
abbrev CharSet := List CharRun

def CharSet.contains (s : CharSet) (c : Char) : Bool := s.any (·.contains c)

end Derw.Text

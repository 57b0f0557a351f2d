/-!
# Text/Number — reading numbers

Integers in bases two to sixteen, and decimal numbers `digits · 10^exponent`. A decimal number is
kept exact; where a double-precision number is wanted, `Decimal.overflows` tells whether it is too
large for one, and `Decimal.truncate` is the whole part of the nearest one.
-/

namespace Derw.Text

/-- The largest signed word of 64 bits. -/
def maxInt : Nat := 9223372036854775807

/-- The least signed word of 64 bits. -/
def minInt : Int := -9223372036854775808

/-- The largest unsigned word of 64 bits. -/
def maxWord : Nat := 18446744073709551615

/-- The value of a digit up to `f`. -/
def digitValue? (c : Char) : Option Nat :=
  let n := c.toNat
  if 48 ≤ n && n ≤ 57 then some (n - 48)
  else if 97 ≤ n && n ≤ 102 then some (n - 87)
  else if 65 ≤ n && n ≤ 70 then some (n - 55)
  else none

def isDecimalDigit (c : Char) : Bool := '0' ≤ c && c ≤ '9'

/-- One more digit behind a number. -/
def pushDigit (base : Nat) (n : Nat) (c : Char) : Option Nat :=
  match digitValue? c with
  | some d => if d < base then some (n * base + d) else none
  | none => none

/-- The number that digits of this base write; no digits write zero. -/
def natOfDigits? (base : Nat) (cs : List Char) : Option Nat := cs.foldlM (pushDigit base) 0

/-- A sign and what it stands in front of. -/
def cutSign : List Char → Bool × List Char
  | '-' :: cs => (true, cs)
  | '+' :: cs => (false, cs)
  | cs => (false, cs)

/-- A decimal number. -/
structure Decimal where
  negative : Bool
  digits : Nat
  exponent : Int
  deriving DecidableEq, Repr

namespace Decimal

/-- The exponent `e+10`, or nothing. -/
def readExponent? : List Char → Option Int
  | [] => some 0
  | c :: cs =>
    if c == 'e' || c == 'E' then
      let (negative, ds) := cutSign cs
      if ds.isEmpty then none
      else if ds.all isDecimalDigit then
        (natOfDigits? 10 ds).map fun n => if negative then -(n : Int) else n
      else none
    else none

/-- Reads `-1.5e10`. There are digits before the point or behind it. -/
def read? (cs : List Char) : Option Decimal :=
  let (negative, cs) := cutSign cs
  let whole := cs.takeWhile isDecimalDigit
  let rest := cs.dropWhile isDecimalDigit
  let (fraction, tail) := match rest with
    | '.' :: r => (r.takeWhile isDecimalDigit, r.dropWhile isDecimalDigit)
    | r => ([], r)
  if whole.isEmpty && fraction.isEmpty then none
  else do
    let e ← readExponent? tail
    let digits ← natOfDigits? 10 (whole ++ fraction)
    return { negative, digits, exponent := e - fraction.length }

/-- How many digits stand before the point. -/
def magnitude (d : Decimal) : Int := (Nat.toDigits 10 d.digits).length + d.exponent

/-- The number as a fraction, its sign aside. -/
def fraction (d : Decimal) : Nat × Nat :=
  if 0 ≤ d.exponent then (d.digits * Nat.pow 10 d.exponent.toNat, 1)
  else (d.digits, Nat.pow 10 (-d.exponent).toNat)

/-- The least number that no double is near to. -/
def doubleLimit : Nat := Nat.pow 2 1024 - Nat.pow 2 970

/-- Whether the number is too large for a double. -/
def overflows (d : Decimal) : Bool :=
  if d.digits == 0 || d.magnitude < 300 then false
  else if 310 < d.magnitude then true
  else
    let (num, den) := d.fraction
    doubleLimit * den ≤ num

/-- The quotient rounded to the nearest number, and to the even one of two. -/
def divideToNearest (num den : Nat) : Nat :=
  let q := num / den
  let twice := 2 * (num % den)
  if den < twice || (twice == den && q % 2 == 1) then q + 1 else q

/-- The whole part of the double nearest to a fraction; a double has 53 binary digits. -/
def truncateFraction (num den : Nat) : Nat :=
  let bits := if num / den == 0 then 0 else Nat.log2 (num / den) + 1
  if bits ≤ 53 then divideToNearest (num * Nat.pow 2 (53 - bits)) den / Nat.pow 2 (53 - bits)
  else divideToNearest num (den * Nat.pow 2 (bits - 53)) * Nat.pow 2 (bits - 53)

/-- The whole part of the nearest double, its sign aside; `none` if it is beyond `10^25`. -/
def truncate (d : Decimal) : Option Nat :=
  if d.digits == 0 || d.magnitude < -1 then some 0
  else if 25 < d.magnitude then none
  else
    let (num, den) := d.fraction
    some (truncateFraction num den)

end Decimal

end Derw.Text

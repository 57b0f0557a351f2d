import Derw.Text.Number

/-!
# Yaml/Time — dates and times among bare scalars

A bare scalar is a time if it is a date `2001-2-3`, a date and a time with an offset
`2001-02-03T4:05:06.7Z`, or a date and a time after spaces without one. The date has to exist.
-/

namespace Derw.Yaml

open Text (isDecimalDigit natOfDigits?)

/-- Reads one or two digits. -/
def shortNumber? : List Char → Option (Nat × List Char)
  | c :: d :: cs =>
    if !isDecimalDigit c then none
    else if isDecimalDigit d then (natOfDigits? 10 [c, d]).map (·, cs)
    else (natOfDigits? 10 [c]).map (·, d :: cs)
  | [c] => if isDecimalDigit c then (natOfDigits? 10 [c]).map (·, []) else none
  | [] => none

def skipChar? (c : Char) : List Char → Option (List Char)
  | d :: cs => if d == c then some cs else none
  | [] => none

def isLeapYear (year : Nat) : Bool := year % 4 == 0 && (year % 100 != 0 || year % 400 == 0)

def daysIn (year month : Nat) : Nat :=
  if month == 2 then (if isLeapYear year then 29 else 28)
  else if month == 4 || month == 6 || month == 9 || month == 11 then 30
  else 31

/-- Skips a date that exists. -/
def skipDate? (cs : List Char) : Option (List Char) := do
  let year := cs.takeWhile isDecimalDigit
  if year.length != 4 then none
  let y ← natOfDigits? 10 year
  let (month, cs) ← shortNumber? (← skipChar? '-' (cs.drop 4))
  let (day, cs) ← shortNumber? (← skipChar? '-' cs)
  if 1 ≤ month && month ≤ 12 && 1 ≤ day && day ≤ daysIn y month then some cs else none

/-- Skips a fraction of a second, which may be left out. -/
def skipFraction : List Char → List Char
  | c :: d :: cs =>
    if (c == '.' || c == ',') && isDecimalDigit d then cs.dropWhile isDecimalDigit else c :: d :: cs
  | cs => cs

/-- Skips a time of day. -/
def skipClock? (cs : List Char) : Option (List Char) := do
  let (hour, cs) ← shortNumber? cs
  let (minute, cs) ← shortNumber? (← skipChar? ':' cs)
  let (second, cs) ← shortNumber? (← skipChar? ':' cs)
  if hour < 24 && minute < 60 && second < 60 then some (skipFraction cs) else none

/-- Whether an offset is all that is left. -/
def isOffset : List Char → Bool
  | ['Z'] => true
  | [sign, h₁, h₂, colon, m₁, m₂] =>
    (sign == '+' || sign == '-') && colon == ':' && [h₁, h₂, m₁, m₂].all isDecimalDigit
      && ((natOfDigits? 10 [h₁, h₂]).getD 0) ≤ 24 && ((natOfDigits? 10 [m₁, m₂]).getD 0) ≤ 60
  | _ => false

/-- Whether a bare scalar is a date or a time. -/
def isTime (cs : List Char) : Bool :=
  match skipDate? cs with
  | none => false
  | some [] => true
  | some (c :: rest) =>
    if c == 'T' || c == 't' then (skipClock? rest).any isOffset
    else c == ' ' && skipClock? (rest.dropWhile (· == ' ')) == some []

end Derw.Yaml

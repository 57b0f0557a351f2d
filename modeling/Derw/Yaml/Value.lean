import Derw.Text.Cut
import Derw.Text.Number
import Derw.Yaml.Node
import Derw.Yaml.Time

/-!
# Yaml/Value — what a bare scalar means

A bare scalar may be nothing, a truth value, a number or a time; every other one is text, and so is
every quoted one. A tag in front of a scalar says what it has to be.
-/

namespace Derw.Yaml

open Text (Decimal cutSign isDecimalDigit maxInt maxWord natOfDigits?)

inductive Real
  | notANumber
  | infinite (negative : Bool)
  | decimal (d : Decimal)
  deriving DecidableEq, Repr

inductive Value
  | null
  | bool (b : Bool)
  | int (n : Int)
  | real (x : Real)
  | time
  | text
  deriving DecidableEq, Repr

/-! ## Integers -/

/-- The base that an integer announces, and its digits. -/
def cutBase (cs : List Char) : Nat × List Char :=
  match cs with
  | ['0'] => (10, cs)
  | '0' :: c :: d :: ds =>
    if c == 'x' || c == 'X' then (16, d :: ds)
    else if c == 'b' || c == 'B' then (2, d :: ds)
    else if c == 'o' || c == 'O' then (8, d :: ds)
    else (8, c :: d :: ds)
  | '0' :: ds => (8, ds)
  | _ => (10, cs)

/-- An integer within the range of a signed word, or of an unsigned one if it has no sign. -/
def inRange? (signed negative : Bool) (n : Nat) : Option Int :=
  if negative then if n ≤ maxInt + 1 then some (-(n : Int)) else none
  else if n ≤ (if signed then maxInt else maxWord) then some n
  else none

/-- Digits of a base behind an optional sign. -/
def signedDigits? (base : Nat) (cs : List Char) : Option Int := do
  let (negative, ds) := cutSign cs
  if ds.isEmpty then none
  inRange? (ds.length < cs.length) negative (← natOfDigits? base ds)

/-- Reads an integer: `12`, `-0x1F`, `0b101`, `0o17`, `017`. A sign may also stand behind `0b` and
`0o`. -/
def readInt? (cs : List Char) : Option Int :=
  let (negative, ds) := cutSign cs
  let direct : Option Int :=
    if ds.isEmpty then none
    else
      let (base, digits) := cutBase ds
      (natOfDigits? base digits).bind (inRange? (ds.length < cs.length) negative)
  direct.orElse fun _ =>
    match cs with
    | '0' :: 'b' :: ds => signedDigits? 2 ds
    | '0' :: 'o' :: ds => signedDigits? 8 ds
    | _ => none

/-! ## Bare scalars -/

/-- Digits with single underscores between them. -/
def groupedDigits (cs : List Char) : Bool :=
  (Text.splitWhere (· == '_') cs).all fun g => !g.isEmpty && g.all isDecimalDigit

/-- Whether the underscores in a number that starts with its point stand between digits. -/
def underscoresFit (cs : List Char) : Bool :=
  !cs.contains '_' ||
    ((Text.splitWhere (fun c => !(isDecimalDigit c || c == '_')) cs).filter (!·.isEmpty)).all
      groupedDigits

/-- A decimal number that a double can hold. -/
def readReal? (cs : List Char) : Option Value :=
  match Decimal.read? cs with
  | some d => if d.overflows then none else some (.real (.decimal d))
  | none => none

/-- The scalars with a meaning of their own. -/
def knownWords : List (String × Value) :=
  (["true", "True", "TRUE"].map (·, .bool true))
    ++ (["false", "False", "FALSE"].map (·, .bool false))
    ++ (Node.nullWords.map (·, .null))
    ++ ([".nan", ".NaN", ".NAN"].map (·, .real .notANumber))
    ++ ([".inf", ".Inf", ".INF", "+.inf", "+.Inf", "+.INF"].map (·, .real (.infinite false)))
    ++ ["-.inf", "-.Inf", "-.INF"].map (·, .real (.infinite true))

/-- A number behind a digit or a sign. Underscores do not count. -/
def readNumber (cs : List Char) : Value :=
  let plain := cs.filter (· != '_')
  match readInt? plain with
  | some n => .int n
  | none => (readReal? plain).getD .text

/-- What a bare scalar means; `times` tells whether it may be a time. -/
def meaning (times : Bool) (text : String) : Value :=
  match knownWords.lookup text with
  | some v => v
  | none =>
    match text.toList with
    | [] => .null
    | c :: cs =>
      if c == '.' then
        if underscoresFit cs then (readReal? ((c :: cs).filter (· != '_'))).getD .text else .text
      else if isDecimalDigit c || c == '+' || c == '-' then
        if times && isTime (c :: cs) then .time else readNumber (c :: cs)
      else .text

/-- What a scalar means; `none` if it is not what its tag says. -/
def scalarValue (style : Style) (tag : Option String) (text : String) : Option Value :=
  match tag with
  | none | some "" => some (if style == .bare then meaning true text else .text)
  | some "!!str" | some "!!binary" => some .text
  | some "!!timestamp" => if isTime text.toList then some .time else none
  | some t =>
    match t, meaning false text with
    | "!!null", .null => some .null
    | "!!bool", .bool b => some (.bool b)
    | "!!int", .int n => some (.int n)
    | "!!float", .real x => some (.real x)
    | "!!float", .int n =>
      some (.real (.decimal { negative := n < 0, digits := n.natAbs, exponent := 0 }))
    | _, _ => none

end Derw.Yaml

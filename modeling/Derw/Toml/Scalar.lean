import Derw.Text.Cut
import Derw.Text.Number
import Derw.Toml.Table
import Derw.Yaml.Time

/-!
# Toml/Scalar — strings, numbers, truth values and times

Readers of quoted strings take the characters behind the opening quote and give the text and what is
left. Everything that is not quoted is first cut out as a word and then read as a whole.
-/

namespace Derw.Toml

open Text (Decimal cutSign isDecimalDigit maxInt natOfDigits?)

/-! ## Quoted strings -/

/-- Reads so many hexadecimal digits as a character. -/
def hexChar? (width : Nat) (cs : List Char) : Option (Char × List Char) := do
  if cs.length < width then none
  let n ← natOfDigits? 16 (cs.take width)
  if n.isValidChar then some (Char.ofNat n, cs.drop width) else none

/-- The character behind a backslash. -/
def escape? : List Char → Option (Char × List Char)
  | [] => none
  | c :: cs =>
    match c with
    | 'b' => some ('\x08', cs)
    | 't' => some ('\t', cs)
    | 'n' => some ('\n', cs)
    | 'f' => some ('\x0c', cs)
    | 'r' => some ('\r', cs)
    | 'e' => some ('\x1b', cs)
    | '"' => some ('"', cs)
    | '\\' => some ('\\', cs)
    | 'x' => hexChar? 2 cs
    | 'u' => hexChar? 4 cs
    | 'U' => hexChar? 8 cs
    | _ => none

def isLineEnd (c : Char) : Bool := c == '\n' || c == '\r'

/-- The rest of a string between double quotes on one line; `acc` is what has been read, latest
first. -/
def basicRest (acc : List Char) : (fuel : Nat) → List Char → Option (String × List Char)
  | 0, _ | _, [] => none
  | n + 1, c :: cs =>
    if c == '"' then some (String.ofList acc.reverse, cs)
    else if isLineEnd c then none
    else if c == '\\' then do
      let (d, rest) ← escape? cs
      basicRest (d :: acc) n rest
    else basicRest (c :: acc) n cs

/-- The rest of a string between single quotes on one line. -/
def literalRest (acc : List Char) : List Char → Option (String × List Char)
  | [] => none
  | c :: cs =>
    if c == '\'' then some (String.ofList acc.reverse, cs)
    else if isLineEnd c then none
    else literalRest (c :: acc) cs

/-- The end of a string between triple quotes: of up to five quotes in a row the last three close
it, and fewer than three are part of it. -/
inductive Closing
  | inside (quotes : Nat)
  | closes (quotes : Nat)
  | tooMany

def closingOf (count : Nat) : Closing :=
  if count < 3 then .inside count else if count ≤ 5 then .closes (count - 3) else .tooMany

/-- What follows a backslash at the end of a line, up to the next character that is no blank. -/
def skipLineEnd? (cs : List Char) : Option (List Char) :=
  let blanks := cs.takeWhile fun c => c == ' ' || c == '\t' || isLineEnd c
  if blanks.contains '\n' then some (cs.drop blanks.length) else none

/-- The rest of a string between triple quotes, with escapes or without. -/
def tripleRest (quote : Char) (acc : List Char) :
    (fuel : Nat) → List Char → Option (String × List Char)
  | 0, _ | _, [] => none
  | n + 1, c :: cs =>
    if c == quote then
      let quotes := (c :: cs).takeWhile (· == quote)
      let rest := (c :: cs).drop quotes.length
      match closingOf quotes.length with
      | .inside k => tripleRest quote (List.replicate k quote ++ acc) n rest
      | .closes k => some (String.ofList (List.replicate k quote ++ acc).reverse, rest)
      | .tooMany => none
    else if c == '\\' && quote == '"' then
      match skipLineEnd? cs with
      | some rest => tripleRest quote acc n rest
      | none => do
        let (d, rest) ← escape? cs
        tripleRest quote (d :: acc) n rest
    else tripleRest quote (c :: acc) n cs

/-- The text without the line break it may start with. -/
def withoutFirstBreak : List Char → List Char
  | '\n' :: cs => cs
  | '\r' :: '\n' :: cs => cs
  | cs => cs

/-- Reads a quoted string. -/
def quoted? (cs : List Char) : Option (String × List Char) :=
  match cs with
  | '"' :: '"' :: '"' :: rest => tripleRest '"' [] (rest.length + 1) (withoutFirstBreak rest)
  | '\'' :: '\'' :: '\'' :: rest => tripleRest '\'' [] (rest.length + 1) (withoutFirstBreak rest)
  | '"' :: rest => basicRest [] (rest.length + 1) rest
  | '\'' :: rest => literalRest [] rest
  | _ => none

/-! ## Words -/

/-- Digits of a base with single underscores between them. -/
def groupedDigits? (base : Nat) (cs : List Char) : Option Nat :=
  if (Text.splitWhere (· == '_') cs).any (·.isEmpty) then none
  else natOfDigits? base (cs.filter (· != '_'))

/-- Decimal digits without a leading zero. -/
def wholeNumber? (cs : List Char) : Option Nat :=
  if cs.head? == some '0' && 1 < cs.length then none else groupedDigits? 10 cs

/-- An integer that fits a signed word. Only decimal ones have a sign. -/
def int? (cs : List Char) : Option Int :=
  match cs with
  | '0' :: 'x' :: ds => (groupedDigits? 16 ds).bind (limit false)
  | '0' :: 'o' :: ds => (groupedDigits? 8 ds).bind (limit false)
  | '0' :: 'b' :: ds => (groupedDigits? 2 ds).bind (limit false)
  | _ =>
    let (negative, ds) := cutSign cs
    (wholeNumber? ds).bind (limit negative)
where
  limit (negative : Bool) (n : Nat) : Option Int :=
    if negative then if n ≤ maxInt + 1 then some (-(n : Int)) else none
    else if n ≤ maxInt then some n else none

/-- Whether the part of a real number behind its whole part is a fraction, an exponent or both. -/
def isRealTail (cs : List Char) : Bool :=
  let isExponent : List Char → Bool
    | c :: ds => (c == 'e' || c == 'E') && (groupedDigits? 10 (cutSign ds).2).isSome
    | [] => false
  match cs with
  | '.' :: ds =>
    let fraction := ds.takeWhile fun c => isDecimalDigit c || c == '_'
    let rest := ds.drop fraction.length
    (groupedDigits? 10 fraction).isSome && (rest.isEmpty || isExponent rest)
  | _ => isExponent cs

/-- Whether a word is a real number that a double can hold. -/
def isReal (cs : List Char) : Bool :=
  let ds := (cutSign cs).2
  let whole := ds.takeWhile fun c => isDecimalDigit c || c == '_'
  ds == "inf".toList || ds == "nan".toList
    || ((wholeNumber? whole).isSome && isRealTail (ds.drop whole.length)
      && (Decimal.read? (cs.filter (· != '_'))).any (!·.overflows))

/-- Two digits, as a number below `limit`. -/
def twoDigits? (limit : Nat) : List Char → Option (Nat × List Char)
  | c :: d :: cs =>
    if isDecimalDigit c && isDecimalDigit d then
      (natOfDigits? 10 [c, d]).bind fun n => if n < limit then some (n, cs) else none
    else none
  | _ => none

/-- Skips a date that exists. -/
def skipDate? (cs : List Char) : Option (List Char) := do
  let year := cs.take 4
  if year.length < 4 || !year.all isDecimalDigit then none
  let y ← natOfDigits? 10 year
  let (month, cs) ← twoDigits? 13 (← Yaml.skipChar? '-' (cs.drop 4))
  let (day, cs) ← twoDigits? 32 (← Yaml.skipChar? '-' cs)
  if 1 ≤ month && 1 ≤ day && day ≤ Yaml.daysIn y month then some cs else none

/-- Skips a time of day; seconds may be left out. -/
def skipClock? (cs : List Char) : Option (List Char) := do
  let (_, cs) ← twoDigits? 24 cs
  let (_, cs) ← twoDigits? 60 (← Yaml.skipChar? ':' cs)
  match cs with
  | ':' :: ds =>
    let (_, rest) ← twoDigits? 60 ds
    return Yaml.skipFraction rest
  | _ => return cs

/-- Whether a word is a date, a time, or both. -/
def isTime (cs : List Char) : Bool :=
  match skipDate? cs with
  | some [] => true
  | some (c :: rest) =>
    (c == 'T' || c == 't' || c == ' ')
      && (skipClock? rest).any fun tail => tail.isEmpty || tail == ['z'] || Yaml.isOffset tail
  | none => skipClock? cs == some []

/-- Reads a word that is not quoted. -/
def word? (cs : List Char) : Option Value :=
  if cs == "true".toList then some (.bool true)
  else if cs == "false".toList then some (.bool false)
  else match int? cs with
    | some n => some (.int n)
    | none => if isReal cs then some .real else if isTime cs then some .time else none

def isWordChar (c : Char) : Bool :=
  c.isAlphanum || c == '_' || c == '+' || c == '-' || c == '.' || c == ':'

/-- Cuts a word off. A date and the time behind it make one word, with a space between. -/
def cutWord (cs : List Char) : List Char × List Char :=
  let first := cs.takeWhile isWordChar
  let rest := cs.drop first.length
  match rest with
  | ' ' :: c :: more =>
    if isDecimalDigit c && skipDate? first == some [] then
      let second := (c :: more).takeWhile isWordChar
      (first ++ ' ' :: second, (c :: more).drop second.length)
    else (first, rest)
  | _ => (first, rest)

end Derw.Toml

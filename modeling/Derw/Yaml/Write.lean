import Derw.Text.Quoted
import Derw.Yaml.Value

/-!
# Yaml/Write — writing a text as a scalar

A text is written bare if it then reads back as that text, between single quotes if only its first
or last characters or a `: ` or ` #` stand against that, and otherwise between double quotes, where
everything can be escaped.
-/

namespace Derw.Yaml

open Text (cutSign isDecimalDigit)

/-- The characters that need no escape. -/
def isVisible (c : Char) : Bool :=
  let n := c.toNat
  (0x20 ≤ n && n ≤ 0x7E) || (0xA0 ≤ n && n ≤ 0xD7FF) || (0xE000 ≤ n && n ≤ 0xFFFD && n != 0xFEFF)

/-- Truth values of older readers. -/
def formerBools : List String :=
  ["y", "Y", "yes", "Yes", "YES", "on", "On", "ON", "n", "N", "no", "No", "NO", "off", "Off", "OFF"]

/-- A number below sixty, in one or two digits. -/
def isSixtieth : List Char → Bool
  | [c] => isDecimalDigit c
  | [c, d] => '0' ≤ c && c ≤ '5' && isDecimalDigit d
  | _ => false

/-- The last place of a number in base sixty, which may have a fraction. -/
def isLastSixtieth (cs : List Char) : Bool :=
  isSixtieth (cs.takeWhile (· != '.'))
    && ((cs.dropWhile (· != '.')).drop 1).all fun c => isDecimalDigit c || c == '_'

/-- Numbers in base sixty such as `1:20`, which older readers know. -/
def isSexagesimal (cs : List Char) : Bool :=
  match Text.splitWhere (· == ':') (cutSign cs).2 with
  | (c :: first) :: places =>
    isDecimalDigit c && first.all (fun d => isDecimalDigit d || d == '_')
      && places.dropLast.all isSixtieth && places.getLast?.any isLastSixtieth
  | _ => false

/-- Whether a bare text would be read as something else than text. -/
def misread (s : String) : Bool :=
  meaning true s != .text || formerBools.contains s || isSexagesimal s.toList

/-- A space at a line break, which single quotes would lose. -/
def spaceAtBreak : List Char → Bool
  | c :: d :: cs => (c == ' ' && isBreak d) || (isBreak c && d == ' ') || spaceAtBreak (d :: cs)
  | _ => false

/-- The characters that no bare text starts with. -/
def openingMarks : List Char := "#,[]\x7b\x7d&*!|>'\"%@\x60".toList

/-- A mark counts before a space and at the end. -/
def beforeGap : List Char → Bool
  | [] => true
  | c :: _ => isSpaceOrTab c

/-- Whether a text starts like something else than a bare text. -/
def opensOtherwise : List Char → Bool
  | [] => false
  | c :: cs =>
    openingMarks.contains c || ((c == '?' || c == ':' || c == '-') && beforeGap cs)
      || "---".toList.isPrefixOf (c :: cs) || "...".toList.isPrefixOf (c :: cs)

/-- Whether a bare text would end early: before `: ` or before ` #`. -/
def endsEarly : List Char → Bool
  | [] => false
  | c :: cs =>
    (c == ':' && beforeGap cs) || (isSpaceOrTab c && cs.head? == some '#') || endsEarly cs

/-- Whether a text needs quotes, although everything in it is visible. -/
def needsQuotes (cs : List Char) : Bool :=
  cs.head? == some ' ' || cs.getLast? == some ' ' || cs.any isBreak || opensOtherwise cs
    || endsEarly cs

def escapeOf (c : Char) : List Char :=
  match c.toNat with
  | 0x00 => ['\\', '0']
  | 0x07 => ['\\', 'a']
  | 0x08 => ['\\', 'b']
  | 0x09 => ['\\', 't']
  | 0x0A => ['\\', 'n']
  | 0x0B => ['\\', 'v']
  | 0x0C => ['\\', 'f']
  | 0x0D => ['\\', 'r']
  | 0x1B => ['\\', 'e']
  | 0x22 => ['\\', '"']
  | 0x5C => ['\\', '\\']
  | 0x85 => ['\\', 'N']
  | 0xA0 => ['\\', '_']
  | 0x2028 => ['\\', 'L']
  | 0x2029 => ['\\', 'P']
  | n =>
    if n ≤ 0xFF then '\\' :: 'x' :: Text.hexDigits 'A' 2 n
    else if n ≤ 0xFFFF then '\\' :: 'u' :: Text.hexDigits 'A' 4 n
    else '\\' :: 'U' :: Text.hexDigits 'A' 8 n

def escaped (c : Char) : List Char :=
  if isVisible c && c != '"' && c != '\\' && !isBreak c then [c] else escapeOf c

/-- The inside of single quotes; a line of its own is indented by `margin`. -/
def singleQuotedText (margin : Nat) (afterBreak : Bool) : List Char → List Char
  | [] => []
  | c :: cs =>
    if isBreak c then c :: singleQuotedText margin true cs
    else
      (if afterBreak then List.replicate margin ' ' else [])
        ++ (if c == '\'' then ['\'', '\''] else [c]) ++ singleQuotedText margin false cs

/-- A text as a scalar in a place indented by `margin`. -/
def scalarText (margin : Nat) (s : String) : String :=
  let cs := s.toList
  if misread s || cs.any (fun c => !isVisible c) || spaceAtBreak cs then
    "\"" ++ String.ofList (cs.flatMap escaped) ++ "\""
  else if needsQuotes cs then "'" ++ String.ofList (singleQuotedText margin false cs) ++ "'"
  else s

end Derw.Yaml

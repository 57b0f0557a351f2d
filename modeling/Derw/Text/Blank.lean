import Derw.Text.Cut

/-!
# Text/Blank — white space

Blank is what has the Unicode property White_Space; the zero-width space and the byte-order mark are
not blank. Lines are blank, fields are trimmed and words are separated by this one test.
-/

namespace Derw.Text

/-- The Unicode property White_Space. -/
def isBlank (c : Char) : Bool :=
  let n := c.toNat
  (0x09 ≤ n && n ≤ 0x0D) || n == 0x20 || n == 0x85 || n == 0xA0 || n == 0x1680
    || (0x2000 ≤ n && n ≤ 0x200A) || n == 0x2028 || n == 0x2029 || n == 0x202F || n == 0x205F
    || n == 0x3000

/-- The text without blanks at its two ends. -/
def trimmed (cs : List Char) : List Char := strip isBlank cs

def trim (s : String) : String := String.ofList (trimmed s.toList)

/-- A line with nothing on it but blanks. -/
def isBlankLine (s : String) : Bool := s.toList.all isBlank

/-- The words between blanks. -/
def words (cs : List Char) : List (List Char) := wordsWhere isBlank cs

end Derw.Text

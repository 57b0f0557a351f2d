import Derw.Text.Printable

/-!
# Text/Quoted — how a message quotes a text

A message that names a text from the user's input puts it in double quotes, keeps what is printable
and escapes the rest, so that the message stays on one line.
-/

namespace Derw.Text

/-- The last `width` hexadecimal digits of `n`, with `letters` as the digits above nine. -/
def hexDigits (letters : Char) : (width n : Nat) → List Char
  | 0, _ => []
  | w + 1, n =>
    let d := n % 16
    let digit := if d < 10 then Char.ofNat (48 + d) else Char.ofNat (letters.toNat + (d - 10))
    hexDigits letters w (n / 16) ++ [digit]

/-- A character inside a quoted text. -/
def quoteChar (c : Char) : List Char :=
  if c == '"' || c == '\\' then ['\\', c]
  else if isPrintable c then [c]
  else match c.toNat with
    | 0x07 => ['\\', 'a']
    | 0x08 => ['\\', 'b']
    | 0x09 => ['\\', 't']
    | 0x0A => ['\\', 'n']
    | 0x0B => ['\\', 'v']
    | 0x0C => ['\\', 'f']
    | 0x0D => ['\\', 'r']
    | n =>
      if n < 0x80 then '\\' :: 'x' :: hexDigits 'a' 2 n
      else if n < 0x10000 then '\\' :: 'u' :: hexDigits 'a' 4 n
      else '\\' :: 'U' :: hexDigits 'a' 8 n

/-- The text in double quotes, escaped. -/
def quoted (s : String) : String :=
  "\"" ++ String.ofList (s.toList.flatMap quoteChar) ++ "\""

end Derw.Text

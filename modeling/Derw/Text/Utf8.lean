/-!
# Text/Utf8 — texts as bytes

Some rules count in bytes. Here a text is a list of bytes, and a list of bytes is read as characters
even where it is not well-formed: a byte that starts no character stands for U+FFFD by itself.
-/

namespace Derw.Text

abbrev Bytes := List UInt8

def bytesOf (s : String) : Bytes := s.toUTF8.toList

/-- The stand-in for a byte that starts no character. -/
def replacement : Nat := 0xFFFD

/-- How many bytes a character takes. -/
def byteLength (code : Nat) : Nat :=
  if code < 0x80 then 1 else if code < 0x800 then 2 else if code < 0x10000 then 3 else 4

def isContinuation (b : UInt8) : Bool := 0x80 ≤ b && b ≤ 0xBF

/-- The character at the start of a list of bytes, and how many bytes it takes. -/
def firstChar : Bytes → Nat × Nat
  | [] => (replacement, 0)
  | b :: rest =>
    let low (c : UInt8) : Nat := c.toNat % 64
    if b < 0x80 then (b.toNat, 1)
    else if 0xC2 ≤ b && b ≤ 0xDF then
      match rest with
      | c :: _ => if isContinuation c then ((b.toNat % 32) * 64 + low c, 2) else (replacement, 1)
      | _ => (replacement, 1)
    else if 0xE0 ≤ b && b ≤ 0xEF then
      match rest with
      | c :: d :: _ =>
        let code := (b.toNat % 16) * 4096 + low c * 64 + low d
        if isContinuation c && isContinuation d && 0x800 ≤ code &&
            !(0xD800 ≤ code && code ≤ 0xDFFF) then
          (code, 3)
        else (replacement, 1)
      | _ => (replacement, 1)
    else if 0xF0 ≤ b && b ≤ 0xF4 then
      match rest with
      | c :: d :: e :: _ =>
        let code := (b.toNat % 8) * 262144 + low c * 4096 + low d * 64 + low e
        if isContinuation c && isContinuation d && isContinuation e && 0x10000 ≤ code
            && code ≤ 0x10FFFF then (code, 4)
        else (replacement, 1)
      | _ => (replacement, 1)
    else (replacement, 1)

/-- The characters from byte `offset` on, `fuel` at most, each with the byte it starts at. -/
def charsFrom (offset : Nat) : (fuel : Nat) → Bytes → List (Nat × Nat)
  | 0, _ => []
  | _ + 1, [] => []
  | n + 1, b :: bs =>
    let (code, width) := firstChar (b :: bs)
    (offset, code) :: charsFrom (offset + width) n ((b :: bs).drop width)

/-- The characters of a list of bytes, each with the byte it starts at. -/
def charsOf (bs : Bytes) : List (Nat × Nat) := charsFrom 0 bs.length bs

/-- Where `part` first occurs. -/
def indexOf? (part : Bytes) : Bytes → Option Nat
  | [] => if part.isEmpty then some 0 else none
  | b :: bs =>
    if part.isPrefixOf (b :: bs) then some 0 else (indexOf? part bs).map (· + 1)

/-- Where `part` last occurs. -/
def lastIndexOf? (part : Bytes) : Bytes → Option Nat
  | [] => if part.isEmpty then some 0 else none
  | b :: bs =>
    match lastIndexOf? part bs with
    | some i => some (i + 1)
    | none => if part.isPrefixOf (b :: bs) then some 0 else none

end Derw.Text

/-!
# Text/Cut — taking texts apart

Every reader of this library works on `List Char`. These are the cuts they share: at each character
of a kind (`splitWhere`), around the first occurrence of a text (`cutAt`), and off one end
(`withoutHead`, `withoutTail`). `splitWhere` loses nothing but the characters it splits at, and
always gives at least one piece.
-/

namespace Derw.Text

/-- The pieces between the characters that satisfy `p`; an empty piece is kept. -/
def splitWhere (p : Char → Bool) : List Char → List (List Char)
  | [] => [[]]
  | c :: cs =>
    if p c then [] :: splitWhere p cs
    else match splitWhere p cs with
      | [] => [[c]]
      | w :: ws => (c :: w) :: ws

/-- The non-empty pieces between the characters that satisfy `p`. -/
def wordsWhere (p : Char → Bool) (cs : List Char) : List (List Char) :=
  (splitWhere p cs).filter (!·.isEmpty)

/-- What stands before and after the first occurrence of `sep`. -/
def cutAt (sep : List Char) : List Char → Option (List Char × List Char)
  | [] => if sep.isEmpty then some ([], []) else none
  | c :: cs =>
    if sep.isPrefixOf (c :: cs) then some ([], (c :: cs).drop sep.length)
    else (cutAt sep cs).map fun r => (c :: r.1, r.2)

/-- Whether `sep` occurs. -/
def occurs (sep cs : List Char) : Bool := (cutAt sep cs).isSome

/-- The text without `head` in front, if it starts with it. -/
def withoutHead (head cs : List Char) : List Char :=
  if head.isPrefixOf cs then cs.drop head.length else cs

/-- The text without `tail` at its end, if it ends with it. -/
def withoutTail (tail cs : List Char) : List Char :=
  if tail.isSuffixOf cs then cs.take (cs.length - tail.length) else cs

/-- The text without the characters that satisfy `p` at its two ends. -/
def strip (p : Char → Bool) (cs : List Char) : List Char :=
  ((cs.dropWhile p).reverse.dropWhile p).reverse

/-- The texts with `sep` between them. -/
def join (sep : String) : List String → String
  | [] => ""
  | [s] => s
  | s :: ss => s ++ sep ++ join sep ss

/-- The first occurrence of each text, in order. -/
def distinct : List String → List String
  | [] => []
  | s :: ss => s :: (distinct ss).filter (· != s)

theorem splitWhere_ne_nil (p : Char → Bool) : ∀ cs, splitWhere p cs ≠ []
  | [] => by simp [splitWhere]
  | c :: cs => by
    rw [splitWhere]
    split
    · simp
    · split <;> simp

end Derw.Text

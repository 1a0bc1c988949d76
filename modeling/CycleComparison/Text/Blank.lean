/-!
# Blank characters

The blanks are the characters with the Unicode property `White_Space`. `trim`
removes them from both ends of a text. Bytes have a smaller set of blanks, the
five that single bytes of a text are trimmed by before it is decoded.
-/

namespace CycleComparison

/-- The characters with the property `White_Space`. -/
def isBlank (c : Char) : Bool :=
  let n := c.toNat
  (0x9 ≤ n && n ≤ 0xD) || n == 0x20 || n == 0x85 || n == 0xA0 || n == 0x1680 ||
    (0x2000 ≤ n && n ≤ 0x200A) || n == 0x2028 || n == 0x2029 || n == 0x202F ||
    n == 0x205F || n == 0x3000

/-- The blank bytes: tab, line feed, form feed, carriage return and space. -/
def isBlankByte (b : UInt8) : Bool :=
  b == 0x9 || b == 0xA || b == 0xC || b == 0xD || b == 0x20

/-- A list without the elements at its two ends that satisfy a predicate. -/
def stripEnds {α : Type} (p : α → Bool) (l : List α) : List α :=
  ((l.dropWhile p).reverse.dropWhile p).reverse

@[simp] theorem stripEnds_nil {α : Type} (p : α → Bool) : stripEnds p [] = [] := rfl

/-- A text without the blanks at its ends. -/
def trim (text : String) : String := String.ofList (stripEnds isBlank text.toList)

end CycleComparison

import CycleComparison.Decimal.Shortest

/-!
# Layouts of numbers

`positional` writes a number with its shortest digits and never an exponent;
`fixed` writes the exact value rounded to a number of places, ties to even. In
both a zero keeps its sign, and the numbers without digits are `inf`, `-inf` and
`NaN`.
-/

namespace CycleComparison

namespace Decimal

/-- The digits of a decimal around its point, without an exponent. -/
def positional (negative : Bool) (d : Decimal) : Numeral :=
  let digits := digitsOf d.significand
  let places := (-d.exponent).toNat
  if places = 0 then
    { negative, whole := digits ++ List.replicate d.exponent.toNat '0',
      fraction := [], exponent := none }
  else if places < digits.length then
    { negative, whole := digits.take (digits.length - places),
      fraction := digits.drop (digits.length - places), exponent := none }
  else
    { negative, whole := ['0'],
      fraction := List.replicate (places - digits.length) '0' ++ digits, exponent := none }

end Decimal

namespace Binary64

def infinityText (negative : Bool) : String := if negative then "-inf" else "inf"

/-- The text of a number with its shortest digits and without an exponent. -/
def positional : Binary64 → String
  | .nan => "NaN"
  | .infinite negative => infinityText negative
  | .finite negative step =>
      ((Decimal.shortest .up step).positional negative).text

/-- The text of a number with the given number of places after the point. -/
def fixed (places : Nat) : Binary64 → String
  | .nan => "NaN"
  | .infinite negative => infinityText negative
  | .finite negative step =>
      let scaled := roundHalfEven (Nat.pow 10 places * stepUnits step) unitsPerOne
      { negative, whole := Decimal.digitsOf (scaled / Nat.pow 10 places),
        fraction := Decimal.lastDigits places scaled, exponent := none : Numeral }.text

end Binary64

end CycleComparison

import CycleComparison.Binary64.Rounding
import CycleComparison.Decimal.Digits

/-!
# Numerals

A `Numeral` is the written form of a number: a sign, the digits on both sides of
the decimal point and an exponent. A `Decimal` is the value of such a form
without its sign, a significand scaled by a power of ten. The number of a
numeral is the binary64 number nearest to its exact value.

`Numeral.ofText?` accepts a sign, digits with at most one point and at least one
digit on either side of it, and an exponent with at least one digit.
-/

namespace CycleComparison

/-- The number `significand * 10 ^ exponent`. -/
structure Decimal where
  significand : Nat
  exponent : Int
  deriving DecidableEq

namespace Decimal

/-- The numerator of a decimal over `denominator`, in units of `2 ^ -1074`. -/
def numerator (d : Decimal) : Nat :=
  Binary64.unitsPerOne * (Nat.pow 10 d.exponent.toNat * d.significand)

/-- The power of ten under which a decimal is a fraction of natural numbers. -/
def denominator (d : Decimal) : Nat := Nat.pow 10 (-d.exponent).toNat

/-- The step of the binary64 grid nearest to a decimal. -/
def step (d : Decimal) : Nat := Binary64.nearestStep d.numerator d.denominator

/-- The binary64 number nearest to a decimal, with the given sign. A decimal
that is beyond `10 ^ 400` or below `10 ^ -400` in size is an infinity or a zero
without computing its power of ten. -/
def nearest (negative : Bool) (d : Decimal) : Binary64 :=
  if d.significand = 0 then Binary64.zeroOf negative
  else if 400 < d.exponent then .infinite negative
  else if d.exponent < -(400 + d.significand.log2 : Int) then Binary64.zeroOf negative
  else Binary64.ofRatio negative d.numerator d.denominator

end Decimal

/-- The written form of a number. -/
structure Numeral where
  negative : Bool
  whole : List Char
  fraction : List Char
  exponent : Option Int
  deriving DecidableEq

namespace Numeral

def toDecimal (n : Numeral) : Decimal where
  significand := Decimal.valueOf (n.whole ++ n.fraction)
  exponent := n.exponent.getD 0 - n.fraction.length

def nearest (n : Numeral) : Binary64 := n.toDecimal.nearest n.negative

/-- The digits before and after a point; the point is optional. -/
def splitPoint (text : List Char) : List Char × List Char × List Char :=
  let whole := text.takeWhile Char.isDigit
  match text.dropWhile Char.isDigit with
  | '.' :: rest => (whole, rest.takeWhile Char.isDigit, rest.dropWhile Char.isDigit)
  | rest => (whole, [], rest)

/-- What may follow the digits: nothing, or `e` or `E` and a whole number. The
outer option is the refusal. -/
def exponent? : List Char → Option (Option Int)
  | [] => some none
  | 'e' :: text => (Decimal.whole? text).map some
  | 'E' :: text => (Decimal.whole? text).map some
  | _ => none

def ofText? (text : List Char) : Option Numeral :=
  let (negative, unsigned) := Decimal.splitSign text
  let (whole, fraction, rest) := splitPoint unsigned
  if whole = [] ∧ fraction = [] then none
  else (exponent? rest).map fun exponent => { negative, whole, fraction, exponent }

def exponentText : Option Int → List Char
  | none => []
  | some e => 'e' :: (if e < 0 then '-' else '+') :: Decimal.digitsOf e.natAbs

/-- The text of a numeral; the point is written only before digits. -/
def chars (n : Numeral) : List Char :=
  (if n.negative then ['-'] else []) ++ n.whole ++
    (if n.fraction = [] then [] else '.' :: n.fraction) ++ exponentText n.exponent

def text (n : Numeral) : String := String.ofList n.chars

end Numeral

namespace Binary64

/-- The names of the numbers that have no digits, in any case of letters. -/
def named? (negative : Bool) (word : List Char) : Option Binary64 :=
  match String.ofList (word.map Char.toLower) with
  | "inf" => some (.infinite negative)
  | "infinity" => some (.infinite negative)
  | "nan" => some .nan
  | _ => none

/-- The number that a text spells: a numeral, or a name after at most one sign. -/
def ofText? (text : List Char) : Option Binary64 :=
  match Numeral.ofText? text with
  | some numeral => some numeral.nearest
  | none =>
      let (negative, word) := Decimal.splitSign text
      named? negative word

end Binary64

end CycleComparison

import CycleComparison.Binary64.Arithmetic
import CycleComparison.Decimal.Layout
import CycleComparison.Json.Basic

/-!
# JSON numbers

Whole numbers are written and read as plain digits; a fraction, an exponent or
the sign of a zero makes a numeral another kind of number.

A binary64 number is written with its shortest digits, plainly if its decimal
exponent lies between `-5` and `15`, and in scientific notation otherwise. It is
read fast rather than exactly: as many digits as fit a word are taken, and the
word is multiplied or divided by a power of ten. Each of these steps rounds, so
a number may be read as one of its neighbours.
-/

namespace CycleComparison

namespace Json

def integerNumeral (n : Int) : Numeral :=
  { negative := decide (n < 0), whole := Decimal.digitsOf n.natAbs, fraction := [],
    exponent := none }

def ofInt (n : Int) : Json := .number (integerNumeral n)

def ofNat (n : Nat) : Json := .number (integerNumeral n)

def int? : Json → Option Int
  | .number n =>
      let value := Decimal.valueOf n.whole
      if n.fraction = [] ∧ n.exponent = none ∧ ¬(n.negative ∧ value = 0) then
        some (if n.negative then -(value : Int) else value)
      else none
  | _ => none

def int64? (value : Json) : Option Int64 := value.int?.bind int64OfInt?

def uint64? (value : Json) : Option UInt64 :=
  value.int?.bind fun n => if n < 0 then none else uint64OfNat? n.toNat

/-- The number of things that a document is, which fits a word. -/
def count? (value : Json) : Option Nat := value.uint64?.map UInt64.toNat

end Json

namespace Decimal

/-- The JSON numeral of a decimal. -/
def toJsonNumeral (negative : Bool) (d : Decimal) : Numeral :=
  let digits := digitsOf d.significand
  let exponent := d.exponent + (digits.length - 1 : Nat)
  if -5 ≤ exponent ∧ exponent ≤ 15 then
    let plain := d.positional negative
    { plain with fraction := if plain.fraction = [] then ['0'] else plain.fraction }
  else
    { negative, whole := digits.take 1, fraction := digits.drop 1, exponent := some exponent }

end Decimal

namespace Binary64

/-- A number as a JSON document; one without digits is `null`. -/
def toJson : Binary64 → Json
  | .nan => .null
  | .infinite _ => .null
  | .finite negative step =>
      .number ((Decimal.shortest .toEven step).toJsonNumeral negative)

/-- A power of ten, correctly rounded. -/
def powerOfTen (n : Nat) : Binary64 := Decimal.nearest false ⟨1, n⟩

/-- A number times a power of ten, which is refused if it is infinite. A power
below `10 ^ -308` divides in two steps; below `10 ^ -616` every word becomes
zero. -/
def scale? (x : Binary64) (exponent : Int) : Option Binary64 :=
  if 0 ≤ exponent then
    if x.isZero then some x
    else if exponent ≤ 308 then
      let product := x * powerOfTen exponent.toNat
      if product.isFinite then some product else none
    else none
  else if -308 ≤ exponent then some (x / powerOfTen (-exponent).toNat)
  else if -616 ≤ exponent then
    some (x / powerOfTen 308 / powerOfTen (-exponent - 308).toNat)
  else some (zeroOf false)

end Binary64

namespace Numeral

/-- The significand with one more digit, if it still fits a word. -/
@[irreducible]
def takeDigit? (significand : Nat) (digit : Char) : Option Nat :=
  let next := significand * 10 + (digit.toNat - '0'.toNat)
  if next < UInt64.size then some next else none

/-- Takes the digits before the point, and counts those that are left over. -/
def takeWhole (significand : Nat) : List Char → Nat × Nat
  | [] => (significand, 0)
  | digit :: rest =>
      match takeDigit? significand digit with
      | some next => takeWhole next rest
      | none => (significand, rest.length + 1)

/-- Takes digits after the point, and counts those that were taken. -/
def takeFraction (significand : Nat) : List Char → Nat × Nat
  | [] => (significand, 0)
  | digit :: rest =>
      match takeDigit? significand digit with
      | some next =>
          let (taken, count) := takeFraction next rest
          (taken, count + 1)
      | none => (significand, 0)

/-- The number that a JSON numeral is read as, unless it is too large. -/
def approximate? (n : Numeral) : Option Binary64 :=
  let (whole, leftOver) := takeWhole 0 n.whole
  let (significand, places) := takeFraction whole n.fraction
  let exponent := n.exponent.getD 0 + leftOver - places
  (Binary64.scale? (.ofNat significand) exponent).map fun x =>
    if n.negative then -x else x

end Numeral

/-- The binary64 number that a document is. -/
def Json.binary64? : Json → Option Binary64
  | .number n => n.approximate?
  | _ => none

end CycleComparison

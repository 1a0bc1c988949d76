import CycleComparison.Decimal.Digits

/-!
# Timestamps

A moment is a number of nanoseconds since the beginning of 1970. It is written
in UTC as date and time with the offset `+00:00`; the fraction of the second has
the least of no, three, six or nine digits that lose nothing.
-/

namespace CycleComparison

namespace Timestamp

structure Date where
  year : Int
  month : Nat
  day : Nat
  deriving DecidableEq

/-- The days in an era of four hundred years. -/
def daysPerEra : Int := 146097

/-- The date of a day, counted from the beginning of 1970. Years are counted from
March on, so that a leap day is the last day of its year. -/
def Date.ofDay (day : Int) : Date :=
  let shifted := day + 719468
  let era := shifted / daysPerEra
  let dayOfEra := shifted % daysPerEra
  let yearOfEra := (dayOfEra - dayOfEra / 1460 + dayOfEra / 36524 - dayOfEra / 146096) / 365
  let dayOfYear := dayOfEra - (365 * yearOfEra + yearOfEra / 4 - yearOfEra / 100)
  let fromMarch := (5 * dayOfYear + 2) / 153
  let month := if fromMarch < 10 then fromMarch + 3 else fromMarch - 9
  { year := yearOfEra + era * 400 + (if month ≤ 2 then 1 else 0)
    month := month.toNat
    day := (dayOfYear - (153 * fromMarch + 2) / 5 + 1).toNat }

/-- The last digits of a number as a text. -/
def padded (width n : Nat) : String := String.ofList (Decimal.lastDigits width n)

def fractionText (nanoseconds : Nat) : String :=
  if nanoseconds = 0 then ""
  else if nanoseconds % 1000000 = 0 then "." ++ padded 3 (nanoseconds / 1000000)
  else if nanoseconds % 1000 = 0 then "." ++ padded 6 (nanoseconds / 1000)
  else "." ++ padded 9 nanoseconds

/-- The text of a moment in the years from 0 to 9999. -/
def text (nanoseconds : Int) : String :=
  let seconds := nanoseconds / 1000000000
  let date := Date.ofDay (seconds / 86400)
  let ofDay := (seconds % 86400).toNat
  s!"{padded 4 date.year.toNat}-{padded 2 date.month}-{padded 2 date.day}T" ++
    s!"{padded 2 (ofDay / 3600)}:{padded 2 (ofDay / 60 % 60)}:{padded 2 (ofDay % 60)}" ++
    fractionText (nanoseconds % 1000000000).toNat ++ "+00:00"

/-- The beginning of 1970. -/
example : Date.ofDay 0 = ⟨1970, 1, 1⟩ := by decide

/-- A leap day. -/
example : Date.ofDay 19782 = ⟨2024, 2, 29⟩ := by decide

end Timestamp

end CycleComparison

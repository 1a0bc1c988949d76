import CycleComparison.Decimal.Numeral

/-!
# The shortest decimal that reads back

A finite magnitude is written with the point of the coarsest decimal grid that
reads back as it. If a grid has such a point, one of the two neighbours of the
value on that grid is one, so each grid is tried by two candidates. When both
read back the nearer is taken, and a `Tie` says which one an exact midpoint
takes.

The search stops at the exact decimal expansion of the value, so whatever is
found reads back.
-/

namespace CycleComparison

/-- Which neighbour a midpoint takes. -/
inductive Tie where
  | toEven
  | up
  deriving DecidableEq

namespace Tie

/-- Whether the midpoint above `n` takes `n`. -/
def takesLower : Tie → Nat → Bool
  | .toEven, n => n % 2 == 0
  | .up, _ => false

end Tie

namespace Decimal

open Binary64

def readsBack (step : Nat) (d : Decimal) : Bool := d.step == step

/-- The exact value of a step: the units are multiples of `2 ^ -1074`, hence
whole multiples of `10 ^ -1074`. -/
def exact (step : Nat) : Decimal where
  significand := Nat.pow 5 unitPlaces * stepUnits step
  exponent := -unitPlaces

/-- The value of a step as a multiple of `10 ^ place`, as a fraction. -/
def onGrid (step : Nat) (place : Int) : Nat × Nat :=
  (Nat.pow 10 (-place).toNat * stepUnits step, unitsPerOne * Nat.pow 10 place.toNat)

/-- The one of two decimals that is accepted, if there is one; of two that are,
the preferred one. -/
def candidate? (accepts : Decimal → Bool) (preferFirst : Bool) (first second : Decimal) :
    Option Decimal :=
  match accepts first, accepts second with
  | true, true => some (if preferFirst then first else second)
  | true, false => some first
  | false, true => some second
  | false, false => none

/-- The point of a grid that reads back as the step, if there is one. -/
def onGrid? (tie : Tie) (step : Nat) (place : Int) : Option Decimal :=
  let (num, den) := onGrid step place
  let low := num / den
  let twice := 2 * (num % den)
  candidate? (readsBack step) (decide (twice < den) || (twice == den && tie.takesLower low))
    ⟨low, place⟩ ⟨low + 1, place⟩

/-- The first hit on the grids from `place` downwards, or `last` if the fuel runs
out before. -/
def search (hit? : Int → Option Decimal) (last : Decimal) : Nat → Int → Decimal
  | 0, _ => last
  | fuel + 1, place =>
      match hit? place with
      | some d => d
      | none => search hit? last fuel (place - 1)

/-- A place above the leading digit of a magnitude, from the binary logarithm;
`0.30103` is slightly more than the decimal logarithm of two. -/
def leadingPlace (step : Nat) : Int :=
  (((stepUnits step).log2 : Int) - 1073) * 30103 / 100000 + 2

/-- The shortest decimal that reads back as a step. Seventeen digits always
suffice, which the number of grids tried exceeds. -/
def shortest (tie : Tie) (step : Nat) : Decimal :=
  if step = 0 then ⟨0, 0⟩ else search (onGrid? tie step) (exact step) 24 (leadingPlace step)

end Decimal

end CycleComparison

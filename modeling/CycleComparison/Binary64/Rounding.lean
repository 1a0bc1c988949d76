import CycleComparison.Binary64.Basic

/-!
# Rounding to the nearest step

`nearestStep num den` is the step nearest to `num / den` units, with ties going
to the even step. The spacing of the steps doubles with each binade, so the
quotient is rounded on the grid of the binade it falls into; a quotient that is
rounded up to the end of its binade lands on the first step of the next one
without any special case. From `stepCount` on the result is an infinity.
-/

namespace CycleComparison

/-- The quotient `num / den` rounded to the nearest whole number, a tie going
to the even neighbour. -/
def roundHalfEven (num den : Nat) : Nat :=
  let quotient := num / den
  let twice := 2 * (num % den)
  if twice < den ∨ (twice = den ∧ quotient % 2 = 0) then quotient else quotient + 1

namespace Binary64

/-- The step nearest to `num / den` units of `2 ^ -1074`. Below `2 ^ 53` units
every unit is a step; above, a binade with `2 ^ 52` steps has the spacing
`2 ^ shift`. -/
def nearestStep (num den : Nat) : Nat :=
  let shift := (num / den).log2 - 52
  shift * Nat.pow 2 52 + roundHalfEven num (den * Nat.pow 2 shift)

/-- The number nearest to `num / den` units, with the given sign. -/
def ofRatio (negative : Bool) (num den : Nat) : Binary64 :=
  if h : nearestStep num den < stepCount then .finite negative ⟨nearestStep num den, h⟩
  else .infinite negative

end Binary64

end CycleComparison

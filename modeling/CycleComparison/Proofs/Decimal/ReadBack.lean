import CycleComparison.Decimal.Shortest
import CycleComparison.Proofs.Binary64.Grid

/-!
# Shortest decimals read back

Every decimal that the search considers is checked by reading it back, and the
search ends at the exact expansion, whose value is the magnitude itself. So the
shortest decimal of a step is read as the step. Reading is rounding the exact
value, also for the decimals that are found to be zero without being expanded.
-/

namespace CycleComparison

namespace Decimal

open Binary64

theorem numerator_eq (d : Decimal) :
    d.numerator = unitsPerOne * (10 ^ d.exponent.toNat * d.significand) := rfl

theorem denominator_eq (d : Decimal) : d.denominator = 10 ^ (-d.exponent).toNat := rfl

theorem numerator_eq_zero {d : Decimal} (h : d.significand = 0) : d.numerator = 0 := by
  rw [numerator_eq, h, Nat.mul_zero, Nat.mul_zero]

theorem step_of_readsBack {step : Nat} {d : Decimal} (h : readsBack step d) : d.step = step :=
  beq_iff_eq.1 h

/-- The exact expansion of a step is read as the step. -/
theorem step_exact (step : Nat) : (exact step).step = step := by
  have hnum : (exact step).numerator = stepUnits step * 10 ^ unitPlaces := by
    have hten : 10 ^ unitPlaces = 5 ^ unitPlaces * 2 ^ unitPlaces := by rw [← Nat.mul_pow]
    have hexp : (exact step).exponent.toNat = 0 := by
      rw [exact]
      exact Int.toNat_neg_natCast unitPlaces
    rw [numerator_eq, hexp, unitsPerOne_eq, hten, exact]
    simp only [Nat.pow_eq, Nat.pow_zero, Nat.one_mul]
    ring
  have hden : (exact step).denominator = 10 ^ unitPlaces := by
    rw [denominator_eq, exact]
    simp only [Int.neg_neg, Int.toNat_natCast]
  rw [Decimal.step, hnum, hden]
  exact nearestStep_stepUnits_mul (Nat.pow_pos (by decide)) step

theorem accepts_of_candidate? {accepts : Decimal → Bool} {preferFirst : Bool}
    {first second d : Decimal} (h : candidate? accepts preferFirst first second = some d) :
    accepts d := by
  unfold candidate? at h
  split at h
  · rename_i hfirst hsecond
    cases h
    split
    · exact hfirst
    · exact hsecond
  · rename_i hfirst _
    cases h
    exact hfirst
  · rename_i _ hsecond
    cases h
    exact hsecond
  · cases h

theorem search_induction {hit? : Int → Option Decimal} {last : Decimal} {P : Decimal → Prop}
    (hhit : ∀ place d, hit? place = some d → P d) (hlast : P last) (fuel : Nat) (place : Int) :
    P (search hit? last fuel place) := by
  induction fuel generalizing place with
  | zero =>
      rw [search]
      exact hlast
  | succ fuel ih =>
      rw [search]
      cases hplace : hit? place with
      | none => exact ih (place - 1)
      | some d => exact hhit place d hplace

theorem step_of_onGrid? {tie : Tie} {step : Nat} {place : Int} {d : Decimal}
    (h : onGrid? tie step place = some d) : d.step = step := by
  rw [onGrid?, onGrid] at h
  exact step_of_readsBack (accepts_of_candidate? h)

/-- The shortest decimal of a step is read as the step. -/
theorem step_shortest (tie : Tie) (step : Nat) : (shortest tie step).step = step := by
  unfold shortest
  by_cases hzero : step = 0
  · rw [if_pos hzero, hzero]
    rw [Decimal.step, numerator_eq_zero rfl]
    exact nearestStep_eq_zero (Nat.pow_pos (by decide))
  · rw [if_neg hzero]
    exact search_induction (fun _ _ => step_of_onGrid?) (step_exact step) 24 _

theorem ofRatio_eq_zeroOf {num den : Nat} (negative : Bool) (h : 2 * num < den) :
    ofRatio negative num den = zeroOf negative := by
  unfold ofRatio zeroOf
  simp only [nearestStep_eq_zero h]
  rfl

/-- A decimal that is too small to be expanded is far below half a unit. -/
theorem numerator_lt_denominator {d : Decimal}
    (h : d.exponent < -(400 + d.significand.log2 : Int)) : 2 * d.numerator < d.denominator := by
  obtain ⟨places, hplaces⟩ : ∃ places : Nat, d.exponent = -places :=
    ⟨(-d.exponent).toNat, by omega⟩
  have hunits : unitPlaces + d.significand.log2 + 2 ≤ 3 * places := by
    rw [unitPlaces]
    omega
  have hnum : d.numerator = unitsPerOne * d.significand := by
    have hexp : d.exponent.toNat = 0 := by omega
    rw [numerator_eq, hexp, Nat.pow_zero, Nat.one_mul]
  have hden : d.denominator = 10 ^ places := by
    have hexp : (-d.exponent).toNat = places := by omega
    rw [denominator_eq, hexp]
  rw [hnum, hden, unitsPerOne_eq]
  calc 2 * (2 ^ unitPlaces * d.significand)
      < 2 * (2 ^ unitPlaces * 2 ^ (d.significand.log2 + 1)) := by
        apply Nat.mul_lt_mul_of_pos_left _ (by decide)
        exact Nat.mul_lt_mul_of_pos_left Nat.lt_log2_self (Nat.two_pow_pos unitPlaces)
    _ = 2 ^ (unitPlaces + d.significand.log2 + 2) := by ring
    _ ≤ 2 ^ (3 * places) := Nat.pow_le_pow_right (by decide) hunits
    _ = (2 ^ 3) ^ places := Nat.pow_mul 2 3 places
    _ ≤ 10 ^ places := Nat.pow_le_pow_left (by decide) places

/-- Rounding the exact value of a decimal gives the nearest number also where it
is found without the exact value. -/
theorem nearest_eq_ofRatio {d : Decimal} (negative : Bool) (h : d.exponent ≤ 400) :
    d.nearest negative = ofRatio negative d.numerator d.denominator := by
  unfold nearest
  by_cases hsig : d.significand = 0
  · rw [if_pos hsig, ofRatio_eq_zeroOf]
    rw [numerator_eq_zero hsig, denominator_eq, Nat.mul_zero]
    exact Nat.pow_pos (by decide)
  · rw [if_neg hsig, if_neg (by omega)]
    by_cases hsmall : d.exponent < -(400 + d.significand.log2 : Int)
    · rw [if_pos hsmall, ofRatio_eq_zeroOf negative (numerator_lt_denominator hsmall)]
    · rw [if_neg hsmall]

end Decimal

end CycleComparison

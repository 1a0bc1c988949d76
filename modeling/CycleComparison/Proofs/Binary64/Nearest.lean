import CycleComparison.Proofs.Decimal.Value
import CycleComparison.Proofs.Json.Exact
import Mathlib.Algebra.Order.Field.Basic
import Mathlib.Algebra.Order.Ring.Abs
import Mathlib.Tactic.Linarith
import Mathlib.Tactic.NormNum

/-!
# The number nearest to a decimal

The number that a decimal is rounded to has the sign of the decimal and the
magnitude that is nearest to its exact value, so no finite number is nearer. The
error is at most half a unit, or a part in `2 ^ 53` of the value. Therefore whole
numbers up to `2 ^ 53` are not changed, and a decimal with a significand below
`2 ^ 53` is not rounded to a whole number unless it is one.
-/

namespace CycleComparison

theorem two_mul_roundHalfEven_le (num : Nat) {den : Nat} (hden : 0 < den) :
    2 * (roundHalfEven num den * den) ≤ 2 * num + den ∧
      2 * num ≤ 2 * (roundHalfEven num den * den) + den := by
  constructor
  · cases hround : roundHalfEven num den with
    | zero => omega
    | succ m =>
        have hnot : ¬ roundHalfEven num den ≤ m := by omega
        rw [roundHalfEven_le_iff hden] at hnot
        have hmid : (2 * m + 1) * den + den = 2 * ((m + 1) * den) := by ring
        omega
  · have hself := (@roundHalfEven_le_iff num den hden _).1 (Nat.le_refl _)
    have hmid : (2 * roundHalfEven num den + 1) * den =
        2 * (roundHalfEven num den * den) + den := by ring
    omega

namespace Binary64

/-- The value of a step. -/
def stepValue (k : Nat) : ℚ := stepUnits k / unitsPerOne

theorem unitsPerOne_pos_cast : (0 : ℚ) < unitsPerOne := Nat.cast_pos.2 unitsPerOne_pos

theorem stepValue_nonneg (k : Nat) : 0 ≤ stepValue k :=
  div_nonneg (Nat.cast_nonneg _) unitsPerOne_pos_cast.le

/-- A distance from a step, in units. -/
theorem abs_mul_sub_stepUnits (x : ℚ) (k : Nat) :
    |unitsPerOne * x - stepUnits k| = unitsPerOne * |x - stepValue k| := by
  rw [← abs_of_pos unitsPerOne_pos_cast, ← abs_mul, abs_of_pos unitsPerOne_pos_cast, stepValue,
    mul_sub, mul_div_cancel₀ _ unitsPerOne_pos_cast.ne']

section Quotient

variable {num den k : Nat}

theorem mul_le_of_lt_nearestStep (hden : 0 < den) (h : k < nearestStep num den) :
    (stepUnits k + stepUnits (nearestStep num den)) * den ≤ 2 * num := by
  obtain ⟨j, hj⟩ : ∃ j, nearestStep num den = j + 1 := ⟨nearestStep num den - 1, by omega⟩
  have hnot : ¬ nearestStep num den ≤ j := by omega
  rw [nearestStep_le_iff hden] at hnot
  have hle : stepUnits k + stepUnits (j + 1) ≤ stepUnits j + stepUnits (j + 1) :=
    Nat.add_le_add_right (stepUnits_le (by omega)) _
  have hmul := Nat.mul_le_mul_right den hle
  rw [hj]
  omega

theorem le_mul_of_nearestStep_lt (hden : 0 < den) (h : nearestStep num den < k) :
    2 * num ≤ (stepUnits (nearestStep num den) + stepUnits k) * den := by
  have hself := (@nearestStep_le_iff num den hden _).1 (Nat.le_refl _)
  have hle : stepUnits (nearestStep num den) + stepUnits (nearestStep num den + 1) ≤
      stepUnits (nearestStep num den) + stepUnits k :=
    Nat.add_le_add_left (stepUnits_le h) _
  have hmul := Nat.mul_le_mul_right den hle
  omega

/-- No step is nearer to a quotient than the one that it is rounded to. -/
theorem abs_sub_nearestStep_le (num : Nat) (hden : 0 < den) (k : Nat) :
    |(num / den : ℚ) - stepUnits (nearestStep num den)| ≤ |(num / den : ℚ) - stepUnits k| := by
  have hpos : (0 : ℚ) < den := Nat.cast_pos.2 hden
  rcases Nat.lt_trichotomy k (nearestStep num den) with hlt | heq | hgt
  · have hmid : (stepUnits k + stepUnits (nearestStep num den) : ℚ) ≤ 2 * (num / den) := by
      rw [← mul_div_assoc, le_div_iff₀ hpos]
      exact_mod_cast mul_le_of_lt_nearestStep hden hlt
    have hstep : (stepUnits k : ℚ) ≤ stepUnits (nearestStep num den) :=
      Nat.cast_le.2 (stepUnits_le hlt.le)
    rw [abs_le]
    have hself := le_abs_self ((num / den : ℚ) - stepUnits k)
    constructor <;> linarith
  · rw [heq]
  · have hmid : (2 * (num / den) : ℚ) ≤ stepUnits (nearestStep num den) + stepUnits k := by
      rw [← mul_div_assoc, div_le_iff₀ hpos]
      exact_mod_cast le_mul_of_nearestStep_lt hden hgt
    have hstep : (stepUnits (nearestStep num den) : ℚ) ≤ stepUnits k :=
      Nat.cast_le.2 (stepUnits_le hgt.le)
    rw [abs_le]
    have hself := neg_abs_le ((num / den : ℚ) - stepUnits k)
    constructor <;> linarith

/-- The error of rounding: half a unit, or a part in `2 ^ 53`. -/
theorem abs_sub_nearestStep_le_max (num : Nat) (hden : 0 < den) :
    |(num / den : ℚ) - stepUnits (nearestStep num den)| ≤
      max ((num : ℚ) / den / 2 ^ 53) (1 / 2) := by
  have hpos : (0 : ℚ) < den := Nat.cast_pos.2 hden
  obtain ⟨hend, hstart, -, hlow⟩ := roundHalfEven_binade num hden
  have hround := two_mul_roundHalfEven_le num
    (Nat.mul_pos hden (Nat.two_pow_pos ((num / den).log2 - 52)))
  have hunits : stepUnits (nearestStep num den) =
      roundHalfEven num (den * 2 ^ ((num / den).log2 - 52)) * 2 ^ ((num / den).log2 - 52) :=
    stepUnits_binade _ hstart hend
  rw [hunits]
  generalize roundHalfEven num (den * 2 ^ ((num / den).log2 - 52)) = rounded at *
  generalize (num / den).log2 - 52 = shift at *
  -- half of the spacing of the binade, to which the quotient was rounded
  have hhalf : |(num / den : ℚ) - (rounded * 2 ^ shift : Nat)| ≤ 2 ^ shift / 2 := by
    have hle : (rounded * 2 ^ shift : ℚ) ≤ num / den + 2 ^ shift / 2 := by
      rw [← sub_le_iff_le_add, le_div_iff₀ hpos]
      have hcast : (2 * (rounded * (den * 2 ^ shift)) : ℚ) ≤ 2 * num + den * 2 ^ shift := by
        exact_mod_cast hround.1
      linarith
    have hge : (num / den : ℚ) ≤ rounded * 2 ^ shift + 2 ^ shift / 2 := by
      rw [div_le_iff₀ hpos]
      have hcast : (2 * num : ℚ) ≤ 2 * (rounded * (den * 2 ^ shift)) + den * 2 ^ shift := by
        exact_mod_cast hround.2
      linarith
    rw [abs_le]
    push_cast
    constructor <;> linarith
  refine hhalf.trans ?_
  rcases hlow with hlow | rfl
  · apply le_max_of_le_left
    have hcast : (2 ^ 52 * (den * 2 ^ shift) : ℚ) ≤ num := by
      exact_mod_cast hlow
    rw [div_div, le_div_iff₀ (mul_pos hpos (by norm_num))]
    linarith
  · exact le_max_of_le_right (by norm_num)

end Quotient

/-- The exact value of a finite number. -/
def value? (x : Binary64) : Option ℚ :=
  x.units?.map fun units : Int => (units : ℚ) / unitsPerOne

/-- The whole number that a number is has the same value. -/
theorem whole?_eq_some_iff {x : Binary64} {m : Int} :
    x.whole? = some m ↔ x.value? = some (m : ℚ) := by
  unfold whole? value?
  cases x.units? with
  | none => exact iff_of_false nofun nofun
  | some units =>
      have hpos : (0 : Int) < unitsPerOne := Int.natCast_pos.2 unitsPerOne_pos
      have hvalue : (units / unitsPerOne : ℚ) = m ↔ units = m * unitsPerOne := by
        rw [div_eq_iff unitsPerOne_pos_cast.ne']
        exact_mod_cast Iff.rfl
      simp only [Option.bind_some, Option.map_some, Option.some.injEq, hvalue]
      constructor
      · intro h
        split at h
        · rename_i hmod
          rw [← Option.some.inj h]
          exact (Int.ediv_mul_cancel (Int.dvd_of_emod_eq_zero hmod)).symm
        · cases h
      · rintro rfl
        rw [if_pos (Int.mul_emod_left _ _), Int.mul_ediv_cancel _ hpos.ne']

theorem value?_finite (negative : Bool) (step : Fin stepCount) :
    (finite negative step).value? = some (signFactor negative * stepValue step) := by
  rw [value?, units?_finite, Option.map_some, signedUnits, signFactor, stepValue]
  cases negative <;> simp [neg_div]

theorem exists_of_value? {x : Binary64} {y : ℚ} (h : x.value? = some y) :
    ∃ negative k, k < stepCount ∧ y = signFactor negative * stepValue k := by
  cases x with
  | nan => cases h
  | infinite negative => cases h
  | finite negative step =>
      rw [value?_finite] at h
      exact ⟨negative, step, step.isLt, (Option.some.inj h).symm⟩

end Binary64

namespace Decimal

open Binary64

variable {d : Decimal}

/-- No step has a value nearer to a decimal than the one that it is rounded to. -/
theorem abs_sub_step_le (d : Decimal) (k : Nat) :
    |d.magnitude - stepValue d.step| ≤ |d.magnitude - stepValue k| := by
  have hnear := abs_sub_nearestStep_le d.numerator d.denominator_pos k
  rw [numerator_div_denominator, abs_mul_sub_stepUnits, abs_mul_sub_stepUnits, ← step] at hnear
  exact le_of_mul_le_mul_left hnear unitsPerOne_pos_cast

theorem abs_sub_step_le_max (d : Decimal) :
    |d.magnitude - stepValue d.step| ≤
      max (d.magnitude / 2 ^ 53) (1 / (2 * (unitsPerOne : ℚ))) := by
  have herror := abs_sub_nearestStep_le_max d.numerator d.denominator_pos
  have hpos := unitsPerOne_pos_cast
  have hmax : max ((unitsPerOne : ℚ) * d.magnitude / 2 ^ 53) (1 / 2) =
      unitsPerOne * max (d.magnitude / 2 ^ 53) (1 / (2 * (unitsPerOne : ℚ))) := by
    rw [mul_max_of_nonneg _ _ hpos.le, mul_div_assoc]
    congr 1
    field_simp
  rw [numerator_div_denominator, hmax, abs_mul_sub_stepUnits, ← step] at herror
  exact le_of_mul_le_mul_left herror hpos

theorem step_eq_zero (h : d.significand = 0) : d.step = 0 := by
  rw [step, numerator_eq_zero h]
  exact nearestStep_eq_zero d.denominator_pos

/-- The step after the last finite one has the value `2 ^ 1024`. -/
theorem stepUnits_stepCount : stepUnits stepCount = unitsPerOne * 2 ^ 1024 := by
  have hunits : stepUnits (2045 * 2 ^ 52 + 2 ^ 53) = 2 ^ 53 * 2 ^ 2045 :=
    stepUnits_binade 2045 (.inl (by decide)) (Nat.le_refl _)
  have hcount : stepCount = 2045 * 2 ^ 52 + 2 ^ 53 := by decide
  have hplaces : 53 + 2045 = unitPlaces + 1024 := by rw [unitPlaces]
  rw [hcount, hunits, unitsPerOne_eq, ← Nat.pow_add, ← Nat.pow_add, hplaces]

theorem two_pow_le_ten_pow {m n : Nat} (h : m ≤ 3 * n) : 2 ^ m ≤ 10 ^ n :=
  calc 2 ^ m ≤ 2 ^ (3 * n) := Nat.pow_le_pow_right (by decide) h
    _ = (2 ^ 3) ^ n := Nat.pow_mul 2 3 n
    _ ≤ 10 ^ n := Nat.pow_le_pow_left (by decide) n

/-- What is beyond `10 ^ 400` is rounded to an infinity. -/
theorem stepCount_le_step (hsig : d.significand ≠ 0) (hexp : 400 < d.exponent) :
    stepCount ≤ d.step := by
  have hten := two_pow_le_ten_pow (show 1024 ≤ 3 * d.exponent.toNat by omega)
  apply le_nearestStep d.denominator_pos
  rw [denominator_eq, Int.toNat_of_nonpos (by omega), Nat.pow_zero, Nat.mul_one, numerator_eq,
    stepUnits_stepCount]
  exact Nat.mul_le_mul_left _ (hten.trans (Nat.le_mul_of_pos_right _ (Nat.pos_of_ne_zero hsig)))

/-- The number nearest to a decimal has the value of the step that the decimal is
rounded to, unless this is beyond the finite ones. -/
theorem value?_nearest (negative : Bool) (d : Decimal) :
    (d.nearest negative).value? =
      if d.step < stepCount then some (signFactor negative * stepValue d.step) else none := by
  by_cases hsig : d.significand = 0
  · rw [nearest, if_pos hsig, step_eq_zero hsig, if_pos (by decide)]
    exact value?_finite negative _
  · by_cases hexp : 400 < d.exponent
    · rw [nearest, if_neg hsig, if_pos hexp,
        if_neg (Nat.not_lt.2 (stepCount_le_step hsig hexp))]
      rfl
    · rw [nearest_eq_ofRatio negative (Int.not_lt.1 hexp), ofRatio, ← step]
      by_cases hlt : d.step < stepCount
      · rw [dif_pos hlt, if_pos hlt]
        exact value?_finite negative _
      · rw [dif_neg hlt, if_neg hlt]
        rfl

/-- A decimal that is the value of a step is rounded to the step. -/
theorem step_eq_of_magnitude {k : Nat} (h : d.magnitude = stepValue k) : d.step = k := by
  have hnear := d.abs_sub_step_le k
  rw [h, sub_self, abs_zero, abs_nonpos_iff, sub_eq_zero] at hnear
  have hunits : (stepUnits k : ℚ) = stepUnits d.step :=
    (div_left_inj' unitsPerOne_pos_cast.ne').1 hnear
  exact stepUnits_strictMono.injective (Nat.cast_injective hunits).symm

theorem exists_stepValue_eq {m : Nat} (h : m ≤ 2 ^ 53) : ∃ k < stepCount, stepValue k = m := by
  have hunits : ∃ k < stepCount, stepUnits k = unitsPerOne * m := by
    rcases Nat.lt_or_eq_of_le h with hlt | rfl
    · obtain ⟨k, hk, hunits⟩ := exists_stepUnits_eq_mul hlt (Nat.zero_le 900)
      exact ⟨k, hk, by rw [hunits, Nat.pow_zero, Nat.mul_one]⟩
    · obtain ⟨k, hk, hunits⟩ :=
        exists_stepUnits_eq_mul (show 1 < 2 ^ 53 by decide) (show 53 ≤ 900 by decide)
      exact ⟨k, hk, by rw [hunits, Nat.one_mul]⟩
  obtain ⟨k, hk, hunits⟩ := hunits
  refine ⟨k, hk, ?_⟩
  rw [stepValue, hunits, Nat.cast_mul, mul_div_cancel_left₀ _ unitsPerOne_pos_cast.ne']

/-- Whole numbers up to `2 ^ 53` are not changed. -/
theorem step_of_magnitude_eq_natCast {m : Nat} (hm : m ≤ 2 ^ 53) (h : d.magnitude = m) :
    d.step < stepCount ∧ stepValue d.step = m := by
  obtain ⟨k, hk, hvalue⟩ := exists_stepValue_eq hm
  rw [step_eq_of_magnitude (h.trans hvalue.symm)]
  exact ⟨hk, hvalue⟩

/-- A decimal with a significand below `2 ^ 53` is not rounded to a whole number that
it is not: both parts of the error are less than the distance between them, which is
at least the last place of the decimal. -/
theorem magnitude_eq_of_stepValue {m : Nat} (hsig : d.significand < 2 ^ 53)
    (hlow : -323 ≤ d.exponent) (hhigh : d.exponent < 0) (h : stepValue d.step = m) :
    d.magnitude = m := by
  obtain ⟨places, hplaces⟩ : ∃ places : Nat, d.exponent = -places :=
    ⟨(-d.exponent).toNat, by omega⟩
  have hten : (0 : ℚ) < 10 ^ places := by positivity
  have hmagnitude : d.magnitude = d.significand / 10 ^ places := by
    rw [magnitude, hplaces, zpow_neg, zpow_natCast, div_eq_mul_inv]
  by_contra hne
  have hdistance : 1 / 10 ^ places ≤ |d.magnitude - stepValue d.step| := by
    have hwhole : (d.significand : Int) - m * 10 ^ places ≠ 0 := by
      intro hzero
      apply hne
      rw [hmagnitude, div_eq_iff hten.ne']
      exact_mod_cast sub_eq_zero.1 hzero
    have hone : (1 : ℚ) ≤ |(d.significand : ℚ) - m * 10 ^ places| := by
      exact_mod_cast Int.one_le_abs hwhole
    have hscale : d.magnitude - stepValue d.step =
        (d.significand - m * 10 ^ places) / 10 ^ places := by
      rw [h, hmagnitude, sub_div, mul_div_cancel_right₀ _ hten.ne']
    rw [hscale, abs_div, abs_of_pos hten]
    exact (div_le_div_iff_of_pos_right hten).2 hone
  have herror : max (d.magnitude / 2 ^ 53) (1 / (2 * (unitsPerOne : ℚ))) < 1 / 10 ^ places := by
    apply max_lt
    · have hcast : (d.significand : ℚ) < 2 ^ 53 := by exact_mod_cast hsig
      rw [hmagnitude, div_right_comm]
      exact (div_lt_div_iff_of_pos_right hten).2 ((div_lt_one (by norm_num)).2 hcast)
    · have hpower : 10 ^ places < 2 * unitsPerOne :=
        calc 10 ^ places ≤ 10 ^ 323 := Nat.pow_le_pow_right (by decide) (by omega)
          _ < 2 * 2 ^ 1074 := by decide +kernel
          _ = 2 * unitsPerOne := by rw [unitsPerOne_eq, unitPlaces]
      exact one_div_lt_one_div_of_lt hten (by exact_mod_cast hpower)
  exact absurd (hdistance.trans d.abs_sub_step_le_max) (not_le.2 herror)

end Decimal

namespace Numeral

open Decimal Binary64

variable {n : Numeral}

theorem exists_step_of_value?_nearest {y : ℚ} (h : n.nearest.value? = some y) :
    y = signFactor n.negative * stepValue n.toDecimal.step := by
  rw [nearest, value?_nearest] at h
  split at h
  · exact (Option.some.inj h).symm
  · cases h

/-- No finite number is nearer to the value of a numeral than the one that the numeral
is read as. -/
theorem abs_sub_le_of_value?_nearest {x : Binary64} {y z : ℚ} (h : n.nearest.value? = some y)
    (hx : x.value? = some z) : |n.value - y| ≤ |n.value - z| := by
  obtain ⟨negative, k, -, rfl⟩ := exists_of_value? hx
  rw [exists_step_of_value?_nearest h, value_eq, ← mul_sub, abs_signFactor_mul]
  refine (abs_sub_step_le n.toDecimal k).trans ?_
  have hmagnitude := magnitude_nonneg n.toDecimal
  have hstep := stepValue_nonneg k
  -- a number of the other sign is no nearer than the one of the same magnitude
  have hsigns := abs_abs_sub_abs_le (signFactor n.negative * n.toDecimal.magnitude)
    (signFactor negative * stepValue k)
  rwa [abs_signFactor_mul, abs_signFactor_mul, abs_of_nonneg hmagnitude,
    abs_of_nonneg hstep] at hsigns

/-- Whole numbers up to `2 ^ 53` are read as they are. -/
theorem value?_nearest_of_value {m : Int} (hle : |n.value| ≤ 2 ^ 53) (h : n.value = m) :
    n.nearest.value? = some (m : ℚ) := by
  have hmagnitude : n.toDecimal.magnitude = m.natAbs := by
    rw [← abs_value, h, ← Int.cast_abs, Nat.cast_natAbs]
  have hbound : m.natAbs ≤ 2 ^ 53 := by
    rw [abs_value, hmagnitude] at hle
    exact_mod_cast hle
  obtain ⟨hlt, hvalue⟩ := step_of_magnitude_eq_natCast hbound hmagnitude
  rw [nearest, value?_nearest, if_pos hlt, hvalue, ← hmagnitude, ← value_eq, h]

/-- A numeral with a significand below `2 ^ 53` is not read as a whole number that it
is not, if it is not beyond `2 ^ 53` or so small that it is read as zero. -/
theorem value_eq_of_value?_nearest {m : Int} (hle : |n.value| ≤ 2 ^ 53)
    (hsig : n.toDecimal.significand < 2 ^ 53) (hlow : -323 ≤ n.toDecimal.exponent)
    (h : n.nearest.value? = some (m : ℚ)) : n.value = m := by
  have hm := exists_step_of_value?_nearest h
  have hstep : stepValue n.toDecimal.step = m.natAbs := by
    rw [Nat.cast_natAbs, Int.cast_abs, hm, abs_signFactor_mul, abs_of_nonneg (stepValue_nonneg _)]
  rw [value_eq, hm]
  congr 1
  by_cases hexp : 0 ≤ n.toDecimal.exponent
  · have hmagnitude := magnitude_of_nonneg hexp
    rw [abs_value, hmagnitude] at hle
    rw [hmagnitude]
    exact (step_of_magnitude_eq_natCast (by exact_mod_cast hle) hmagnitude).2.symm
  · rw [hstep]
    exact magnitude_eq_of_stepValue hsig hlow (not_le.1 hexp) hstep

end Numeral

end CycleComparison

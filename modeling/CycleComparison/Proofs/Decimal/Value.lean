import CycleComparison.Proofs.Decimal.Literal
import CycleComparison.Proofs.Decimal.ReadBack
import Mathlib.Algebra.Field.Rat
import Mathlib.Data.Rat.Cast.Order
import Mathlib.Tactic.FieldSimp
import Mathlib.Tactic.Ring

/-!
# Values of decimals and numerals

The value of a numeral is the rational number that its parts stand for. It is the
value of the decimal of the numeral with the sign, and the fraction that is rounded
to find the nearest number is this value in units.
-/

namespace CycleComparison

/-- The factor of a sign. -/
def signFactor (negative : Bool) : ℚ := if negative then -1 else 1

theorem signFactor_mul_natCast (negative : Bool) (n : Nat) :
    signFactor negative * n = (Decimal.withSign negative n : Int) := by
  cases negative <;> simp [signFactor, Decimal.withSign]

theorem abs_signFactor_mul (negative : Bool) (x : ℚ) : |signFactor negative * x| = |x| := by
  cases negative <;> simp [signFactor]

namespace Decimal

open Binary64

variable {d : Decimal}

/-- The exact value of a decimal. -/
def magnitude (d : Decimal) : ℚ := d.significand * 10 ^ d.exponent

theorem magnitude_nonneg (d : Decimal) : 0 ≤ d.magnitude :=
  mul_nonneg (Nat.cast_nonneg _) (zpow_nonneg (by norm_num) _)

theorem magnitude_of_nonneg (h : 0 ≤ d.exponent) :
    d.magnitude = (d.significand * 10 ^ d.exponent.toNat : Nat) := by
  rw [magnitude, ← Int.toNat_of_nonneg h, zpow_natCast, Int.toNat_natCast]
  push_cast
  rfl

theorem denominator_pos (d : Decimal) : 0 < d.denominator := by
  rw [denominator_eq]
  exact Nat.pow_pos (by decide)

theorem numerator_div_denominator (d : Decimal) :
    (d.numerator / d.denominator : ℚ) = unitsPerOne * d.magnitude := by
  have hten : (10 : ℚ) ≠ 0 := by norm_num
  have hpow : (10 : ℚ) ^ d.exponent = 10 ^ d.exponent.toNat / 10 ^ (-d.exponent).toNat := by
    rw [← zpow_natCast, ← zpow_natCast, ← zpow_sub₀ hten]
    congr 1
    omega
  rw [numerator_eq, denominator_eq, magnitude, hpow]
  push_cast
  ring

end Decimal

namespace Numeral

open Decimal

/-- The exact value of a numeral, from its parts. -/
def value (n : Numeral) : ℚ :=
  signFactor n.negative *
    ((valueOf n.whole + valueOf n.fraction / 10 ^ n.fraction.length) * 10 ^ n.exponent.getD 0)

theorem valueOf_append (whole fraction : List Char) :
    valueOf (whole ++ fraction) = 10 ^ fraction.length * valueOf whole + valueOf fraction := by
  rw [valueOf, Nat.ofDigitChars_append, Nat.ofDigitChars_eq_ofDigitChars_zero]
  rfl

/-- The value of a numeral is that of its decimal with the sign. -/
theorem value_eq (n : Numeral) : n.value = signFactor n.negative * n.toDecimal.magnitude := by
  have hten : (10 : ℚ) ^ n.fraction.length ≠ 0 := pow_ne_zero _ (by norm_num)
  rw [value, magnitude, toDecimal, zpow_sub₀ (by norm_num), zpow_natCast, valueOf_append]
  push_cast
  field_simp

theorem abs_value (n : Numeral) : |n.value| = n.toDecimal.magnitude := by
  rw [value_eq, abs_signFactor_mul, abs_of_nonneg (magnitude_nonneg _)]

/-- The text of a whole number is a literal with the number as its value. -/
theorem exists_spells_of_spellsWhole {text : List Char} {m : Int} (h : SpellsWhole m text) :
    ∃ n : Numeral, n.Spells text ∧ n.value = m := by
  obtain ⟨negative, digits, hsign, hrun, rfl⟩ := h
  refine ⟨⟨negative, digits, [], none⟩, ?_, ?_⟩
  · exact ⟨digits, digits, [], hsign, (List.append_nil digits).symm, .bare hrun, .absent⟩
  · simp [value, signFactor_mul_natCast]

theorem value_of_spellsWhole {n : Numeral} {text : List Char} {m : Int} (h : n.Spells text)
    (hwhole : SpellsWhole m text) : n.value = m := by
  obtain ⟨n', hn', hvalue⟩ := exists_spells_of_spellsWhole hwhole
  rw [h.unique hn', hvalue]

end Numeral

end CycleComparison

import CycleComparison.Binary64.Rounding
import Mathlib.Order.Monotone.Basic
import Mathlib.Tactic.Ring

/-!
# The grid of magnitudes and rounding to it

The magnitudes ascend with their steps, also beyond the finite ones, and within
a binade they are the multiples of one spacing. Hence the step nearest to a
quotient is known by comparisons alone: it is at most `k` exactly when the
quotient does not pass the midpoint after step `k`, where a midpoint belongs to
the even step. Rounding is therefore monotone, leaves the magnitudes where they
are, and stays finite up to the midpoint after the last finite step.
-/

namespace CycleComparison

theorem roundHalfEven_le_iff {num den : Nat} (hden : 0 < den) (m : Nat) :
    roundHalfEven num den ≤ m ↔
      2 * num < (2 * m + 1) * den ∨ (2 * num = (2 * m + 1) * den ∧ m % 2 = 0) := by
  have hsplit : num = num / den * den + num % den := (Nat.div_add_mod' num den).symm
  have hmod : num % den < den := Nat.mod_lt num hden
  unfold roundHalfEven
  simp only
  generalize num / den = q at hsplit ⊢
  generalize num % den = r at hsplit hmod ⊢
  have hnum : 2 * num = 2 * (q * den) + 2 * r := by omega
  have hmid : (2 * m + 1) * den = 2 * (m * den) + den := by ring
  rw [hnum, hmid]
  rcases Nat.lt_trichotomy q m with hlt | heq | hgt
  · have hle : (q + 1) * den ≤ m * den := Nat.mul_le_mul_right den hlt
    rw [Nat.succ_mul] at hle
    constructor
    · intro _
      exact .inl (by omega)
    · intro _
      split <;> omega
  · subst heq
    split <;> rename_i hround <;> constructor <;> intro h <;> omega
  · have hle : (m + 1) * den ≤ q * den := Nat.mul_le_mul_right den hgt
    rw [Nat.succ_mul] at hle
    constructor
    · intro h
      split at h <;> omega
    · intro h
      omega

namespace Binary64

theorem unitsPerOne_eq : unitsPerOne = 2 ^ unitPlaces := by
  rw [unitsPerOne, Nat.pow_eq]

/-- Within a binade, its end included, the magnitudes are multiples of a power of
two. -/
theorem stepUnits_binade (shift : Nat) {m : Nat} (hm : 2 ^ 52 ≤ m ∨ shift = 0) (hm' : m ≤ 2 ^ 53) :
    stepUnits (shift * 2 ^ 52 + m) = m * 2 ^ shift := by
  unfold stepUnits
  simp only [Nat.pow_eq]
  by_cases hsub : shift * 2 ^ 52 + m < 2 ^ 52
  · have hshift : shift = 0 := by omega
    subst hshift
    rw [if_pos hsub]
    omega
  · rw [if_neg hsub]
    by_cases hend : m = 2 ^ 53
    · have hdiv : (shift * 2 ^ 52 + m) / 2 ^ 52 = shift + 2 := by omega
      have hmod : (shift * 2 ^ 52 + m) % 2 ^ 52 = 0 := by omega
      rw [hdiv, hmod, hend, show shift + 2 - 1 = shift + 1 from rfl, Nat.pow_succ]
      ring
    · have hdiv : (shift * 2 ^ 52 + m) / 2 ^ 52 = shift + 1 := by omega
      have hmod : 2 ^ 52 + (shift * 2 ^ 52 + m) % 2 ^ 52 = m := by omega
      rw [hdiv, hmod, Nat.add_sub_cancel]

/-- Every step is a multiple of the spacing of its binade, which it starts or is
inside of. -/
theorem exists_binade (k : Nat) :
    ∃ shift m, k = shift * 2 ^ 52 + m ∧ (2 ^ 52 ≤ m ∨ shift = 0) ∧ m < 2 ^ 53 := by
  by_cases hsub : k < 2 ^ 52
  · exact ⟨0, k, by omega, .inr rfl, by omega⟩
  · exact ⟨k / 2 ^ 52 - 1, k - (k / 2 ^ 52 - 1) * 2 ^ 52, by omega, .inl (by omega), by omega⟩

theorem stepUnits_strictMono : StrictMono stepUnits := by
  apply strictMono_nat_of_lt_succ
  intro k
  obtain ⟨shift, m, rfl, hm, hm'⟩ := exists_binade k
  rw [Nat.add_assoc, stepUnits_binade shift hm (by omega),
    stepUnits_binade shift (by omega) (by omega)]
  exact Nat.mul_lt_mul_of_pos_right (Nat.lt_succ_self m) (Nat.two_pow_pos shift)

@[simp] theorem stepUnits_zero : stepUnits 0 = 0 := rfl

/-- Rounding within the binade of a quotient ends in the binade or at its end. -/
theorem roundHalfEven_binade (num : Nat) {den : Nat} (hden : 0 < den) :
    let shift := (num / den).log2 - 52
    roundHalfEven num (den * 2 ^ shift) ≤ 2 ^ 53 ∧
      (2 ^ 52 ≤ roundHalfEven num (den * 2 ^ shift) ∨ shift = 0) ∧
      num < 2 ^ 53 * (den * 2 ^ shift) ∧
      (2 ^ 52 * (den * 2 ^ shift) ≤ num ∨ shift = 0) := by
  intro shift
  have hpos : 0 < den * 2 ^ shift := Nat.mul_pos hden (Nat.two_pow_pos shift)
  have hhigh : num < 2 ^ 53 * (den * 2 ^ shift) := by
    have hlog : num / den < 2 ^ (53 + shift) := by
      apply Nat.lt_of_lt_of_le Nat.lt_log2_self
      exact Nat.pow_le_pow_right (by decide) (by omega)
    have hnum := (Nat.div_lt_iff_lt_mul hden).1 hlog
    rw [Nat.pow_add, Nat.mul_assoc, Nat.mul_comm (2 ^ shift)] at hnum
    exact hnum
  have hlow : 2 ^ 52 * (den * 2 ^ shift) ≤ num ∨ shift = 0 := by
    by_cases hzero : shift = 0
    · exact .inr hzero
    · have hquot : num / den ≠ 0 := by
        intro heq
        apply hzero
        simp [shift, heq]
      have hlog : 2 ^ (52 + shift) ≤ num / den :=
        Nat.le_trans (Nat.pow_le_pow_right (by decide) (by omega)) (Nat.log2_self_le hquot)
      have hnum := (Nat.le_div_iff_mul_le hden).1 hlog
      rw [Nat.pow_add, Nat.mul_assoc, Nat.mul_comm (2 ^ shift)] at hnum
      exact .inl hnum
  refine ⟨?_, ?_, hhigh, hlow⟩
  · rw [roundHalfEven_le_iff hpos]
    left
    omega
  · apply hlow.imp_left
    intro hlow
    apply Nat.le_of_not_lt
    intro hlt
    obtain ⟨m, hm⟩ : ∃ m, 2 ^ 52 = m + 1 := ⟨_, rfl⟩
    rw [hm] at hlow hlt
    have hle := (roundHalfEven_le_iff hpos m).1 (Nat.le_of_lt_succ hlt)
    have hmid : (2 * m + 1) * (den * 2 ^ shift) + den * 2 ^ shift =
        2 * ((m + 1) * (den * 2 ^ shift)) := by ring
    omega

theorem le_add_of_binade_le {shift k : Nat} (h : shift * 2 ^ 52 + 2 ^ 53 ≤ k) :
    2 * (2 ^ 53 * 2 ^ shift) ≤ stepUnits k + stepUnits (k + 1) := by
  have hend : stepUnits (shift * 2 ^ 52 + 2 ^ 53) = 2 ^ 53 * 2 ^ shift :=
    stepUnits_binade shift (.inl (by decide)) (Nat.le_refl _)
  have hk : 2 ^ 53 * 2 ^ shift ≤ stepUnits k := hend ▸ stepUnits_strictMono.monotone h
  have hk' : stepUnits k ≤ stepUnits (k + 1) := stepUnits_strictMono.monotone (by omega)
  omega

theorem add_lt_of_lt_binade {shift k : Nat} (h : k < shift * 2 ^ 52 + 2 ^ 52) :
    stepUnits k + stepUnits (k + 1) < 2 * (2 ^ 52 * 2 ^ shift) := by
  have hstart : stepUnits (shift * 2 ^ 52 + 2 ^ 52) = 2 ^ 52 * 2 ^ shift :=
    stepUnits_binade shift (.inl (Nat.le_refl _)) (by decide)
  have hk : stepUnits k < 2 ^ 52 * 2 ^ shift := hstart ▸ stepUnits_strictMono h
  have hk' : stepUnits (k + 1) ≤ 2 ^ 52 * 2 ^ shift := hstart ▸ stepUnits_strictMono.monotone h
  omega

theorem add_eq_of_binade (shift : Nat) {m : Nat} (hm : 2 ^ 52 ≤ m ∨ shift = 0) (hm' : m < 2 ^ 53) :
    stepUnits (shift * 2 ^ 52 + m) + stepUnits (shift * 2 ^ 52 + m + 1) =
      (2 * m + 1) * 2 ^ shift := by
  rw [Nat.add_assoc, stepUnits_binade shift hm (by omega),
    stepUnits_binade shift (by omega) (by omega)]
  ring

/-- The step nearest to a quotient is at most `k` unless the quotient passes the
midpoint between the steps `k` and `k + 1`, which belongs to the even one. -/
theorem nearestStep_le_iff {num den : Nat} (hden : 0 < den) (k : Nat) :
    nearestStep num den ≤ k ↔
      2 * num < (stepUnits k + stepUnits (k + 1)) * den ∨
        (2 * num = (stepUnits k + stepUnits (k + 1)) * den ∧ k % 2 = 0) := by
  obtain ⟨hround, hround', hhigh, hlow⟩ := roundHalfEven_binade num hden
  unfold nearestStep
  simp only [Nat.pow_eq]
  generalize (num / den).log2 - 52 = shift at *
  have hpos : 0 < den * 2 ^ shift := Nat.mul_pos hden (Nat.two_pow_pos shift)
  by_cases habove : shift * 2 ^ 52 + 2 ^ 53 ≤ k
  · have hsum : 2 * (2 ^ 53 * 2 ^ shift) * den ≤ (stepUnits k + stepUnits (k + 1)) * den :=
      Nat.mul_le_mul_right den (le_add_of_binade_le habove)
    constructor
    · intro _
      left
      calc 2 * num < 2 * (2 ^ 53 * (den * 2 ^ shift)) := by omega
        _ = 2 * (2 ^ 53 * 2 ^ shift) * den := by ring
        _ ≤ _ := hsum
    · intro _
      omega
  · by_cases hbelow : k < shift * 2 ^ 52 + 2 ^ 52 ∧ shift ≠ 0
    · obtain ⟨hbelow, hshift⟩ := hbelow
      have hsum : (stepUnits k + stepUnits (k + 1)) * den < 2 * (2 ^ 52 * 2 ^ shift) * den :=
        Nat.mul_lt_mul_of_pos_right (add_lt_of_lt_binade hbelow) hden
      have hnum : 2 * (2 ^ 52 * 2 ^ shift) * den ≤ 2 * num :=
        calc 2 * (2 ^ 52 * 2 ^ shift) * den = 2 * (2 ^ 52 * (den * 2 ^ shift)) := by ring
          _ ≤ 2 * num := Nat.mul_le_mul_left 2 (hlow.resolve_right hshift)
      have hround' := hround'.resolve_right hshift
      constructor <;> intro h <;> omega
    · obtain ⟨m, rfl⟩ : ∃ m, k = shift * 2 ^ 52 + m := ⟨k - shift * 2 ^ 52, by omega⟩
      have hsum : (stepUnits (shift * 2 ^ 52 + m) + stepUnits (shift * 2 ^ 52 + m + 1)) * den =
          (2 * m + 1) * (den * 2 ^ shift) := by
        rw [add_eq_of_binade shift (by omega) (by omega)]
        ring
      have hparity : (shift * 2 ^ 52 + m) % 2 = m % 2 := by omega
      rw [hsum, hparity, Nat.add_le_add_iff_left]
      exact roundHalfEven_le_iff hpos m

theorem nearestStep_le {num den k : Nat} (hden : 0 < den) (h : num ≤ stepUnits k * den) :
    nearestStep num den ≤ k := by
  rw [nearestStep_le_iff hden]
  left
  have hlt : stepUnits k < stepUnits (k + 1) := stepUnits_strictMono (Nat.lt_succ_self k)
  calc 2 * num ≤ 2 * (stepUnits k * den) := Nat.mul_le_mul_left 2 h
    _ = (stepUnits k + stepUnits k) * den := by ring
    _ < _ := Nat.mul_lt_mul_of_pos_right (Nat.add_lt_add_left hlt _) hden

theorem le_nearestStep {num den k : Nat} (hden : 0 < den) (h : stepUnits k * den ≤ num) :
    k ≤ nearestStep num den := by
  cases k with
  | zero => exact Nat.zero_le _
  | succ k =>
      apply Nat.lt_of_not_le
      rw [nearestStep_le_iff hden]
      have hlt : stepUnits k < stepUnits (k + 1) := stepUnits_strictMono (Nat.lt_succ_self k)
      have hsum : (stepUnits k + stepUnits (k + 1)) * den < 2 * num :=
        calc (stepUnits k + stepUnits (k + 1)) * den
            < (stepUnits (k + 1) + stepUnits (k + 1)) * den :=
              Nat.mul_lt_mul_of_pos_right (Nat.add_lt_add_right hlt _) hden
          _ = 2 * (stepUnits (k + 1) * den) := by ring
          _ ≤ 2 * num := Nat.mul_le_mul_left 2 h
      omega

/-- A quotient of less than half a unit is rounded to zero. -/
theorem nearestStep_eq_zero {num den : Nat} (h : 2 * num < den) : nearestStep num den = 0 := by
  have hle : nearestStep num den ≤ 0 := by
    rw [nearestStep_le_iff (by omega)]
    left
    have hunit : (stepUnits 0 + stepUnits (0 + 1)) * den = den := by
      rw [stepUnits_zero, show stepUnits (0 + 1) = 1 from rfl, Nat.zero_add, Nat.one_mul]
    rw [hunit]
    exact h
  omega

/-- A magnitude is its own nearest step. -/
theorem nearestStep_stepUnits_mul {den : Nat} (hden : 0 < den) (k : Nat) :
    nearestStep (stepUnits k * den) den = k :=
  Nat.le_antisymm (nearestStep_le hden (Nat.le_refl _)) (le_nearestStep hden (Nat.le_refl _))

end Binary64

end CycleComparison

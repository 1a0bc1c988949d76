import CycleComparison.Proofs.Json.Approximation

/-!
# Numerals that are read exactly

Whole numbers below `2 ^ 53` and the powers of ten up to `10 ^ 22` are binary64
numbers. If a numeral has such digits and such an exponent, its reading rounds
once, at the product or the quotient of the two, and gives the number nearest to
the value. So a number that is written with few digits is read back.
-/

namespace CycleComparison

namespace Binary64

theorem nearestStep_mul_right {num den c : Nat} (hden : 0 < den) (hc : 0 < c) :
    nearestStep (num * c) (den * c) = nearestStep num den := by
  apply eq_of_forall_ge_iff
  intro k
  rw [nearestStep_le_iff (Nat.mul_pos hden hc), nearestStep_le_iff hden, ← Nat.mul_assoc,
    ← Nat.mul_assoc, Nat.mul_lt_mul_right hc, Nat.mul_left_inj (Nat.ne_of_gt hc)]

theorem ofRatio_mul_right (negative : Bool) {num den c : Nat} (hden : 0 < den) (hc : 0 < c) :
    ofRatio negative (num * c) (den * c) = ofRatio negative num den := by
  simp only [ofRatio, nearestStep_mul_right hden hc]

theorem neg_ofRatio (num den : Nat) : -ofRatio false num den = ofRatio true num den := by
  unfold ofRatio
  split <;> rfl

/-- A number of at most 53 bits, followed by some zeros, is a magnitude. -/
theorem exists_stepUnits_eq_mul {n i : Nat} (hn : n < 2 ^ 53) (hi : i ≤ 900) :
    ∃ k < stepCount, stepUnits k = unitsPerOne * (n * 2 ^ i) := by
  by_cases hzero : n = 0
  · refine ⟨0, by decide, ?_⟩
    rw [hzero, Nat.zero_mul, Nat.mul_zero, stepUnits_zero]
  · have hlow := Nat.log2_self_le hzero
    have hhigh : n < 2 ^ (n.log2 + 1) := Nat.lt_log2_self
    have hlog : n.log2 < 53 := (Nat.log2_lt hzero).2 hn
    have hplaces : unitPlaces = 1074 := by rw [unitPlaces]
    have hsplit (j : Nat) : 2 ^ j * 2 ^ (52 - n.log2) = 2 ^ (j + (52 - n.log2)) :=
      (Nat.pow_add 2 j _).symm
    have hm : 2 ^ 52 ≤ n * 2 ^ (52 - n.log2) := by
      calc 2 ^ 52 = 2 ^ n.log2 * 2 ^ (52 - n.log2) := by
            rw [hsplit, Nat.add_sub_cancel' (by omega)]
        _ ≤ _ := Nat.mul_le_mul_right _ hlow
    have hm' : n * 2 ^ (52 - n.log2) < 2 ^ 53 := by
      calc n * 2 ^ (52 - n.log2) < 2 ^ (n.log2 + 1) * 2 ^ (52 - n.log2) :=
            Nat.mul_lt_mul_of_pos_right hhigh (Nat.two_pow_pos _)
        _ = 2 ^ 53 := by
            rw [hsplit, show n.log2 + 1 + (52 - n.log2) = 53 by omega]
    have hunits := stepUnits_binade (unitPlaces - (52 - n.log2) + i) (.inl hm) (Nat.le_of_lt hm')
    refine ⟨_, ?_, hunits.trans ?_⟩
    · rw [stepCount, Nat.pow_eq]
      omega
    · rw [unitsPerOne_eq, Nat.pow_add, ← Nat.mul_assoc, Nat.mul_assoc n, ← Nat.pow_add,
        Nat.add_sub_cancel' (by omega)]
      ring

theorem ofNat_of_stepUnits {n k : Nat} (hk : k < stepCount) (h : stepUnits k = unitsPerOne * n) :
    ofNat n = .finite false ⟨k, hk⟩ := by
  have hstep : stepOfNat n = k := by
    rw [stepOfNat, ← h]
    simpa using nearestStep_stepUnits_mul Nat.one_pos k
  rw [ofNat_of_lt (hstep ▸ hk)]
  simp only [hstep]

theorem exists_ofNat_eq {n : Nat} (h : n < 2 ^ 53) :
    ∃ k : Fin stepCount, ofNat n = .finite false k ∧ stepUnits k = unitsPerOne * n := by
  obtain ⟨k, hk, hunits⟩ := exists_stepUnits_eq_mul h (Nat.zero_le 900)
  rw [Nat.pow_zero, Nat.mul_one] at hunits
  exact ⟨⟨k, hk⟩, ofNat_of_stepUnits hk hunits, hunits⟩

theorem not_isZero_ofNat {n : Nat} (h : n < 2 ^ 53) (hn : n ≠ 0) : ¬ (ofNat n).isZero := by
  obtain ⟨k, hk, hunits⟩ := exists_ofNat_eq h
  have hne : stepUnits k ≠ 0 := by
    rw [hunits]
    exact Nat.mul_ne_zero (Nat.ne_of_gt unitsPerOne_pos) hn
  rw [hk, isZero, units?_finite]
  simpa [signedUnits] using hne

/-- The powers of ten up to `10 ^ 22` have at most 53 bits before their zeros. -/
theorem exists_powerOfTen_eq {n : Nat} (h : n ≤ 22) :
    ∃ k : Fin stepCount, powerOfTen n = .finite false k ∧ stepUnits k = unitsPerOne * 10 ^ n := by
  have hfive : 5 ^ n < 2 ^ 53 :=
    Nat.lt_of_le_of_lt (Nat.pow_le_pow_right (by decide) h) (by decide)
  obtain ⟨k, hk, hunits⟩ := exists_stepUnits_eq_mul (i := n) hfive (by omega)
  rw [← Nat.mul_pow] at hunits
  rw [powerOfTen_eq (by omega)]
  exact ⟨⟨k, hk⟩, ofNat_of_stepUnits hk hunits, hunits⟩

/-- A product of exact factors is rounded once. -/
theorem ofNat_mul_powerOfTen {significand n : Nat} (hs : significand < 2 ^ 53) (hn : n ≤ 22) :
    ofNat significand * powerOfTen n = ofRatio false (unitsPerOne * (10 ^ n * significand)) 1 := by
  obtain ⟨k, hk, hunits⟩ := exists_ofNat_eq hs
  obtain ⟨l, hl, hunits'⟩ := exists_powerOfTen_eq hn
  rw [hk, hl]
  change ofRatio (false != false) (stepUnits k * stepUnits l) unitsPerOne = _
  rw [hunits, hunits', Bool.bne_false, ← ofRatio_mul_right false Nat.one_pos unitsPerOne_pos,
    Nat.one_mul]
  congr 1
  ring

/-- A quotient of exact numbers is rounded once. -/
theorem ofNat_div_powerOfTen {significand n : Nat} (hs : significand < 2 ^ 53) (hn : n ≤ 22) :
    ofNat significand / powerOfTen n = ofRatio false (unitsPerOne * significand) (10 ^ n) := by
  obtain ⟨k, hk, hunits⟩ := exists_ofNat_eq hs
  obtain ⟨l, hl, hunits'⟩ := exists_powerOfTen_eq hn
  have hpos : 0 < 10 ^ n := Nat.pow_pos (by decide)
  have hne : (l : Nat) ≠ 0 := by
    intro hzero
    rw [hzero, stepUnits_zero] at hunits'
    exact absurd hunits'.symm (Nat.mul_ne_zero (Nat.ne_of_gt unitsPerOne_pos) (Nat.ne_of_gt hpos))
  rw [hk, hl]
  change div (.finite false k) (.finite false l) = _
  rw [div]
  simp only [if_neg hne]
  rw [hunits, hunits', Bool.bne_false, Nat.mul_comm unitsPerOne (10 ^ n),
    Nat.mul_comm unitsPerOne (unitsPerOne * significand),
    ofRatio_mul_right false hpos unitsPerOne_pos]

theorem mul_le_largestBelow {significand n : Nat} (hs : significand < 2 ^ 53) (hn : n ≤ 22) :
    significand * 10 ^ n ≤ largestBelow :=
  calc significand * 10 ^ n ≤ 2 ^ 53 * 10 ^ 22 :=
        Nat.mul_le_mul (Nat.le_of_lt hs) (ten_pow_le hn)
    _ ≤ largestBelow := by decide +kernel

/-- Scaling is exact up to one rounding for few digits and a small exponent. -/
theorem scale?_ofNat_eq {significand : Nat} {exponent : Int} (hs : significand < 2 ^ 53)
    (hlow : -22 ≤ exponent) (hhigh : exponent ≤ 22) :
    scale? (ofNat significand) exponent =
      some ((⟨significand, exponent⟩ : Decimal).nearest false) := by
  have hexp : (⟨significand, exponent⟩ : Decimal).exponent ≤ 400 := by
    simp only
    omega
  rw [Decimal.nearest_eq_ofRatio false hexp, Decimal.numerator_eq, Decimal.denominator_eq, scale?]
  simp only
  by_cases hneg : 0 ≤ exponent
  · have hproduct := ofNat_mul_powerOfTen hs (show exponent.toNat ≤ 22 by omega)
    have hfinite := isFinite_mul_powerOfTen (Nat.lt_trans hs (by decide))
      (show exponent.toNat ≤ 308 by omega) (mul_le_largestBelow hs (by omega))
    rw [if_pos hneg, Int.toNat_of_nonpos (show -exponent ≤ 0 by omega), Nat.pow_zero]
    by_cases hzero : significand = 0
    · subst hzero
      rw [if_pos isZero_ofNat_zero, Nat.mul_zero]
      rfl
    · rw [if_neg (not_isZero_ofNat hs hzero), if_pos (by omega), ← hproduct, if_pos hfinite]
  · rw [if_neg hneg, if_pos (by omega), ofNat_div_powerOfTen hs (by omega),
      Int.toNat_of_nonpos (show exponent ≤ 0 by omega), Nat.pow_zero, Nat.one_mul]

end Binary64

namespace Numeral

open Decimal Binary64

/-- Digits after the point are all taken if the value of all digits fits a word. -/
theorem takeFraction_of_lt {digits : List Char} {significand : Nat}
    (h : Nat.ofDigitChars 10 digits significand < UInt64.size) :
    takeFraction significand digits =
      (Nat.ofDigitChars 10 digits significand, digits.length) := by
  induction digits generalizing significand with
  | nil => rfl
  | cons digit rest ih =>
      rw [Nat.ofDigitChars_cons] at h ⊢
      rw [takeFraction, takeDigit?_eq_some_iff.2 ⟨rfl, lt_of_ofDigitChars_lt h⟩]
      simp only [ih h, List.length_cons]

/-- A numeral with few digits and a small exponent is read as the number nearest
to its value. -/
theorem approximate?_eq_nearest {n : Numeral} (hs : n.toDecimal.significand < 2 ^ 53)
    (hlow : -22 ≤ n.toDecimal.exponent) (hhigh : n.toDecimal.exponent ≤ 22) :
    n.approximate? = some n.nearest := by
  have hdigits : n.toDecimal.significand = Nat.ofDigitChars 10 n.fraction (valueOf n.whole) := by
    rw [toDecimal, valueOf, Nat.ofDigitChars_append]
    rfl
  have hword : Nat.ofDigitChars 10 n.fraction (valueOf n.whole) < UInt64.size := by
    rw [← hdigits]
    exact Nat.lt_trans hs (by decide)
  have hscale : scale? (ofNat (Nat.ofDigitChars 10 n.fraction (valueOf n.whole)))
      (n.exponent.getD 0 - n.fraction.length) = some (n.toDecimal.nearest false) := by
    rw [← hdigits]
    exact scale?_ofNat_eq hs hlow hhigh
  have hfraction := takeFraction_of_lt hword
  rw [valueOf] at hfraction hscale hword
  simp only [approximate?, takeWhole_of_lt (lt_of_ofDigitChars_lt hword), hfraction,
    Int.natCast_zero, Int.add_zero, hscale, Option.map_some, nearest,
    nearest_eq_ofRatio _ (show n.toDecimal.exponent ≤ 400 by omega)]
  cases n.negative with
  | false => rw [if_neg Bool.false_ne_true]
  | true => rw [if_pos rfl, neg_ofRatio]

end Numeral

namespace Decimal

open Binary64

/-- A zero after the point does not change the nearest step. -/
theorem step_append_zero (whole : List Char) :
    step ⟨valueOf (whole ++ ['0']), -1⟩ = step ⟨valueOf whole, 0⟩ := by
  have hvalue : valueOf (whole ++ ['0']) = valueOf whole * 10 := valueOf_append_zeros whole 1
  have hscale : nearestStep (unitsPerOne * valueOf whole * 10) (1 * 10) =
      nearestStep (unitsPerOne * valueOf whole) 1 :=
    nearestStep_mul_right Nat.one_pos (by decide)
  simp only [step, numerator_eq, denominator_eq, hvalue]
  simpa [Nat.mul_assoc] using hscale

theorem step_toDecimal_toJsonNumeral (negative : Bool) (d : Decimal) :
    (d.toJsonNumeral negative).toDecimal.step = d.step := by
  unfold toJsonNumeral
  simp only
  split
  · rw [← step_toDecimal_positional negative d]
    by_cases hnil : (d.positional negative).fraction = []
    · have hexponent := (isPlain_positional negative d).exponent
      simp only [Numeral.toDecimal, hnil, hexponent, List.append_nil]
      exact step_append_zero _
    · rw [if_neg hnil]
  · rw [toDecimal_scientific]

theorem negative_toJsonNumeral (negative : Bool) (d : Decimal) :
    (d.toJsonNumeral negative).negative = negative := by
  unfold toJsonNumeral
  simp only
  split
  · exact negative_positional negative d
  · rfl

end Decimal

namespace Binary64

/-- A number that is written with few digits and a small exponent. -/
def IsShort : Binary64 → Prop
  | .finite negative step =>
      let written := ((Decimal.shortest .toEven step).toJsonNumeral negative).toDecimal
      written.significand < 2 ^ 53 ∧ -22 ≤ written.exponent ∧ written.exponent ≤ 22
  | _ => False

theorem isFinite_of_isShort {x : Binary64} (h : x.IsShort) : x.isFinite := by
  cases x with
  | nan => cases h
  | infinite negative => cases h
  | finite negative step => rfl

/-- A short number is read back from its JSON document. -/
theorem binary64?_toJson_of_isShort {x : Binary64} (h : x.IsShort) :
    x.toJson.binary64? = some x := by
  cases x with
  | nan => cases h
  | infinite negative => cases h
  | finite negative step =>
      obtain ⟨hs, hlow, hhigh⟩ := h
      have hstep := Decimal.step_toDecimal_toJsonNumeral negative (.shortest .toEven step)
      rw [Decimal.step_shortest] at hstep
      rw [toJson, Json.binary64?, Numeral.approximate?_eq_nearest hs hlow hhigh, Numeral.nearest,
        Decimal.negative_toJsonNumeral, Decimal.nearest_eq_ofRatio negative (by omega)]
      exact congrArg some (ofRatio_of_nearestStep hstep)

end Binary64

end CycleComparison

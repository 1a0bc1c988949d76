import CycleComparison.Proofs.Binary64.Operations
import CycleComparison.Proofs.Json.Number

/-!
# Written numbers are accepted

A numeral is read in two roundings of its digits and of a power of ten and a
third one of their product, so it may be read as a neighbour of its value, and a
value near the greatest finite number could be read as an infinity, which is
refused. No number is written so that this happens: below the greatest number
the product is monotone in both factors, and its largest values are finite.
-/

namespace CycleComparison

namespace Binary64

/-- Rounding is monotone. -/
theorem nearestStep_mono {num num' den : Nat} (hden : 0 < den) (h : num ≤ num') :
    nearestStep num den ≤ nearestStep num' den := by
  rw [nearestStep_le_iff hden]
  have hself := (nearestStep_le_iff hden _).1 (Nat.le_refl (nearestStep num' den))
  omega

/-- The step of a natural number, which may be too large for a finite number. -/
def stepOfNat (n : Nat) : Nat := nearestStep (unitsPerOne * n) 1

theorem stepOfNat_mono {m n : Nat} (h : m ≤ n) : stepOfNat m ≤ stepOfNat n :=
  nearestStep_mono (by decide) (Nat.mul_le_mul_left unitsPerOne h)

theorem isFinite_ofRatio_iff {negative : Bool} {num den : Nat} :
    (ofRatio negative num den).isFinite ↔ nearestStep num den < stepCount := by
  rw [isFinite, units?_ofRatio]
  by_cases h : nearestStep num den < stepCount
  · rw [if_pos h]
    exact ⟨fun _ => h, fun _ => rfl⟩
  · rw [if_neg h]
    exact ⟨nofun, fun hlt => absurd hlt h⟩

theorem not_isFinite_infinite_mul (negative : Bool) (y : Binary64) :
    (mul (.infinite negative) y).isFinite = false := by
  cases y with
  | nan => rfl
  | infinite n => rfl
  | finite n step =>
      simp only [mul]
      split <;> rfl

theorem not_isFinite_mul_infinite (x : Binary64) (negative : Bool) :
    (mul x (.infinite negative)).isFinite = false := by
  cases x with
  | nan => rfl
  | infinite n => rfl
  | finite n step =>
      simp only [mul]
      split <;> rfl

theorem ofNat_of_lt {n : Nat} (h : stepOfNat n < stepCount) :
    ofNat n = .finite false ⟨stepOfNat n, h⟩ := dif_pos h

theorem ofNat_of_not_lt {n : Nat} (h : ¬ stepOfNat n < stepCount) : ofNat n = .infinite false :=
  dif_neg h

/-- When a product of two natural numbers does not overflow. -/
theorem isFinite_mul_ofNat_iff {m n : Nat} :
    (ofNat m * ofNat n).isFinite ↔
      stepOfNat m < stepCount ∧ stepOfNat n < stepCount ∧
        nearestStep (stepUnits (stepOfNat m) * stepUnits (stepOfNat n)) unitsPerOne <
          stepCount := by
  change (mul (ofNat m) (ofNat n)).isFinite ↔ _
  by_cases hm : stepOfNat m < stepCount
  · by_cases hn : stepOfNat n < stepCount
    · rw [ofNat_of_lt hm, ofNat_of_lt hn, mul, isFinite_ofRatio_iff]
      simp only [hm, hn, true_and]
    · rw [ofNat_of_not_lt hn, not_isFinite_mul_infinite]
      simp only [hn, false_and, and_false, Bool.false_eq_true]
  · rw [ofNat_of_not_lt hm, not_isFinite_infinite_mul]
    simp only [hm, false_and, Bool.false_eq_true]

theorem isFinite_mul_ofNat_of_le {m m' n n' : Nat} (hm : m ≤ m') (hn : n ≤ n')
    (h : (ofNat m' * ofNat n').isFinite) : (ofNat m * ofNat n).isFinite := by
  rw [isFinite_mul_ofNat_iff] at h ⊢
  obtain ⟨hm', hn', hproduct⟩ := h
  have hmStep := stepOfNat_mono hm
  have hnStep := stepOfNat_mono hn
  refine ⟨Nat.lt_of_le_of_lt hmStep hm', Nat.lt_of_le_of_lt hnStep hn', ?_⟩
  refine Nat.lt_of_le_of_lt (nearestStep_mono unitsPerOne_pos ?_) hproduct
  exact Nat.mul_le_mul (stepUnits_le hmStep) (stepUnits_le hnStep)

theorem ten_pow_le {m n : Nat} (h : m ≤ n) : 10 ^ m ≤ 10 ^ n :=
  Nat.pow_le_pow_right (by decide) h

theorem powerOfTen_eq {n : Nat} (h : n ≤ 400) : powerOfTen n = ofNat (10 ^ n) := by
  have hexp : (⟨1, n⟩ : Decimal).exponent ≤ 400 := by
    simp only
    omega
  rw [powerOfTen, Decimal.nearest_eq_ofRatio false hexp, Decimal.numerator_eq,
    Decimal.denominator_eq]
  simp [ofNat]

/-- The greatest whole number that is rounded to less than the greatest finite
number. -/
def largestBelow : Nat :=
  (stepUnits (stepCount - 2) + stepUnits (stepCount - 1)) / (2 * unitsPerOne)

theorem largestBelow_lt : largestBelow < 10 ^ 309 := by decide +kernel

theorem isFinite_word_mul : (ofNat (UInt64.size - 1) * ofNat (10 ^ 288)).isFinite := by
  decide +kernel

theorem isFinite_largestBelow_mul :
    ∀ n < 20, (ofNat (largestBelow / 10 ^ (289 + n)) * ofNat (10 ^ (289 + n))).isFinite := by
  decide +kernel

/-- The product of a word and a power of ten is finite if its exact value is
rounded to less than the greatest finite number. -/
theorem isFinite_mul_powerOfTen {significand n : Nat} (hword : significand < UInt64.size)
    (hn : n ≤ 308) (h : significand * 10 ^ n ≤ largestBelow) :
    (ofNat significand * powerOfTen n).isFinite := by
  rw [powerOfTen_eq (by omega)]
  by_cases hsmall : n ≤ 288
  -- up to `10 ^ 288` any word will do, and the greatest product is finite
  · have hpow := ten_pow_le hsmall
    exact isFinite_mul_ofNat_of_le (Nat.le_sub_one_of_lt hword) hpow isFinite_word_mul
  -- above, the greatest significand is checked for each of the twenty powers
  · have hle : significand ≤ largestBelow / 10 ^ n :=
      (Nat.le_div_iff_mul_le (Nat.pow_pos (by decide))).2 h
    have hfinite := isFinite_largestBelow_mul (n - 289) (by omega)
    rw [Nat.add_sub_cancel' (by omega)] at hfinite
    exact isFinite_mul_ofNat_of_le hle (Nat.le_refl _) hfinite

theorem isZero_ofNat_zero : (ofNat 0).isZero := by decide +kernel

/-- Scaling a word succeeds if the exact value is rounded to less than the
greatest finite number. -/
theorem isSome_scale?_ofNat {significand : Nat} {exponent : Int}
    (hword : significand < UInt64.size)
    (h : significand * 10 ^ exponent.toNat ≤ largestBelow) :
    (scale? (ofNat significand) exponent).isSome := by
  unfold scale?
  by_cases hneg : 0 ≤ exponent
  · rw [if_pos hneg]
    by_cases hzero : (ofNat significand).isZero
    · rw [if_pos hzero]
      rfl
    · have hpos : 1 ≤ significand := by
        apply Nat.pos_of_ne_zero
        rintro rfl
        exact hzero isZero_ofNat_zero
      have hexponent : exponent.toNat ≤ 308 := by
        by_contra hlarge
        have hlarge : 309 ≤ exponent.toNat := by omega
        have hle := Nat.le_trans (ten_pow_le hlarge) (Nat.le_mul_of_pos_left _ hpos)
        exact absurd (Nat.le_trans hle h) (Nat.not_le.2 largestBelow_lt)
      have hfinite := isFinite_mul_powerOfTen hword hexponent h
      rw [if_neg hzero, if_pos (by omega)]
      simp [hfinite]
  · rw [if_neg hneg]
    split
    · rfl
    · split <;> rfl

end Binary64

namespace Numeral

open Decimal Binary64

theorem le_ofDigitChars (digits : List Char) (init : Nat) :
    init * 10 ^ digits.length ≤ Nat.ofDigitChars 10 digits init := by
  rw [Nat.ofDigitChars_eq_ofDigitChars_zero, Nat.mul_comm]
  exact Nat.le_add_right _ _

theorem takeDigit?_eq_some_iff {significand next : Nat} {digit : Char} :
    takeDigit? significand digit = some next ↔
      next = 10 * significand + (digit.toNat - '0'.toNat) ∧ next < UInt64.size := by
  unfold takeDigit?
  rw [Nat.mul_comm 10]
  simp only [Option.ite_none_right_eq_some, Option.some.injEq]
  constructor
  · rintro ⟨hlt, rfl⟩
    exact ⟨rfl, hlt⟩
  · rintro ⟨rfl, hlt⟩
    exact ⟨hlt, rfl⟩

theorem lt_of_ofDigitChars_lt {digits : List Char} {init bound : Nat}
    (h : Nat.ofDigitChars 10 digits init < bound) : init < bound := by
  have hone : 1 ≤ 10 ^ digits.length := Nat.pow_pos (by decide)
  have hle := Nat.le_trans (Nat.le_mul_of_pos_right init hone) (le_ofDigitChars digits init)
  exact Nat.lt_of_le_of_lt hle h

/-- Digits before the point are all taken if their value fits a word. -/
theorem takeWhole_of_lt {digits : List Char} {significand : Nat}
    (h : Nat.ofDigitChars 10 digits significand < UInt64.size) :
    takeWhole significand digits = (Nat.ofDigitChars 10 digits significand, 0) := by
  induction digits generalizing significand with
  | nil => rfl
  | cons digit rest ih =>
      rw [Nat.ofDigitChars_cons] at h ⊢
      rw [takeWhole, takeDigit?_eq_some_iff.2 ⟨rfl, lt_of_ofDigitChars_lt h⟩]
      exact ih h

/-- Leaving out digits after the point does not increase the value. -/
theorem takeFraction_spec {digits : List Char} {significand taken count : Nat}
    (h : takeFraction significand digits = (taken, count)) (hword : significand < UInt64.size) :
    count ≤ digits.length ∧ taken < UInt64.size ∧
      taken * 10 ^ (digits.length - count) ≤ Nat.ofDigitChars 10 digits significand := by
  induction digits generalizing significand taken count with
  | nil =>
      cases h
      exact ⟨Nat.le_refl _, hword, Nat.le_of_eq (Nat.mul_one _)⟩
  | cons digit rest ih =>
      rw [takeFraction] at h
      cases hdigit : takeDigit? significand digit with
      | none =>
          rw [hdigit] at h
          cases h
          exact ⟨Nat.zero_le _, hword, le_ofDigitChars _ _⟩
      | some next =>
          rw [hdigit] at h
          cases h
          obtain ⟨hvalue, hnext⟩ := takeDigit?_eq_some_iff.1 hdigit
          obtain ⟨hcount, htaken, hle⟩ := ih rfl hnext
          rw [Nat.ofDigitChars_cons, ← hvalue, List.length_cons, Nat.succ_sub_succ]
          exact ⟨Nat.succ_le_succ hcount, htaken, hle⟩

/-- What a decimal that is rounded to less than the greatest finite number is at
least, is at most the greatest such whole number. -/
theorem le_largestBelow {d : Decimal} {n : Nat} (h : d.step ≤ stepCount - 2)
    (hle : n * d.denominator ≤ 10 ^ d.exponent.toNat * d.significand) : n ≤ largestBelow := by
  have hden : 0 < d.denominator := Nat.pow_pos (by decide)
  have hmid := (nearestStep_le_iff hden _).1 h
  rw [show stepCount - 2 + 1 = stepCount - 1 from rfl, numerator_eq] at hmid
  rw [largestBelow, Nat.le_div_iff_mul_le (Nat.mul_pos (by decide) unitsPerOne_pos)]
  apply Nat.le_of_mul_le_mul_right _ hden
  calc n * (2 * unitsPerOne) * d.denominator
      = 2 * (unitsPerOne * (n * d.denominator)) := by ring
    _ ≤ 2 * (unitsPerOne * (10 ^ d.exponent.toNat * d.significand)) :=
        Nat.mul_le_mul_left 2 (Nat.mul_le_mul_left unitsPerOne hle)
    _ ≤ _ := by omega

theorem word_le_largestBelow : UInt64.size ≤ largestBelow := by decide +kernel

/-- A numeral whose digits before the point fit a word is read as some number if
it has no positive exponent, or if its value is rounded to less than the greatest
finite number. -/
theorem isSome_approximate? {n : Numeral} (hwhole : valueOf n.whole < UInt64.size)
    (h : n.exponent.getD 0 ≤ 0 ∨ n.toDecimal.step ≤ stepCount - 2) : n.approximate?.isSome := by
  obtain ⟨taken, count, hfraction⟩ :
      ∃ taken count, takeFraction (valueOf n.whole) n.fraction = (taken, count) := ⟨_, _, rfl⟩
  obtain ⟨hcount, hword, hle⟩ := takeFraction_spec hfraction hwhole
  have hscale : (scale? (.ofNat taken) (n.exponent.getD 0 - count)).isSome := by
    apply isSome_scale?_ofNat hword
    by_cases hneg : n.exponent.getD 0 - count ≤ 0
    · rw [Int.toNat_of_nonpos hneg, Nat.pow_zero, Nat.mul_one]
      exact Nat.le_trans (Nat.le_of_lt hword) word_le_largestBelow
    · apply le_largestBelow (h.resolve_left (by omega))
      have hexp : (n.exponent.getD 0 - count).toNat + (-n.toDecimal.exponent).toNat =
          n.fraction.length - count + n.toDecimal.exponent.toNat := by
        have hplaces : n.toDecimal.exponent = n.exponent.getD 0 - n.fraction.length := rfl
        omega
      have hsignificand : n.toDecimal.significand =
          Nat.ofDigitChars 10 n.fraction (valueOf n.whole) := by
        rw [toDecimal, valueOf, Nat.ofDigitChars_append]
        rfl
      rw [denominator_eq, Nat.mul_assoc, ← Nat.pow_add, hexp, Nat.pow_add, ← Nat.mul_assoc,
        Nat.mul_comm, hsignificand]
      exact Nat.mul_le_mul_left _ hle
  rw [valueOf] at hfraction hwhole
  simp only [approximate?, takeWhole_of_lt hwhole, hfraction, Option.isSome_map,
    Int.natCast_zero, Int.add_zero]
  exact hscale

end Numeral

namespace Decimal

open Binary64

theorem ofDigitChars_lt {digits : List Char} (h : ∀ c ∈ digits, c.isDigit) (init : Nat) :
    Nat.ofDigitChars 10 digits init < (init + 1) * 10 ^ digits.length := by
  induction digits generalizing init with
  | nil => simp
  | cons c rest ih =>
      obtain ⟨hc, hrest⟩ := List.forall_mem_cons.1 h
      have hdigit : c.toNat - '0'.toNat + 1 ≤ 10 := by
        have hle := (Char.isDigit_iff_toNat.1 hc).2
        rw [show '9'.toNat = 57 from rfl] at hle
        rw [show '0'.toNat = 48 from rfl]
        omega
      rw [Nat.ofDigitChars_cons, List.length_cons, Nat.pow_succ]
      calc Nat.ofDigitChars 10 rest (10 * init + (c.toNat - '0'.toNat))
          < (10 * init + (c.toNat - '0'.toNat) + 1) * 10 ^ rest.length := ih hrest _
        _ ≤ (10 * (init + 1)) * 10 ^ rest.length := Nat.mul_le_mul_right _ (by omega)
        _ = (init + 1) * (10 ^ rest.length * 10) := by ring

/-- The digits before the point of a number that is not in scientific notation
fit a word. -/
theorem valueOf_lt_size {digits : List Char} (h : ∀ c ∈ digits, c.isDigit)
    (hlength : digits.length ≤ 16) : valueOf digits < UInt64.size :=
  calc valueOf digits < (0 + 1) * 10 ^ digits.length := ofDigitChars_lt h 0
    _ ≤ (0 + 1) * 10 ^ 16 := Nat.mul_le_mul_left _ (ten_pow_le hlength)
    _ < UInt64.size := by decide

theorem length_whole_positional (negative : Bool) (d : Decimal)
    (h : d.exponent + ((digitsOf d.significand).length - 1 : Nat) ≤ 15) :
    (d.positional negative).whole.length ≤ 16 := by
  unfold positional
  simp only
  split
  · simp only [List.length_append, List.length_replicate]
    omega
  · split
    · simp only [List.length_take]
      omega
    · exact Nat.le_add_left 1 15

/-- A decimal in scientific notation keeps its digits and its place. -/
theorem toDecimal_scientific (negative : Bool) (d : Decimal) :
    Numeral.toDecimal
      { negative, whole := (digitsOf d.significand).take 1,
        fraction := (digitsOf d.significand).drop 1,
        exponent := some (d.exponent + ((digitsOf d.significand).length - 1 : Nat)) } = d := by
  rw [Numeral.toDecimal]
  simp only [List.take_append_drop, valueOf_digitsOf, List.length_drop, Option.getD_some,
    Int.add_sub_cancel]

theorem isSome_approximate?_toJsonNumeral {d : Decimal} (negative : Bool)
    (h : d.step ≤ stepCount - 2) : (d.toJsonNumeral negative).approximate?.isSome := by
  have hdigits := isRun_digitsOf d.significand
  unfold toJsonNumeral
  simp only
  split
  · rename_i hexponent
    have hplain := isPlain_positional negative d
    apply Numeral.isSome_approximate?
    · exact valueOf_lt_size hplain.whole.2 (length_whole_positional negative d hexponent.2)
    · left
      rw [hplain.exponent]
      exact Int.le_refl 0
  · apply Numeral.isSome_approximate?
    · apply valueOf_lt_size fun c hc => hdigits.2 c (List.mem_of_mem_take hc)
      rw [List.length_take]
      omega
    · right
      rwa [toDecimal_scientific]

end Decimal

namespace Binary64

theorem isSome_binary64?_greatest : ∀ negative,
    (Binary64.finite negative ⟨stepCount - 1, by decide⟩).toJson.binary64?.isSome := by
  decide +kernel

/-- Every finite number is read as some number from its JSON document. -/
theorem isSome_binary64?_toJson {x : Binary64} (h : x.isFinite) : x.toJson.binary64?.isSome := by
  cases x with
  | nan => cases h
  | infinite negative => cases h
  | finite negative step =>
      by_cases hgreatest : step = ⟨stepCount - 1, by decide⟩
      · rw [hgreatest]
        exact isSome_binary64?_greatest negative
      · apply Decimal.isSome_approximate?_toJsonNumeral
        rw [Decimal.step_shortest]
        have hne : step.val ≠ stepCount - 1 := fun heq => hgreatest (Fin.ext heq)
        omega

end Binary64

end CycleComparison

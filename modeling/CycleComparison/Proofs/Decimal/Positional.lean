import CycleComparison.Decimal.Layout
import CycleComparison.Proofs.Decimal.Literal
import CycleComparison.Proofs.Decimal.ReadBack

/-!
# Positional texts read back

A numeral without an exponent is read from its characters, and the positional
numeral of a decimal has the value of the decimal. Hence every finite number is
read from its positional text, a zero with its sign.
-/

namespace CycleComparison

namespace Numeral

open Decimal

/-- The digits on both sides of the point, and no exponent. -/
structure IsPlain (n : Numeral) : Prop where
  whole : IsRun n.whole
  fraction : ∀ c ∈ n.fraction, c.isDigit
  exponent : n.exponent = none

/-- The characters of a plain numeral are a literal. -/
theorem spells_chars {n : Numeral} (h : n.IsPlain) : n.Spells n.chars := by
  obtain ⟨negative, whole, fraction, exponent⟩ := n
  obtain ⟨hwhole, hfraction, rfl⟩ := h
  refine ⟨_, whole ++ (if fraction = [] then [] else '.' :: fraction), [], ?_, rfl, ?_, .absent⟩
  · rw [chars, exponentText, List.append_assoc (if negative then ['-'] else [])]
    cases negative
    · exact .bare _
    · exact .minus _
  · by_cases hnil : fraction = []
    · rw [if_pos hnil, hnil, List.append_nil]
      exact .bare hwhole
    · rw [if_neg hnil]
      exact .point hwhole.2 hfraction fun h => hwhole.1 h.1

/-- A plain numeral is read from its characters. -/
theorem ofText?_chars {n : Numeral} (h : n.IsPlain) : ofText? n.chars = some n :=
  ofText?_eq_some_iff.2 (spells_chars h)

/-- The characters of a plain numeral are digits, a sign and a point. -/
theorem mem_chars {n : Numeral} (h : n.IsPlain) {c : Char} (hc : c ∈ n.chars) :
    c.isDigit ∨ c = '-' ∨ c = '.' := by
  unfold chars at hc
  rw [h.exponent] at hc
  simp only [exponentText, List.append_nil, List.mem_append] at hc
  obtain (hc | hc) | hc := hc
  · split at hc
    · exact .inr (.inl (List.mem_singleton.1 hc))
    · cases hc
  · exact .inl (h.whole.2 c hc)
  · split at hc
    · cases hc
    · rcases List.mem_cons.1 hc with rfl | hc
      · exact .inr (.inr rfl)
      · exact .inl (h.fraction c hc)

end Numeral

namespace Decimal

open Binary64

theorem isDigit_of_mem_zeros {n : Nat} {c : Char} (h : c ∈ List.replicate n '0') : c.isDigit := by
  rw [List.eq_of_mem_replicate h]
  decide

theorem IsRun.append {digits more : List Char} (h : IsRun digits)
    (hmore : ∀ c ∈ more, c.isDigit) : IsRun (digits ++ more) := by
  refine ⟨List.append_ne_nil_of_left_ne_nil h.1 more, ?_⟩
  intro c hc
  rcases List.mem_append.1 hc with hc | hc
  · exact h.2 c hc
  · exact hmore c hc

theorem isPlain_positional (negative : Bool) (d : Decimal) : (d.positional negative).IsPlain := by
  have hdigits := isRun_digitsOf d.significand
  unfold positional
  simp only
  split
  · constructor
    · exact hdigits.append fun _ => isDigit_of_mem_zeros
    · exact List.forall_mem_nil _
    · rfl
  · split
    · constructor
      · refine ⟨?_, fun c hc => hdigits.2 c (List.mem_of_mem_take hc)⟩
        intro hnil
        have hlength := congrArg List.length hnil
        rw [List.length_take, List.length_nil] at hlength
        omega
      · exact fun c hc => hdigits.2 c (List.mem_of_mem_drop hc)
      · rfl
    · constructor
      · exact ⟨List.cons_ne_nil _ _, fun c hc => by rw [List.mem_singleton.1 hc]; decide⟩
      · intro c hc
        rcases List.mem_append.1 hc with hc | hc
        · exact isDigit_of_mem_zeros hc
        · exact hdigits.2 c hc
      · rfl

theorem negative_positional (negative : Bool) (d : Decimal) :
    (d.positional negative).negative = negative := by
  unfold positional
  simp only
  split
  · rfl
  · split <;> rfl

theorem valueOf_append_zeros (digits : List Char) (n : Nat) :
    valueOf (digits ++ List.replicate n '0') = valueOf digits * 10 ^ n := by
  unfold valueOf
  rw [Nat.ofDigitChars_append, Nat.ofDigitChars_replicate_zero, Nat.mul_comm]

theorem valueOf_zeros_append (n : Nat) (digits : List Char) :
    valueOf (List.replicate n '0' ++ digits) = valueOf digits := by
  unfold valueOf
  rw [Nat.ofDigitChars_append, Nat.ofDigitChars_replicate_zero, Nat.mul_zero]

/-- A decimal written out has the trailing zeros of a positive exponent among its
digits. -/
theorem toDecimal_positional (negative : Bool) (d : Decimal) :
    (d.positional negative).toDecimal =
      ⟨d.significand * 10 ^ d.exponent.toNat, -((-d.exponent).toNat : Int)⟩ := by
  unfold positional Numeral.toDecimal
  simp only
  split
  · rename_i hplaces
    simp only [List.append_nil, valueOf_append_zeros, valueOf_digitsOf, hplaces]
    rfl
  · rename_i hplaces
    have hexp : d.exponent.toNat = 0 := by omega
    rw [hexp, Nat.pow_zero, Nat.mul_one]
    split
    · rename_i hinside
      simp only [List.take_append_drop, valueOf_digitsOf, List.length_drop]
      congr 1
      simp only [Option.getD_none]
      omega
    · rename_i hbeyond
      have hvalue : valueOf (['0'] ++ (List.replicate ((-d.exponent).toNat -
          (digitsOf d.significand).length) '0' ++ digitsOf d.significand)) = d.significand := by
        rw [← List.append_assoc, show ['0'] = List.replicate 1 '0' from rfl,
          List.replicate_append_replicate, valueOf_zeros_append, valueOf_digitsOf]
      simp only [hvalue, List.length_append, List.length_replicate]
      congr 1
      simp only [Option.getD_none]
      omega

theorem step_toDecimal_positional (negative : Bool) (d : Decimal) :
    (d.positional negative).toDecimal.step = d.step := by
  rw [toDecimal_positional]
  unfold Decimal.step
  simp only [numerator_eq, denominator_eq, Int.neg_neg, Int.toNat_natCast,
    Int.toNat_neg_natCast, Nat.pow_zero, Nat.one_mul, Nat.mul_comm d.significand]

end Decimal

namespace Binary64

open Decimal

theorem ofText?_of_numeral {text : List Char} {n : Numeral} (h : Numeral.ofText? text = some n) :
    ofText? text = some n.nearest := by
  unfold ofText?
  rw [h]

theorem ofRatio_of_nearestStep {num den : Nat} {negative : Bool} {step : Fin stepCount}
    (h : nearestStep num den = step) : ofRatio negative num den = .finite negative step := by
  unfold ofRatio
  simp only [h, step.isLt, dif_pos, Fin.eta]

theorem positional_finite (negative : Bool) (step : Fin stepCount) :
    (Binary64.finite negative step).positional.toList =
      ((shortest .up step).positional negative).chars := by
  rw [positional, Numeral.text, String.toList_ofList]

theorem nearest_positional (negative : Bool) (step : Fin stepCount) :
    ((shortest .up step).positional negative).nearest = .finite negative step := by
  have hstep := step_toDecimal_positional negative (shortest .up step)
  have hexp : ((shortest .up step).positional negative).toDecimal.exponent ≤ 400 := by
    rw [toDecimal_positional]
    simp only
    omega
  rw [step_shortest] at hstep
  rw [Numeral.nearest, negative_positional, nearest_eq_ofRatio negative hexp]
  exact ofRatio_of_nearestStep hstep

/-- A finite number is read from its positional text. -/
theorem ofText?_positional {x : Binary64} (h : x.isFinite) :
    ofText? x.positional.toList = some x := by
  cases x with
  | nan => cases h
  | infinite negative => cases h
  | finite negative step =>
      have hplain := isPlain_positional negative (shortest .up step)
      rw [positional_finite, ofText?_of_numeral (Numeral.ofText?_chars hplain),
        nearest_positional]

/-- The positional text of a finite number consists of digits, a sign and a
point. -/
theorem mem_positional {x : Binary64} (h : x.isFinite) {c : Char}
    (hc : c ∈ x.positional.toList) : c.isDigit ∨ c = '-' ∨ c = '.' := by
  cases x with
  | nan => cases h
  | infinite negative => cases h
  | finite negative step =>
      rw [positional_finite] at hc
      exact Numeral.mem_chars (isPlain_positional negative _) hc

end Binary64

end CycleComparison

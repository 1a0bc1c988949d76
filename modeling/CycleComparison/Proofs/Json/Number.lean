import CycleComparison.Json.Number
import CycleComparison.Proofs.Decimal.Positional
import CycleComparison.Proofs.Json.RoundTrip
import Mathlib.Data.List.Basic

/-!
# Written numbers

Whole numbers and finite binary64 numbers are written as numerals that JSON
accepts, and whole numbers are read from them. The digits of a number start with
a zero only if they are that zero.
-/

namespace CycleComparison

namespace Decimal

/-- There are no leading zeros. -/
theorem digitsOf_of_head? {n : Nat} (h : (digitsOf n).head? = some '0') : digitsOf n = ['0'] := by
  by_cases hn : n < 10
  · have hdigit : digitsOf n = [Nat.digitChar n] := Nat.toDigits_of_lt_base hn
    rw [hdigit, List.head?_cons] at h
    rw [hdigit, Option.some.inj h]
  · have hsplit : digitsOf n = digitsOf (n / 10) ++ [Nat.digitChar (n % 10)] :=
      Nat.toDigits_of_base_le (by decide) (Nat.le_of_not_lt hn)
    rw [hsplit, List.head?_append_of_ne_nil _ (isRun_digitsOf _).1] at h
    have hzero := congrArg valueOf (digitsOf_of_head? h)
    rw [valueOf_digitsOf] at hzero
    change n / 10 = 0 at hzero
    omega
termination_by n
decreasing_by omega

theorem significand_eq_zero_of_head? {n : Nat} (h : (digitsOf n).head? = some '0') : n = 0 := by
  rw [← valueOf_digitsOf n, digitsOf_of_head? h]
  rfl

end Decimal

namespace Json

open Decimal

theorem isJson_integerNumeral (n : Int) : (integerNumeral n).IsJson :=
  ⟨isRun_digitsOf _, digitsOf_of_head?, nofun⟩

theorem int?_number_integerNumeral (n : Int) : (number (integerNumeral n)).int? = some n := by
  have hsign : ¬ (decide (n < 0) = true ∧ n.natAbs = 0) := by
    rintro ⟨hneg, hzero⟩
    exact absurd (of_decide_eq_true hneg) (by omega)
  simp only [int?, integerNumeral, valueOf_digitsOf, true_and, if_pos hsign]
  by_cases hn : n < 0
  · rw [decide_eq_true hn, if_pos rfl, Int.ofNat_natAbs_of_nonpos (Int.le_of_lt hn), Int.neg_neg]
  · rw [decide_eq_false hn, if_neg Bool.false_ne_true,
      Int.natAbs_of_nonneg (Int.not_lt.1 hn)]

theorem uint64?_ofNat (n : Nat) : (ofNat n).uint64? = uint64OfNat? n := by
  have hnonneg : ¬ (n : Int) < 0 := by omega
  simp [uint64?, ofNat, int?_number_integerNumeral, hnonneg]

theorem uint64?_ofNat_toNat (w : UInt64) : (ofNat w.toNat).uint64? = some w := by
  rw [uint64?_ofNat, uint64OfNat?_toNat]

theorem count?_ofNat {n : Nat} (h : n < UInt64.size) : (ofNat n).count? = some n := by
  rw [count?, uint64?_ofNat, uint64OfNat?, if_pos h, Option.map_some,
    UInt64.toNat_ofNat_of_lt' h]

theorem isWritable_ofNat (n : Nat) : (ofNat n).isWritable :=
  decide_eq_true (isJson_integerNumeral n)

end Json

namespace Decimal

/-- The digits of a decimal around its point have no leading zeros, unless the
decimal is zero times a power of ten. -/
theorem whole_positional_of_head? {d : Decimal} (hzero : d.significand = 0 → d.exponent = 0)
    (negative : Bool) (h : (d.positional negative).whole.head? = some '0') :
    (d.positional negative).whole = ['0'] := by
  have hne := (isRun_digitsOf d.significand).1
  unfold positional at h ⊢
  simp only at h ⊢
  split at h
  · rename_i hplaces
    rw [List.head?_append_of_ne_nil _ hne] at h
    rw [if_pos hplaces, digitsOf_of_head? h, hzero (significand_eq_zero_of_head? h)]
    rfl
  · rename_i hplaces
    rw [if_neg hplaces]
    split at h
    · rw [List.head?_take, if_neg (by omega)] at h
      rw [hzero (significand_eq_zero_of_head? h)] at hplaces
      exact absurd rfl hplaces
    · rename_i hbeyond
      rw [if_neg hbeyond]

theorem isJson_toJsonNumeral {d : Decimal} (hzero : d.significand = 0 → d.exponent = 0)
    (negative : Bool) : (d.toJsonNumeral negative).IsJson := by
  have hplain := isPlain_positional negative d
  have hdigits := isRun_digitsOf d.significand
  unfold toJsonNumeral
  simp only
  split
  · constructor
    · exact hplain.whole
    · exact whole_positional_of_head? hzero negative
    · intro c hc
      simp only at hc
      split at hc
      · rw [List.mem_singleton.1 hc]
        decide
      · exact hplain.fraction c hc
  · obtain ⟨digit, digits, hcons⟩ := List.exists_cons_of_ne_nil hdigits.1
    rw [hcons] at hdigits
    simp only [hcons]
    constructor
    · exact ⟨List.cons_ne_nil _ _, fun c hc => hdigits.2 c (List.mem_of_mem_take hc)⟩
    · intro h
      rw [List.take_succ_cons, List.head?_cons] at h
      rw [List.take_succ_cons, Option.some.inj h, List.take_zero]
    · exact fun c hc => hdigits.2 c (List.mem_of_mem_drop hc)

/-- Of the shortest decimals only that of zero has no digits. -/
theorem exponent_shortest_of_zero {tie : Tie} {step : Nat}
    (h : (shortest tie step).significand = 0) : (shortest tie step).exponent = 0 := by
  have hstep := step_shortest tie step
  rw [Decimal.step, numerator_eq_zero h] at hstep
  have hzero : step = 0 := by
    rw [← hstep]
    exact Binary64.nearestStep_eq_zero (Nat.pow_pos (by decide))
  rw [shortest, if_pos hzero]

end Decimal

namespace Binary64

theorem isWritable_toJson (x : Binary64) : x.toJson.isWritable := by
  cases x with
  | nan => rfl
  | infinite negative => rfl
  | finite negative step =>
      exact decide_eq_true
        (Decimal.isJson_toJsonNumeral Decimal.exponent_shortest_of_zero negative)

end Binary64

end CycleComparison

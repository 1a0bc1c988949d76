import CycleComparison.Binary64.Arithmetic
import CycleComparison.Proofs.Binary64.Grid

/-!
# Operations and exact values

A sum or a difference of finite numbers has the exact result rounded once, or
overflows; rounding stays between any two values that the exact result is
between. The quotient by a count of at least two is at most a magnitude of which
the dividend is no more than twice. What is not finite stays so.
-/

namespace CycleComparison

namespace Binary64

@[simp] theorem units?_finite (negative : Bool) (step : Fin stepCount) :
    units? (.finite negative step) = some (signedUnits negative step) := rfl

theorem natAbs_signedUnits (negative : Bool) (step : Nat) :
    (signedUnits negative step).natAbs = stepUnits step := by
  unfold signedUnits
  cases negative
  · exact Int.natAbs_natCast _
  · exact (Int.natAbs_neg _).trans (Int.natAbs_natCast _)

theorem signedUnits_sign (negative : Bool) {k l : Nat} (h : stepUnits k = 0 → stepUnits l = 0) :
    (0 ≤ signedUnits negative k → 0 ≤ signedUnits negative l) ∧
      (signedUnits negative k ≤ 0 → signedUnits negative l ≤ 0) := by
  unfold signedUnits
  cases negative
  · simp only [Bool.false_eq_true, if_false]
    omega
  · simp only [if_true]
    omega

/-- The exact value of the result for an exact value, unless it overflows. -/
def roundUnits? (u : Int) : Option Int :=
  if nearestStep u.natAbs 1 < stepCount then
    some (signedUnits (decide (u < 0)) (nearestStep u.natAbs 1))
  else none

theorem units?_ofRatio (negative : Bool) (num den : Nat) :
    (ofRatio negative num den).units? =
      if nearestStep num den < stepCount then some (signedUnits negative (nearestStep num den))
      else none := by
  unfold ofRatio
  by_cases h : nearestStep num den < stepCount
  · rw [dif_pos h, if_pos h, units?_finite]
  · rw [dif_neg h, if_neg h, units?_infinite]

theorem roundUnits?_zero : roundUnits? 0 = some 0 := by
  have hzero : nearestStep (0 : Int).natAbs 1 = 0 := nearestStep_eq_zero (by decide)
  unfold roundUnits?
  rw [hzero, if_pos (by decide)]
  rfl

variable {x y : Binary64} {a b u : Int}

theorem exists_finite_of_units? (h : x.units? = some a) :
    ∃ negative, ∃ step : Fin stepCount,
      x = .finite negative step ∧ a = signedUnits negative step := by
  cases x with
  | nan => cases h
  | infinite negative => cases h
  | finite negative step => exact ⟨negative, step, rfl, (Option.some.inj h).symm⟩

theorem isZero_eq_false_iff {x : Binary64} :
    x.isZero = false ↔ ∀ negative, x ≠ zeroOf negative := by
  rw [← Bool.not_eq_true, ← not_exists]
  apply not_congr
  unfold isZero
  rw [beq_iff_eq]
  constructor
  · intro h
    obtain ⟨negative, step, rfl, hzero⟩ := exists_finite_of_units? h
    have hunits : stepUnits step = stepUnits 0 := by
      rw [← natAbs_signedUnits negative, ← hzero, stepUnits_zero, Int.natAbs_zero]
    have hstep : step = ⟨0, by decide⟩ := Fin.ext (stepUnits_strictMono.injective hunits)
    exact ⟨negative, by rw [hstep, zeroOf]⟩
  · rintro ⟨negative, rfl⟩
    cases negative <;> rfl

theorem units?_add (hx : x.units? = some a) (hy : y.units? = some b) :
    (x + y).units? = roundUnits? (a + b) := by
  obtain ⟨n, k, rfl, rfl⟩ := exists_finite_of_units? hx
  obtain ⟨m, l, rfl, rfl⟩ := exists_finite_of_units? hy
  show (add (.finite n k) (.finite m l)).units? = _
  unfold add
  simp only
  by_cases hsum : signedUnits n k + signedUnits m l = 0
  · rw [if_pos hsum, hsum, roundUnits?_zero]
    cases n && m <;> rfl
  · rw [if_neg hsum, units?_ofRatio]
    rfl

theorem units?_neg (hx : x.units? = some a) : (neg x).units? = some (-a) := by
  obtain ⟨n, k, rfl, rfl⟩ := exists_finite_of_units? hx
  cases n
  · rfl
  · exact congrArg some (Int.neg_neg (stepUnits k : Int)).symm

theorem units?_sub (hx : x.units? = some a) (hy : y.units? = some b) :
    (x - y).units? = roundUnits? (a - b) := by
  rw [Int.sub_eq_add_neg]
  exact units?_add hx (units?_neg hy)

theorem units?_add_of_left (h : x.units? = none) (y : Binary64) : (x + y).units? = none := by
  show (add x y).units? = none
  cases x with
  | nan => cases y <;> rfl
  | infinite n =>
      cases y with
      | nan => rfl
      | infinite m => cases n <;> cases m <;> rfl
      | finite m l => rfl
  | finite n k => cases h

theorem units?_add_of_right (x : Binary64) (h : y.units? = none) : (x + y).units? = none := by
  cases hx : x.units? with
  | none => exact units?_add_of_left hx y
  | some a =>
      obtain ⟨n, k, rfl, rfl⟩ := exists_finite_of_units? hx
      cases y with
      | nan => rfl
      | infinite m => rfl
      | finite m l => cases h

theorem units?_div_of_left (h : x.units? = none) (y : Binary64) : (x / y).units? = none := by
  cases x with
  | nan => cases y <;> rfl
  | infinite n => cases y <;> rfl
  | finite n k => cases h

/-- The exact value of some number. -/
def IsValue (a : Int) : Prop := ∃ x : Binary64, x.units? = some a

theorem IsValue.exists_step (h : IsValue a) : ∃ k < stepCount, a.natAbs = stepUnits k := by
  obtain ⟨x, hx⟩ := h
  obtain ⟨n, k, -, rfl⟩ := exists_finite_of_units? hx
  exact ⟨k, k.isLt, natAbs_signedUnits n k⟩

theorem stepUnits_le {k l : Nat} (h : k ≤ l) : stepUnits k ≤ stepUnits l :=
  stepUnits_strictMono.monotone h

theorem nearestStep_one_le {n k : Nat} (h : n ≤ stepUnits k) : nearestStep n 1 ≤ k :=
  nearestStep_le (by decide) (by rwa [Nat.mul_one])

theorem le_nearestStep_one {n k : Nat} (h : stepUnits k ≤ n) : k ≤ nearestStep n 1 :=
  le_nearestStep (by decide) (by rwa [Nat.mul_one])

/-- Rounding does not pass a value. -/
theorem exists_roundUnits? (ha : IsValue a) (hb : IsValue b) (hau : a ≤ u) (hub : u ≤ b) :
    ∃ r, roundUnits? u = some r ∧ a ≤ r ∧ r ≤ b := by
  obtain ⟨k, hk, hak⟩ := ha.exists_step
  obtain ⟨l, hl, hbl⟩ := hb.exists_step
  unfold roundUnits?
  by_cases hu : u < 0
  · have hle : nearestStep u.natAbs 1 ≤ k := nearestStep_one_le (by omega)
    have hunits := stepUnits_le hle
    rw [if_pos (by omega), decide_eq_true hu]
    refine ⟨_, rfl, ?_, ?_⟩
    · simp only [signedUnits, if_true]
      omega
    · simp only [signedUnits, if_true]
      by_cases hb' : b < 0
      · have hunits' := stepUnits_le (le_nearestStep_one (n := u.natAbs) (k := l) (by omega))
        omega
      · omega
  · have hle : nearestStep u.natAbs 1 ≤ l := nearestStep_one_le (by omega)
    have hunits := stepUnits_le hle
    rw [if_pos (by omega), decide_eq_false hu]
    refine ⟨_, rfl, ?_, ?_⟩
    · simp only [signedUnits, Bool.false_eq_true, if_false]
      by_cases ha' : a < 0
      · omega
      · have hunits' := stepUnits_le (le_nearestStep_one (n := u.natAbs) (k := k) (by omega))
        omega
    · simp only [signedUnits, Bool.false_eq_true, if_false]
      omega

/-- A value is rounded to itself. -/
theorem roundUnits?_of_isValue (h : IsValue a) : roundUnits? a = some a := by
  obtain ⟨r, hr, hle, hle'⟩ := exists_roundUnits? h h (Int.le_refl a) (Int.le_refl a)
  rw [hr, Int.le_antisymm hle' hle]

/-- The magnitude of a result is at most any magnitude that the exact value is at
most. -/
theorem natAbs_le_of_roundUnits? {r : Int} {k : Nat} (h : roundUnits? u = some r)
    (hu : u.natAbs ≤ stepUnits k) : r.natAbs ≤ stepUnits k := by
  unfold roundUnits? at h
  split at h
  · rw [← Option.some.inj h, natAbs_signedUnits]
    exact stepUnits_le (nearestStep_one_le hu)
  · cases h

theorem sign_of_roundUnits? {r : Int} (h : roundUnits? u = some r) :
    (0 ≤ u → 0 ≤ r) ∧ (u ≤ 0 → r ≤ 0) := by
  by_cases hzero : u = 0
  · rw [hzero, roundUnits?_zero] at h
    rw [← Option.some.inj h]
    exact ⟨fun _ => Int.le_refl 0, fun _ => Int.le_refl 0⟩
  · unfold roundUnits? at h
    split at h
    · rw [← Option.some.inj h]
      unfold signedUnits
      by_cases hu : u < 0
      · rw [decide_eq_true hu, if_pos rfl]
        omega
      · rw [decide_eq_false hu, if_neg Bool.false_ne_true]
        omega
    · cases h

/-- Twice the least magnitude from which on a result overflows, which is half way
between the last step and the one that is no longer finite. -/
def overflowUnits : Nat := stepUnits (stepCount - 1) + stepUnits stepCount

theorem isSome_roundUnits?_iff (u : Int) :
    (roundUnits? u).isSome ↔ 2 * u.natAbs < overflowUnits := by
  have hodd : ¬ (stepCount - 1) % 2 = 0 := by decide
  have hpos : stepCount - 1 + 1 = stepCount := by decide
  have hiff := @nearestStep_le_iff u.natAbs 1 Nat.one_pos (stepCount - 1)
  rw [Nat.mul_one, hpos, ← Nat.lt_succ_iff, Nat.succ_eq_add_one, hpos] at hiff
  have hlt : nearestStep u.natAbs 1 < stepCount ↔ 2 * u.natAbs < overflowUnits :=
    hiff.trans ⟨fun h => h.resolve_right fun h => hodd h.2, .inl⟩
  unfold roundUnits?
  rw [← hlt]
  by_cases h : nearestStep u.natAbs 1 < stepCount
  · rw [if_pos h]
    exact ⟨fun _ => h, fun _ => rfl⟩
  · rw [if_neg h]
    exact ⟨fun hnone => absurd hnone Bool.false_ne_true, fun hlt => absurd hlt h⟩

/-- Every power of two is a magnitude. -/
theorem exists_stepUnits_eq_two_pow (j : Nat) : ∃ k, stepUnits k = 2 ^ j := by
  by_cases h : j < 52
  · have hlt : 2 ^ j < 2 ^ 52 := Nat.pow_lt_pow_right (by decide) h
    have hunits := stepUnits_binade 0 (m := 2 ^ j) (.inr rfl) (by omega)
    exact ⟨_, by rw [hunits, Nat.pow_zero, Nat.mul_one]⟩
  · have hunits := stepUnits_binade (j - 52) (m := 2 ^ 52) (.inl (Nat.le_refl _))
      (by decide)
    refine ⟨_, hunits.trans ?_⟩
    rw [← Nat.pow_add, Nat.add_sub_cancel' (Nat.le_of_not_lt h)]

theorem exists_stepUnits_eq_unitsPerOne : ∃ k < stepCount, stepUnits k = unitsPerOne := by
  have hunits := stepUnits_binade (unitPlaces - 52) (m := 2 ^ 52) (.inl (Nat.le_refl _)) (by decide)
  refine ⟨_, ?_, hunits.trans ?_⟩
  · rw [unitPlaces]
    decide
  · have hplaces : 52 + (unitPlaces - 52) = unitPlaces := by
      rw [unitPlaces]
    rw [← Nat.pow_add, hplaces, unitsPerOne_eq]

theorem natCast_eq_ofNat : (Nat.cast : Nat → Binary64) = ofNat := rfl

/-- A count of at least two is an infinity, or a number of which twice one is no
more. -/
theorem natCast_cases {n : Nat} (h : 2 ≤ n) :
    (n : Binary64) = .infinite false ∨
      ∃ l : Fin stepCount, (n : Binary64) = .finite false l ∧ unitsPerOne * 2 ≤ stepUnits l := by
  rw [natCast_eq_ofNat, ofNat, ofRatio]
  by_cases hlt : nearestStep (unitsPerOne * n) 1 < stepCount
  · rw [dif_pos hlt]
    refine .inr ⟨_, rfl, ?_⟩
    obtain ⟨k, hk⟩ := exists_stepUnits_eq_two_pow (unitPlaces + 1)
    have htwo : stepUnits k = unitsPerOne * 2 := by
      rw [hk, unitsPerOne_eq, Nat.pow_succ]
    rw [← htwo]
    apply stepUnits_le
    apply le_nearestStep_one
    rw [htwo]
    exact Nat.mul_le_mul_left unitsPerOne h
  · rw [dif_neg hlt]
    exact .inl rfl

theorem unitsPerOne_pos : 0 < unitsPerOne := by
  rw [unitsPerOne_eq]
  exact Nat.two_pow_pos unitPlaces

theorem natCast_one :
    ∃ l : Fin stepCount, ((1 : Nat) : Binary64) = .finite false l ∧ stepUnits l = unitsPerOne := by
  obtain ⟨k, hk, hunits⟩ := exists_stepUnits_eq_unitsPerOne
  have hstep : nearestStep (unitsPerOne * 1) 1 = k := by
    rw [← hunits]
    exact nearestStep_stepUnits_mul (by decide) k
  rw [natCast_eq_ofNat, ofNat, ofRatio]
  simp only [hstep]
  rw [dif_pos hk]
  exact ⟨⟨k, hk⟩, rfl, hunits⟩

theorem units?_div_finite {m : Bool} {k l : Fin stepCount} (hl : 0 < stepUnits l) :
    (Binary64.finite m k / Binary64.finite false l).units? =
      (ofRatio m (unitsPerOne * stepUnits k) (stepUnits l)).units? := by
  have hne : (l : Nat) ≠ 0 := by
    intro hzero
    rw [hzero, stepUnits_zero] at hl
    exact Nat.lt_irrefl 0 hl
  show (div (.finite m k) (.finite false l)).units? = _
  unfold div
  simp only
  rw [if_neg hne, Bool.bne_false]

/-- A quotient by a positive number has the sign of the dividend. -/
theorem sign_of_units?_div {m : Bool} {k l : Fin stepCount} {q : Int} (hl : 0 < stepUnits l)
    (h : (Binary64.finite m k / Binary64.finite false l).units? = some q) :
    (0 ≤ signedUnits m k → 0 ≤ q) ∧ (signedUnits m k ≤ 0 → q ≤ 0) := by
  rw [units?_div_finite hl, units?_ofRatio] at h
  by_cases hlt : nearestStep (unitsPerOne * stepUnits k) (stepUnits l) < stepCount
  · rw [if_pos hlt] at h
    rw [← Option.some.inj h]
    apply signedUnits_sign
    intro hk
    rw [nearestStep_eq_zero (by rw [hk]; omega), stepUnits_zero]
  · rw [if_neg hlt] at h
    cases h

theorem units?_div_one (hx : x.units? = some u) : (x / ((1 : Nat) : Binary64)).units? = some u := by
  obtain ⟨m, k, rfl, rfl⟩ := exists_finite_of_units? hx
  obtain ⟨l, hcast, hl⟩ := natCast_one
  have hstep : nearestStep (unitsPerOne * stepUnits k) unitsPerOne = k := by
    rw [Nat.mul_comm]
    exact nearestStep_stepUnits_mul unitsPerOne_pos k
  rw [hcast, units?_div_finite (hl ▸ unitsPerOne_pos), hl, units?_ofRatio, hstep, if_pos k.isLt]

/-- The quotient by a count of at least two is at most a magnitude of which the
dividend is no more than twice, and has its sign. -/
theorem exists_units?_div_natCast {n p : Nat} (hn : 2 ≤ n) (hx : x.units? = some u)
    (hp : p < stepCount) (hu : u.natAbs ≤ 2 * stepUnits p) :
    ∃ q, (x / (n : Binary64)).units? = some q ∧ q.natAbs ≤ stepUnits p ∧ (0 ≤ u → 0 ≤ q) ∧
      (u ≤ 0 → q ≤ 0) := by
  obtain ⟨m, k, rfl, rfl⟩ := exists_finite_of_units? hx
  rw [natAbs_signedUnits] at hu
  rcases natCast_cases hn with hcast | ⟨l, hcast, hl⟩
  · rw [hcast]
    refine ⟨0, ?_, Nat.zero_le _, fun _ => Int.le_refl 0, fun _ => Int.le_refl 0⟩
    cases m <;> rfl
  · have hpos := unitsPerOne_pos
    have hle : nearestStep (unitsPerOne * stepUnits k) (stepUnits l) ≤ p := by
      apply nearestStep_le (by omega)
      calc unitsPerOne * stepUnits k ≤ unitsPerOne * (2 * stepUnits p) :=
            Nat.mul_le_mul_left unitsPerOne hu
        _ = stepUnits p * (unitsPerOne * 2) := by ring
        _ ≤ stepUnits p * stepUnits l := Nat.mul_le_mul_left (stepUnits p) hl
    have hunits : (Binary64.finite m k / Binary64.finite false l).units? =
        some (signedUnits m (nearestStep (unitsPerOne * stepUnits k) (stepUnits l))) := by
      rw [units?_div_finite (by omega), units?_ofRatio, if_pos (by omega)]
    rw [hcast]
    refine ⟨_, hunits, ?_, sign_of_units?_div (by omega) hunits⟩
    rw [natAbs_signedUnits]
    exact stepUnits_le hle

end Binary64

end CycleComparison

import CycleComparison.Proofs.Binary64.Operations
import CycleComparison.Statistics.RunningMean
import Mathlib.Data.List.Induction

/-!
# When a running mean is finite

A mean of at least one value that takes in another one stays between the two, if
their difference does not overflow, and is lost for good if it does. So the
running mean of finite values is finite exactly if each of them is near the mean
of those before it.
-/

namespace CycleComparison

namespace Binary64

variable {x y : Binary64} {a b : Int}

/-- The difference of two finite numbers does not overflow. -/
def Near (x y : Binary64) : Prop :=
  ∃ a b, x.units? = some a ∧ y.units? = some b ∧ 2 * (b - a).natAbs < overflowUnits

theorem isFinite_iff : x.isFinite ↔ ∃ a, x.units? = some a := Option.isSome_iff_exists

theorem near_iff_of_units? (hx : x.units? = some a) (hy : y.units? = some b) :
    Near x y ↔ (roundUnits? (b - a)).isSome := by
  rw [isSome_roundUnits?_iff]
  constructor
  · rintro ⟨a', b', hx', hy', h⟩
    rw [hx] at hx'
    rw [hy] at hy'
    rwa [Option.some.inj hx', Option.some.inj hy']
  · intro h
    exact ⟨a, b, hx, hy, h⟩

/-- Numbers of one sign are never too far apart. -/
theorem near_of_sign (hx : x.units? = some a) (hy : y.units? = some b)
    (h : 0 ≤ a ∧ 0 ≤ b ∨ a ≤ 0 ∧ b ≤ 0) : Near x y := by
  rw [near_iff_of_units? hx hy]
  have hneg : IsValue (-a) := ⟨neg x, units?_neg hx⟩
  rcases h with ⟨ha, hb⟩ | ⟨ha, hb⟩
  · obtain ⟨r, hr, -⟩ := exists_roundUnits? (u := b - a) hneg ⟨y, hy⟩ (by omega) (by omega)
    rw [hr, Option.isSome_some]
  · obtain ⟨r, hr, -⟩ := exists_roundUnits? (u := b - a) ⟨y, hy⟩ hneg (by omega) (by omega)
    rw [hr, Option.isSome_some]

/-- Finite and not negative. A negative zero counts as zero. -/
def Nonneg (x : Binary64) : Prop := ∃ a, x.units? = some a ∧ 0 ≤ a

/-- A magnitude that the exact value of a finite result is at least, and of which
the result is at most twice. -/
theorem exists_half_of_roundUnits? {u r : Int} (h : roundUnits? u = some r)
    (hu : 2 * u.natAbs < overflowUnits) :
    ∃ p < stepCount, stepUnits p ≤ u.natAbs ∧ r.natAbs ≤ 2 * stepUnits p := by
  by_cases hzero : u.natAbs = 0
  · have hu : u = 0 := by omega
    rw [hu, roundUnits?_zero] at h
    refine ⟨0, by decide, Nat.zero_le _, ?_⟩
    rw [← Option.some.inj h]
    exact Nat.zero_le _
  · obtain ⟨p, hp⟩ := exists_stepUnits_eq_two_pow u.natAbs.log2
    obtain ⟨p', hp'⟩ := exists_stepUnits_eq_two_pow (u.natAbs.log2 + 1)
    have hlow : stepUnits p ≤ u.natAbs := hp ▸ Nat.log2_self_le hzero
    have hhigh : u.natAbs ≤ stepUnits p' := hp' ▸ Nat.le_of_lt Nat.lt_log2_self
    refine ⟨p, ?_, hlow, ?_⟩
    · apply Nat.lt_of_not_le
      intro hle
      have hcount := stepUnits_le hle
      have hlast := stepUnits_le (Nat.sub_le stepCount 1)
      unfold overflowUnits at hu
      omega
    · have hr := natAbs_le_of_roundUnits? h hhigh
      rw [hp', Nat.pow_succ] at hr
      omega

/-- A mean moves towards the next value and not past it. -/
theorem exists_units?_push {n : Nat} (hn : 2 ≤ n) (hx : x.units? = some a)
    (hy : y.units? = some b) (h : Near x y) :
    ∃ c, (x + (y - x) / (n : Binary64)).units? = some c ∧ min a b ≤ c ∧ c ≤ max a b := by
  have hsome := (near_iff_of_units? hx hy).1 h
  obtain ⟨d, hd⟩ := Option.isSome_iff_exists.1 hsome
  obtain ⟨p, hp, hlow, hhigh⟩ :=
    exists_half_of_roundUnits? hd ((isSome_roundUnits?_iff _).1 hsome)
  have hsub : (y - x).units? = some d := (units?_sub hy hx).trans hd
  obtain ⟨q, hq, hle, hpos, hneg⟩ := exists_units?_div_natCast hn hsub hp hhigh
  obtain ⟨hdpos, hdneg⟩ := sign_of_roundUnits? hd
  rw [units?_add hx hq]
  by_cases hab : a ≤ b
  · have hqpos := hpos (hdpos (by omega))
    obtain ⟨c, hc, hac, hcb⟩ :=
      exists_roundUnits? (u := a + q) ⟨x, hx⟩ ⟨y, hy⟩ (by omega) (by omega)
    exact ⟨c, hc, by omega, by omega⟩
  · have hqneg := hneg (hdneg (by omega))
    obtain ⟨c, hc, hbc, hca⟩ :=
      exists_roundUnits? (u := a + q) ⟨y, hy⟩ ⟨x, hx⟩ (by omega) (by omega)
    exact ⟨c, hc, by omega, by omega⟩

/-- The first value is taken as it is. -/
theorem units?_push_zero (hy : y.units? = some b) :
    (0 + (y - 0) / ((1 : Nat) : Binary64) : Binary64).units? = some b := by
  have hzero : (0 : Binary64).units? = some 0 := rfl
  have hsub : (y - 0).units? = some b := by
    rw [units?_sub hy hzero, Int.sub_zero, roundUnits?_of_isValue ⟨y, hy⟩]
  rw [units?_add hzero (units?_div_one hsub), Int.zero_add, roundUnits?_of_isValue ⟨y, hy⟩]

/-- A mean that takes in a value is finite only if it was and the value is near. -/
theorem isFinite_push_iff {n : Nat} (hn : 2 ≤ n) (hy : y.isFinite) :
    (x + (y - x) / (n : Binary64)).isFinite ↔ x.isFinite ∧ Near x y := by
  obtain ⟨b, hy⟩ := isFinite_iff.1 hy
  constructor
  · intro h
    cases hx : x.units? with
    | none =>
        rw [isFinite, units?_add_of_left hx] at h
        cases h
    | some a =>
        refine ⟨isFinite_iff.2 ⟨a, hx⟩, (near_iff_of_units? hx hy).2 ?_⟩
        rw [← units?_sub hy hx]
        apply Option.isSome_iff_ne_none.2
        intro hnone
        rw [isFinite, units?_add_of_right x (units?_div_of_left hnone _)] at h
        cases h
  · rintro ⟨hx, hnear⟩
    obtain ⟨a, hx⟩ := isFinite_iff.1 hx
    obtain ⟨c, hc, _⟩ := exists_units?_push hn hx hy hnear
    exact isFinite_iff.2 ⟨c, hc⟩

theorem nonneg_div (hx : Nonneg x) (hy : Nonneg y) (hzero : y.isZero = false)
    (h : (x / y).isFinite) : Nonneg (x / y) := by
  obtain ⟨a, hx, ha⟩ := hx
  obtain ⟨b, hy, hb⟩ := hy
  obtain ⟨q, hq⟩ := isFinite_iff.1 h
  refine ⟨q, hq, ?_⟩
  have hne : b ≠ 0 := by
    rintro rfl
    rw [isZero, hy] at hzero
    cases hzero
  obtain ⟨m, k, rfl, rfl⟩ := exists_finite_of_units? hx
  obtain ⟨n, l, rfl, rfl⟩ := exists_finite_of_units? hy
  cases n with
  | true =>
      simp only [signedUnits, if_true] at hb hne
      omega
  | false =>
      simp only [signedUnits, Bool.false_eq_true, if_false] at hb hne
      exact (sign_of_units?_div (by omega) hq).1 ha

end Binary64

open Binary64

theorem count_foldl_push {α : Type} [Scalar α] (values : List α) (acc : RunningMean α) :
    (values.foldl RunningMean.push acc).count = acc.count + values.length := by
  induction values generalizing acc with
  | nil => rfl
  | cons x rest ih =>
      have hpush : (acc.push x).count = acc.count + 1 := rfl
      rw [List.foldl_cons, ih, List.length_cons, hpush]
      omega

theorem mean_append_singleton {α : Type} [Scalar α] (values : List α) (x : α) :
    mean (values ++ [x]) =
      some ((values.foldl RunningMean.push RunningMean.empty).push x).mean := by
  unfold mean RunningMean.mean?
  rw [count_foldl_push, if_neg, List.foldl_append]
  · rfl
  · rw [List.length_append, List.length_singleton]
    omega

theorem mean_singleton {α : Type} [Scalar α] (x : α) :
    mean [x] = some (0 + (x - 0) / ((1 : Nat) : α)) := rfl

theorem exists_mean_append {α : Type} [Scalar α] {values : List α} (h : values ≠ []) :
    ∃ m n, 2 ≤ n ∧ mean values = some m ∧
      ∀ x, mean (values ++ [x]) = some (m + (x - m) / ((n : Nat) : α)) := by
  have hpos := List.length_pos_iff.2 h
  refine ⟨(values.foldl RunningMean.push RunningMean.empty).mean, values.length + 1, by omega,
    ?_, ?_⟩
  · unfold mean RunningMean.mean?
    rw [count_foldl_push, if_neg]
    omega
  · intro x
    have hcount : (values.foldl RunningMean.push RunningMean.empty).count = values.length := by
      rw [count_foldl_push, RunningMean.empty, Nat.zero_add]
    rw [mean_append_singleton, ← hcount]
    rfl

/-- No value is too far from the mean of the values before it. -/
def Steady (values : List Binary64) : Prop :=
  ∀ before x after m, values = before ++ x :: after → mean before = some m → Near m x

theorem steady_nil : Steady [] := by
  intro before x after m h
  cases before <;> cases h

theorem steady_singleton (x : Binary64) : Steady [x] := by
  intro before y after m h hm
  cases before with
  | nil => cases hm
  | cons _ before =>
      rw [List.cons_append] at h
      have hlength := congrArg List.length (List.cons.inj h).2
      rw [List.length_append, List.length_cons, List.length_nil] at hlength
      omega

theorem steady_append_singleton {values : List Binary64} {x : Binary64} :
    Steady (values ++ [x]) ↔ Steady values ∧ ∀ m, mean values = some m → Near m x := by
  constructor
  · intro h
    constructor
    · intro before y after m heq hm
      apply h before y (after ++ [x]) m _ hm
      rw [heq, List.append_assoc, List.cons_append]
    · intro m hm
      exact h values x [] m rfl hm
  · rintro ⟨hvalues, hx⟩ before y after m heq hm
    -- the value is the new one or has the new one after it
    rcases List.eq_nil_or_concat after with rfl | ⟨init, last, rfl⟩
    · obtain ⟨rfl, hsingle⟩ := List.append_inj' heq rfl
      rw [List.singleton_inj.1 hsingle] at hx
      exact hx m hm
    · rw [List.concat_eq_append, ← List.cons_append, ← List.append_assoc] at heq
      obtain ⟨hinit, -⟩ := List.append_inj' heq rfl
      exact hvalues before y init m hinit hm

/-- The mean of finite values is finite exactly if the values are steady. -/
theorem isFinite_mean_iff {values : List Binary64} (h : ∀ x ∈ values, x.isFinite) :
    (∀ m, mean values = some m → m.isFinite) ↔ Steady values := by
  induction values using List.reverseRecOn with
  | nil =>
      refine ⟨fun _ => steady_nil, ?_⟩
      intro _ m hm
      cases hm
  | append_singleton values x ih =>
      have hx : x.isFinite := h x (List.mem_append_right _ (List.mem_singleton_self x))
      have hvalues := ih fun y hy => h y (List.mem_append_left _ hy)
      by_cases hnil : values = []
      · obtain ⟨b, hb⟩ := isFinite_iff.1 hx
        subst hnil
        refine ⟨fun _ => steady_singleton x, ?_⟩
        intro _ m hm
        rw [List.nil_append, mean_singleton] at hm
        rw [← Option.some.inj hm]
        exact isFinite_iff.2 ⟨b, units?_push_zero hb⟩
      · obtain ⟨m, n, hn, hmean, hnext⟩ := exists_mean_append hnil
        rw [steady_append_singleton, ← hvalues, hmean, hnext]
        simp only [Option.some.injEq, forall_eq']
        exact isFinite_push_iff hn hx

end CycleComparison

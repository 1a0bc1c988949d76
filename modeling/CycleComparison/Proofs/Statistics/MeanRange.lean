import CycleComparison.Proofs.Statistics.RunningMean
import Mathlib.Data.Finset.Max

/-!
# Where a running mean stays

A mean that takes in a value moves towards it and not past it, in spite of the three
roundings. So an interval that has all the values has every mean on the way, if the
values are of one sign: then no difference of a value and a mean overflows. The
least such interval has its ends among the values.
-/

namespace CycleComparison

namespace Binary64

variable {x y : Binary64} {lower upper : Int}

/-- Finite numbers in numerical order, in which zeros of either sign are equal. -/
def Le (x y : Binary64) : Prop := ∃ a ∈ x.units?, ∃ b ∈ y.units?, a ≤ b

instance (x y : Binary64) : Decidable (Le x y) :=
  inferInstanceAs (Decidable (∃ a ∈ x.units?, ∃ b ∈ y.units?, a ≤ b))

/-- A finite number with its exact value in an interval. -/
def Within (lower upper : Int) (x : Binary64) : Prop :=
  ∃ a, x.units? = some a ∧ lower ≤ a ∧ a ≤ upper

theorem near_of_within (hsign : 0 ≤ lower ∨ upper ≤ 0) (hx : Within lower upper x)
    (hy : Within lower upper y) : Near x y := by
  obtain ⟨a, hx, ha, ha'⟩ := hx
  obtain ⟨b, hy, hb, hb'⟩ := hy
  exact near_of_sign hx hy (by omega)

/-- A mean does not leave an interval of one sign that it takes a value of in. -/
theorem within_push {n : Nat} (hn : 2 ≤ n) (hsign : 0 ≤ lower ∨ upper ≤ 0)
    (hx : Within lower upper x) (hy : Within lower upper y) :
    Within lower upper (x + (y - x) / (n : Binary64)) := by
  have hnear := near_of_within hsign hx hy
  obtain ⟨a, hx, ha, ha'⟩ := hx
  obtain ⟨b, hy, hb, hb'⟩ := hy
  obtain ⟨c, hc, hle, hle'⟩ := exists_units?_push hn hx hy hnear
  exact ⟨c, hc, by omega, by omega⟩

end Binary64

open Binary64

variable {values : List Binary64}

/-- The mean of values in an interval of one sign is in the interval. -/
theorem within_mean {lower upper : Int} (hsign : 0 ≤ lower ∨ upper ≤ 0)
    (h : ∀ x ∈ values, Within lower upper x) :
    ∀ m, mean values = some m → Within lower upper m := by
  induction values using List.reverseRecOn with
  | nil => nofun
  | append_singleton values x ih =>
      have hx : Within lower upper x := h x (List.mem_append_right _ (List.mem_singleton_self x))
      have hvalues := ih fun y hy => h y (List.mem_append_left _ hy)
      by_cases hnil : values = []
      · obtain ⟨b, hb, hrange⟩ := hx
        intro m hm
        rw [hnil, List.nil_append, mean_singleton] at hm
        rw [← Option.some.inj hm]
        exact ⟨b, units?_push_zero hb, hrange⟩
      · obtain ⟨m, n, hn, hmean, hnext⟩ := exists_mean_append hnil
        simp only [hnext, Option.some.injEq, forall_eq']
        exact within_push hn hsign (hvalues m hmean) hx

/-- A value is taken in without overflow in any of the three operations. -/
structure RunningMean.TakesIn (acc : RunningMean Binary64) (x : Binary64) : Prop where
  difference : (x - acc.mean).isFinite
  share : ((x - acc.mean) / ((acc.count + 1 : Nat) : Binary64)).isFinite
  mean : (acc.push x).mean.isFinite

/-- Once an operation has overflowed, so have those after it. -/
theorem RunningMean.takesIn_of_isFinite {acc : RunningMean Binary64} {x : Binary64}
    (h : (acc.push x).mean.isFinite) : acc.TakesIn x := by
  have hshare : ((x - acc.mean) / ((acc.count + 1 : Nat) : Binary64)).isFinite := by
    apply Option.isSome_iff_ne_none.2
    intro hnone
    rw [push, isFinite, units?_add_of_right _ hnone] at h
    cases h
  refine ⟨Option.isSome_iff_ne_none.2 fun hnone => ?_, hshare, h⟩
  rw [isFinite, units?_div_of_left hnone] at hshare
  cases hshare

/-- All values are finite and not negative, or all are finite and not positive. -/
def OfOneSign (values : List Binary64) : Prop :=
  (∀ x ∈ values, Le 0 x) ∨ ∀ x ∈ values, Le x 0

theorem OfOneSign.exists_units? (h : OfOneSign values) :
    ∀ x ∈ values, ∃ a, x.units? = some a := by
  intro x hx
  rcases h with h | h
  · obtain ⟨_, -, b, hb, -⟩ := h x hx
    exact ⟨b, hb⟩
  · obtain ⟨a, ha, -⟩ := h x hx
    exact ⟨a, ha⟩

/-- A number is between the least and the greatest of some values. -/
def IsBetween (m : Binary64) (values : List Binary64) : Prop :=
  ∃ least ∈ values, ∃ greatest ∈ values, (∀ x ∈ values, Le least x ∧ Le x greatest) ∧
    Le least m ∧ Le m greatest

theorem IsBetween.isFinite {m : Binary64} (h : IsBetween m values) : m.isFinite := by
  obtain ⟨_, -, _, -, -, ⟨_, -, c, hc, -⟩, -⟩ := h
  exact isFinite_iff.2 ⟨c, hc⟩

/-- Values of one sign are in an interval of this sign with its ends among them. -/
theorem OfOneSign.exists_within (h : OfOneSign values) (hne : values ≠ []) :
    ∃ least ∈ values, ∃ greatest ∈ values, ∃ lower ∈ least.units?, ∃ upper ∈ greatest.units?,
      (0 ≤ lower ∨ upper ≤ 0) ∧ ∀ x ∈ values, Within lower upper x := by
  have hnonempty : values.toFinset.Nonempty := List.toFinset_nonempty_iff _ |>.2 hne
  obtain ⟨least, hleast, hmin⟩ :=
    values.toFinset.exists_min_image (fun x => x.units?.getD 0) hnonempty
  obtain ⟨greatest, hgreatest, hmax⟩ :=
    values.toFinset.exists_max_image (fun x => x.units?.getD 0) hnonempty
  rw [List.mem_toFinset] at hleast hgreatest
  obtain ⟨lower, hlower⟩ := h.exists_units? least hleast
  obtain ⟨upper, hupper⟩ := h.exists_units? greatest hgreatest
  refine ⟨least, hleast, greatest, hgreatest, lower, hlower, upper, hupper, ?_, ?_⟩
  · rcases h with h | h
    · obtain ⟨_, hzero, a, ha, hle⟩ := h least hleast
      cases hzero
      cases hlower.symm.trans ha
      exact .inl hle
    · obtain ⟨b, hb, _, hzero, hle⟩ := h greatest hgreatest
      cases hzero
      cases hupper.symm.trans hb
      exact .inr hle
  · intro x hx
    obtain ⟨a, ha⟩ := h.exists_units? x hx
    have hlow := hmin x (List.mem_toFinset.2 hx)
    have hhigh := hmax x (List.mem_toFinset.2 hx)
    rw [hlower, ha] at hlow
    rw [hupper, ha] at hhigh
    exact ⟨a, ha, hlow, hhigh⟩

/-- The mean of values of one sign is between the least and the greatest of them. -/
theorem OfOneSign.isBetween_mean (h : OfOneSign values) {m : Binary64}
    (hm : mean values = some m) : IsBetween m values := by
  have hne : values ≠ [] := by
    rintro rfl
    cases hm
  obtain ⟨least, hleast, greatest, hgreatest, lower, hlower, upper, hupper, hsign, hwithin⟩ :=
    h.exists_within hne
  have hle {x : Binary64} (hx : Within lower upper x) : Le least x ∧ Le x greatest := by
    obtain ⟨a, ha, hlow, hhigh⟩ := hx
    exact ⟨⟨lower, hlower, a, ha, hlow⟩, ⟨a, ha, upper, hupper, hhigh⟩⟩
  exact ⟨least, hleast, greatest, hgreatest, fun x hx => hle (hwithin x hx),
    hle (within_mean hsign hwithin m hm)⟩

/-- Values of one sign are never too far from the mean of those before them. -/
theorem OfOneSign.steady (h : OfOneSign values) : Steady values := by
  refine (isFinite_mean_iff fun x hx => ?_).1 fun m hm => (h.isBetween_mean hm).isFinite
  exact isFinite_iff.2 (h.exists_units? x hx)

/-- Values that are not negative are steady, and their mean is not negative. -/
theorem steady_of_nonneg (h : ∀ x ∈ values, Nonneg x) :
    Steady values ∧ ∀ m, mean values = some m → Nonneg m := by
  have hsign : OfOneSign values := by
    refine .inl fun x hx => ?_
    obtain ⟨a, ha, hle⟩ := h x hx
    exact ⟨0, rfl, a, ha, hle⟩
  refine ⟨hsign.steady, fun m hm => ?_⟩
  obtain ⟨least, hleast, -, -, -, ⟨a, ha, b, hb, hle⟩, -⟩ := hsign.isBetween_mean hm
  obtain ⟨a', ha', hpos⟩ := h least hleast
  cases ha.symm.trans ha'
  exact ⟨b, hb, Int.le_trans hpos hle⟩

theorem OfOneSign.append {before after : List Binary64} (h : OfOneSign (before ++ after)) :
    OfOneSign before := by
  refine h.imp (fun h x hx => ?_) fun h x hx => ?_
  · exact h x (List.mem_append_left _ hx)
  · exact h x (List.mem_append_left _ hx)

/-- Finite numbers that are in order both ways are equal but for the sign of zero. -/
theorem Binary64.units?_eq_of_le {x y : Binary64} (h : Le x y) (h' : Le y x) :
    x.units? = y.units? := by
  obtain ⟨a, ha, b, hb, hle⟩ := h
  obtain ⟨b', hb', a', ha', hle'⟩ := h'
  cases ha.symm.trans ha'
  cases hb.symm.trans hb'
  rw [ha, hb, Int.le_antisymm hle hle']

/-- Values of one sign are taken in one after another without overflow, and after each
of them the mean is between the least and the greatest of the values so far. The mean
of copies of a number is the number. -/
theorem isBetween_mean_of_ofOneSign (h : OfOneSign values) :
    (∀ before x after, values = before ++ x :: after →
      (before.foldl RunningMean.push RunningMean.empty).TakesIn x ∧
        ∃ m, mean (before ++ [x]) = some m ∧ m.isFinite ∧ IsBetween m (before ++ [x])) ∧
    ∀ x n, values = List.replicate (n + 1) x →
      ∃ m, mean values = some m ∧ m.units? = x.units? := by
  constructor
  · rintro before x after rfl
    rw [← List.singleton_append, ← List.append_assoc] at h
    have hmean := mean_append_singleton before x
    have hbetween := h.append.isBetween_mean hmean
    exact ⟨RunningMean.takesIn_of_isFinite hbetween.isFinite, _, hmean, hbetween.isFinite, hbetween⟩
  · rintro x n rfl
    obtain ⟨m, hm⟩ : ∃ m, mean (List.replicate (n + 1) x) = some m := by
      rw [List.replicate_succ']
      exact ⟨_, mean_append_singleton _ x⟩
    obtain ⟨least, hleast, greatest, hgreatest, -, hlow, hhigh⟩ := h.isBetween_mean hm
    rw [List.eq_of_mem_replicate hleast] at hlow
    rw [List.eq_of_mem_replicate hgreatest] at hhigh
    exact ⟨m, hm, units?_eq_of_le hhigh hlow⟩

/-- The greatest number, a negative zero and the least positive number, and copies of
the least number. -/
theorem isBetween_mean_of_ofOneSign_extremes :
    let values := [ofBits 0x7fefffffffffffff, ofBits 0x8000000000000000, ofBits 1]
    let copies := List.replicate 3 (ofBits 0xffefffffffffffff)
    OfOneSign values ∧ (∃ m, mean values = some m ∧ m.isFinite ∧ IsBetween m values) ∧
      OfOneSign copies ∧
        ∃ m, mean copies = some m ∧ m.units? = (ofBits 0xffefffffffffffff).units? := by
  intro values copies
  have hvalues : OfOneSign values := .inl (by decide +kernel)
  have hcopies : OfOneSign copies := .inr (by decide +kernel)
  obtain ⟨-, hmean⟩ := (isBetween_mean_of_ofOneSign hvalues).1
    [ofBits 0x7fefffffffffffff, ofBits 0x8000000000000000] (ofBits 1) [] rfl
  exact ⟨hvalues, hmean, hcopies, (isBetween_mean_of_ofOneSign hcopies).2 _ 2 rfl⟩

end CycleComparison

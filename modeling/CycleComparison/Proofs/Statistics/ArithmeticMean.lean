import CycleComparison.Proofs.Statistics.RunningMean
import CycleComparison.Proofs.Statistics.Summary
import Mathlib.Algebra.BigOperators.Group.List.Basic
import Mathlib.Data.Rat.Lemmas
import Mathlib.Tactic.FieldSimp
import Mathlib.Tactic.Ring

/-!
# The running mean without rounding

Over the rationals a running mean times the number of its values is their sum, and
this is what one more value preserves. So the mean of a list is its sum divided by
its length, in whatever order the values come. The tables and summaries of exact
samples are therefore made of arithmetic means, and the order of the samples does
not matter to them.
-/

namespace CycleComparison

/-- Every rational is an ordinary number, and there is one zero. -/
instance : Scalar ℚ where
  isZero x := decide (x = 0)
  isFinite _ := true

/-- The sum of the values divided by their number, if there is one. -/
def arithmeticMean? (values : List ℚ) : Option ℚ :=
  if values = [] then none else some (values.sum / values.length)

theorem arithmeticMean?_perm {values values' : List ℚ} (h : values.Perm values') :
    arithmeticMean? values = arithmeticMean? values' := by
  unfold arithmeticMean?
  rw [h.sum_eq, h.length_eq]
  exact if_congr ⟨fun hnil => (hnil ▸ h).nil_eq.symm, fun hnil => (hnil ▸ h).eq_nil⟩ rfl rfl

namespace RunningMean

/-- The running mean of some values: it knows their number, and their sum as the
mean of so many. -/
structure Totals (acc : RunningMean ℚ) (values : List ℚ) : Prop where
  count : acc.count = values.length
  total : acc.mean * acc.count = values.sum

theorem totals_empty : Totals empty [] :=
  ⟨rfl, by rw [List.sum_nil]; exact zero_mul _⟩

variable {acc : RunningMean ℚ} {values : List ℚ}

/-- The mean moves by the share of the new value, which adds the value to the sum. -/
theorem mean_push_mul (acc : RunningMean ℚ) (x : ℚ) :
    (acc.push x).mean * (acc.push x).count = acc.mean * acc.count + x := by
  have hmean : (acc.push x).mean = acc.mean + (x - acc.mean) / ((acc.count + 1 : Nat) : ℚ) := rfl
  have hcount : (acc.push x).count = acc.count + 1 := rfl
  have hne : ((acc.count + 1 : Nat) : ℚ) ≠ 0 := Nat.cast_ne_zero.2 (Nat.succ_ne_zero _)
  rw [hmean, hcount, add_mul, div_mul_cancel₀ _ hne]
  push_cast
  ring

theorem Totals.push (h : acc.Totals values) (x : ℚ) : (acc.push x).Totals (values ++ [x]) := by
  constructor
  · rw [List.length_append, List.length_singleton, ← h.count]
    rfl
  · rw [mean_push_mul, h.total, List.sum_append, List.sum_singleton]

theorem totals_foldl_push (values : List ℚ) : (values.foldl push empty).Totals values := by
  -- the last value is the one that was taken in last
  induction values using List.reverseRecOn with
  | nil => exact totals_empty
  | append_singleton values x ih =>
      rw [List.foldl_append]
      exact ih.push x

theorem Totals.mean?_eq (h : acc.Totals values) : acc.mean? = arithmeticMean? values := by
  unfold mean? arithmeticMean?
  rw [h.count]
  by_cases hnil : values = []
  · rw [if_pos hnil, if_pos (by rw [hnil, List.length_nil])]
  · have hlength : values.length ≠ 0 := mt List.length_eq_zero_iff.1 hnil
    rw [if_neg hnil, if_neg hlength, ← h.total, h.count,
      mul_div_cancel_right₀ _ (Nat.cast_ne_zero.2 hlength)]

end RunningMean

theorem mean_eq_arithmeticMean? (values : List ℚ) : mean values = arithmeticMean? values :=
  (RunningMean.totals_foldl_push values).mean?_eq

theorem mean_perm {values values' : List ℚ} (h : values.Perm values') :
    mean values = mean values' := by
  rw [mean_eq_arithmeticMean?, mean_eq_arithmeticMean?, arithmeticMean?_perm h]

theorem groupValues_perm {α : Type} {samples samples' : List (Sample α)}
    (h : samples.Perm samples') (kind : Classification) :
    (groupValues samples kind).Perm (groupValues samples' kind) :=
  h.filterMap _

theorem occurs_perm {α : Type} {samples samples' : List (Sample α)} (h : samples.Perm samples')
    (p : Precision) : Occurs p samples ↔ Occurs p samples' := by
  unfold Occurs
  simp only [h.mem_iff]

/-- The exact tables do not depend on the order of the samples. -/
theorem aggregate_perm {samples samples' : List (Sample ℚ)} (h : samples.Perm samples') :
    aggregate samples = aggregate samples' :=
  aggregate_eq_of_means (occurs_perm h) fun kind => mean_perm (groupValues_perm h kind)

/-- The tables and summaries of an analysis. -/
structure Statistics (α : Type) where
  tables : PerPrecision (ComparisonTable α)
  summaries : PerPrecision (Summary α)

/-- The statistics of samples, in any numbers. -/
def statistics {α : Type} [Scalar α] (samples : List (Sample α)) : Statistics α where
  tables := aggregate samples
  summaries := (aggregate samples).filterMap ComparisonTable.summary?

theorem statistics_perm {samples samples' : List (Sample ℚ)} (h : samples.Perm samples') :
    statistics samples = statistics samples' := by
  rw [statistics, statistics, aggregate_perm h]

/-- A row with both cells has a ratio if its new cell is not zero. -/
def ComparisonTable.HasRatio (t : ComparisonTable ℚ) (e : UInt64) (ratio : ℚ) : Prop :=
  ∃ new old, t.get e .new = some new ∧ t.get e .old = some old ∧ new ≠ 0 ∧ ratio = old / new

theorem ComparisonTable.enumerates_ratios (t : ComparisonTable ℚ) :
    Enumerates t.speedups t.HasRatio := by
  obtain ⟨hascending, hmem⟩ := t.enumerates_filterMap (f := Cells.speedup?) rfl
  refine ⟨hascending, fun e ratio => (hmem e ratio).trans (Cells.speedup?_eq_some_iff.trans ?_)⟩
  have hzero (x : ℚ) : Scalar.isZero x = false ↔ x ≠ 0 := decide_eq_false_iff_not
  have hfinite : Scalar.isFinite ratio = true := rfl
  simp only [hzero, hfinite, true_and]
  rfl

/-- A summary has the arithmetic means of the cells of each version, paired or not,
and of the ratios. -/
structure Summary.IsOfMeans (s : Summary ℚ) (t : ComparisonTable ℚ) : Prop where
  avgNew : ∀ cells, Enumerates cells (fun e x => t.get e .new = some x) →
    arithmeticMean? (cells.map (·.2)) = some s.avgNew
  avgOld : ∀ cells, Enumerates cells (fun e x => t.get e .old = some x) →
    arithmeticMean? (cells.map (·.2)) = some s.avgOld
  avgSpeedup : ∀ series, Enumerates series t.HasRatio →
    arithmeticMean? (series.map (·.2)) = s.avgSpeedup ∧ series.length = s.pairedRows

theorem Summary.isOfMeans_of_summary? {t : ComparisonTable ℚ} {s : Summary ℚ}
    (h : t.summary? = some s) : s.IsOfMeans t := by
  obtain ⟨hnew, hold, hspeedup, hlength⟩ := ComparisonTable.summary?_eq_some_iff.1 h
  rw [mean_eq_arithmeticMean?] at hnew hold hspeedup
  refine ⟨fun cells hcells => ?_, fun cells hcells => ?_, fun series hseries => ?_⟩
  · rw [hcells.unique (t.enumerates_column .new), hnew]
  · rw [hcells.unique (t.enumerates_column .old), hold]
  · rw [hseries.unique t.enumerates_ratios]
    exact ⟨hspeedup, hlength⟩

/-- The statistics of samples are made of arithmetic means: a cell is the mean of the
values of its kind, and the summary of a table, if each version has a cell in it, has
the means of the cells and of the ratios. -/
structure Statistics.IsOfMeans (s : Statistics ℚ) (samples : List (Sample ℚ)) : Prop where
  table_iff : ∀ p, (s.tables.get p).isSome ↔ Occurs p samples
  cell : ∀ p table, s.tables.get p = some table → ∀ e v,
    table.get e v = arithmeticMean? (groupValues samples ⟨e, v, p⟩)
  summary_iff : ∀ p table, s.tables.get p = some table →
    ((s.summaries.get p).isSome ↔ ∀ v, ∃ e x, table.get e v = some x)
  summary : ∀ p table summary, s.tables.get p = some table →
    s.summaries.get p = some summary → summary.IsOfMeans table

theorem get_summaries_statistics {α : Type} [Scalar α] {samples : List (Sample α)} {p : Precision}
    {table : ComparisonTable α} (h : (statistics samples).tables.get p = some table) :
    (statistics samples).summaries.get p = table.summary? := by
  have htable : (aggregate samples).get p = some table := h
  rw [statistics, PerPrecision.get_filterMap, htable, Option.bind_some]

theorem isOfMeans_statistics (samples : List (Sample ℚ)) :
    (statistics samples).IsOfMeans samples := by
  refine ⟨isSome_get_aggregate samples, fun p table htable e v => ?_,
    fun p table htable => ?_, fun p table summary htable hsummary => ?_⟩
  · rw [get_aggregate htable, mean_eq_arithmeticMean?]
  · rw [get_summaries_statistics htable, table.isSome_summary?_iff]
  · rw [get_summaries_statistics htable] at hsummary
    exact Summary.isOfMeans_of_summary? hsummary

end CycleComparison

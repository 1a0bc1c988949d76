import CycleComparison.Proofs.Binary64.Operations
import CycleComparison.Proofs.Statistics.Grouping

/-!
# What a comparison is made of

Three selections of the rows of a table go into its summary: the rows with a new
cell, those with an old cell, and those with a speedup. Each is a list of what is
found in the table, in ascending order of the exceptions, and no other list has
the same entries in this order. A row that is left out of the speedups still
counts in the columns.
-/

namespace CycleComparison

namespace ComparisonTable

variable {α : Type}

/-- A row with both cells has a speedup if its new cell is no zero and the quotient is
finite. -/
def HasSpeedup (t : ComparisonTable Binary64) (e : UInt64) (ratio : Binary64) : Prop :=
  ∃ new old, t.get e .new = some new ∧ t.get e .old = some old ∧
    (∀ negative, new ≠ Binary64.zeroOf negative) ∧ ratio.isFinite ∧ ratio = old / new

theorem speedup?_row_iff {t : ComparisonTable Binary64} {e : UInt64} {ratio : Binary64} :
    (t.row e).speedup? = some ratio ↔ t.HasSpeedup e ratio := by
  unfold HasSpeedup
  simp only [← Binary64.isZero_eq_false_iff]
  exact Cells.speedup?_eq_some_iff

theorem enumerates_speedups (t : ComparisonTable Binary64) :
    Enumerates t.speedups t.HasSpeedup := by
  obtain ⟨hascending, hmem⟩ := t.enumerates_filterMap (f := Cells.speedup?) rfl
  exact ⟨hascending, fun e ratio => (hmem e ratio).trans speedup?_row_iff⟩

theorem mean_column_eq_none_iff [Scalar α] (t : ComparisonTable α) (v : Version) :
    mean ((t.column v).map (·.2)) = none ↔ ¬ ∃ e x, t.get e v = some x := by
  rw [mean_eq_none_iff, List.map_eq_nil_iff, List.eq_nil_iff_forall_not_mem]
  simp only [Prod.forall, mem_column_iff, not_exists]

theorem summary?_eq_some_iff [Scalar α] {t : ComparisonTable α} {s : Summary α} :
    t.summary? = some s ↔
      mean ((t.column .new).map (·.2)) = some s.avgNew ∧
        mean ((t.column .old).map (·.2)) = some s.avgOld ∧
          mean (t.speedups.map (·.2)) = s.avgSpeedup ∧ t.speedups.length = s.pairedRows := by
  obtain ⟨avgNew, avgOld, avgSpeedup, pairedRows⟩ := s
  unfold summary?
  simp only [Option.bind_eq_bind, Option.bind_eq_some_iff, Option.pure_def, Option.some.injEq,
    Summary.mk.injEq, List.length_map]
  constructor
  · rintro ⟨_, hnew, _, hold, rfl, rfl, hspeedup, hlength⟩
    exact ⟨hnew, hold, hspeedup, hlength⟩
  · rintro ⟨hnew, hold, hspeedup, hlength⟩
    exact ⟨_, hnew, _, hold, rfl, rfl, hspeedup, hlength⟩

/-- A table has a summary exactly if each version has a cell, be they paired or
not. -/
theorem isSome_summary?_iff [Scalar α] (t : ComparisonTable α) :
    t.summary?.isSome ↔ ∀ v, ∃ e x, t.get e v = some x := by
  have hversion (v : Version) :
      (∃ e x, t.get e v = some x) ↔ ∃ m, mean ((t.column v).map (·.2)) = some m := by
    rw [← not_iff_not, ← mean_column_eq_none_iff, ← Option.isSome_iff_exists,
      Option.not_isSome_iff_eq_none]
  simp only [hversion, Option.isSome_iff_exists, summary?_eq_some_iff]
  constructor
  · rintro ⟨s, hnew, hold, -, -⟩ v
    cases v with
    | new => exact ⟨_, hnew⟩
    | old => exact ⟨_, hold⟩
  · intro h
    obtain ⟨avgNew, hnew⟩ := h .new
    obtain ⟨avgOld, hold⟩ := h .old
    exact ⟨⟨avgNew, avgOld, _, _⟩, hnew, hold, rfl, rfl⟩

end ComparisonTable

namespace Summary

/-- A summary has the means of the two columns and of the speedups of a table, each
over its own rows. -/
structure Describes (s : Summary Binary64) (t : ComparisonTable Binary64) : Prop where
  avgNew : ∀ cells, Enumerates cells (fun e x => t.get e .new = some x) →
    mean (cells.map (·.2)) = some s.avgNew
  avgOld : ∀ cells, Enumerates cells (fun e x => t.get e .old = some x) →
    mean (cells.map (·.2)) = some s.avgOld
  avgSpeedup : ∀ series, Enumerates series t.HasSpeedup →
    mean (series.map (·.2)) = s.avgSpeedup
  pairedRows : ∀ series, Enumerates series t.HasSpeedup → series.length = s.pairedRows
  undefined_iff : s.avgSpeedup = none ↔ s.pairedRows = 0

theorem describes_of_summary? {t : ComparisonTable Binary64} {s : Summary Binary64}
    (h : t.summary? = some s) : s.Describes t := by
  obtain ⟨hnew, hold, hspeedup, hlength⟩ := ComparisonTable.summary?_eq_some_iff.1 h
  refine ⟨fun cells hcells => ?_, fun cells hcells => ?_, fun series hseries => ?_,
    fun series hseries => ?_, ?_⟩
  · rw [hcells.unique (t.enumerates_column .new), hnew]
  · rw [hcells.unique (t.enumerates_column .old), hold]
  · rw [hseries.unique t.enumerates_speedups, hspeedup]
  · rw [hseries.unique t.enumerates_speedups, hlength]
  · rw [← hspeedup, ← hlength, mean_eq_none_iff, List.map_eq_nil_iff, List.length_eq_zero_iff]

end Summary

end CycleComparison

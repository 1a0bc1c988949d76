import CycleComparison.Statistics.ComparisonTable
import CycleComparison.Statistics.RunningMean

/-!
# Comparing the versions

A row that has both versions has a speedup, old over new, unless its new cell is
zero or the quotient is no ordinary number. The summary of a table averages each
column on its own and the speedups by themselves, so the average speedup is a
mean of ratios and not a ratio of means.
-/

namespace CycleComparison

/-- The comparison of the versions in a table. -/
structure Summary (α : Type) where
  avgNew : α
  avgOld : α
  avgSpeedup : Option α
  pairedRows : Nat
  deriving DecidableEq

variable {α : Type} [Scalar α]

/-- The speedup of a row. -/
def Cells.speedup? (cells : Cells α) : Option α :=
  match cells.new, cells.old with
  | some new, some old =>
      let ratio := old / new
      if !Scalar.isZero new && Scalar.isFinite ratio then some ratio else none
  | _, _ => none

namespace ComparisonTable

/-- The speedups of the rows that have one, ascending. -/
def speedups (t : ComparisonTable α) : List (UInt64 × α) :=
  t.rows.filterMap fun (e, cells) => cells.speedup?.map (e, ·)

/-- The summary of a table in which both versions have a cell. -/
def summary? (t : ComparisonTable α) : Option (Summary α) := do
  let avgNew ← mean ((t.column .new).map (·.2))
  let avgOld ← mean ((t.column .old).map (·.2))
  let ratios := t.speedups.map (·.2)
  return { avgNew, avgOld, avgSpeedup := mean ratios, pairedRows := ratios.length }

end ComparisonTable

end CycleComparison

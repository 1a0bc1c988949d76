import CycleComparison.Statistics.ComparisonTable
import CycleComparison.Statistics.RunningMean

/-!
# Means of groups

Samples are grouped by precision, number of exceptions and version, and each
group is averaged by its own running mean in the order of the samples. A sample
without a value makes its precision present and counts nowhere else.
-/

namespace CycleComparison

/-- A value, where there is one, of what a benchmark measures. -/
structure Sample (α : Type) where
  classification : Classification
  value : Option α
  deriving DecidableEq

variable {α : Type} [Scalar α]

/-- Takes a value into the running mean of a cell. -/
def Cells.push (cells : Cells (RunningMean α)) (version : Version) (x : α) :
    Cells (RunningMean α) :=
  cells.set version (some (((cells.get version).getD .empty).push x))

/-- The running means of the groups. -/
abbrev Groups (α : Type) := PerPrecision (ComparisonTable (RunningMean α))

/-- Takes a sample into the running mean of its group. -/
def Groups.push (groups : Groups α) (sample : Sample α) : Groups α :=
  let kind := sample.classification
  let table := (groups.get kind.precision).getD .empty
  groups.set kind.precision (some (match sample.value with
    | none => table
    | some x => table.alter kind.exceptions fun cells => cells.push kind.version x))

/-- The table of the means of all groups, for each precision that occurs. -/
def aggregate (samples : List (Sample α)) : PerPrecision (ComparisonTable α) :=
  (samples.foldl Groups.push PerPrecision.empty).filterMap fun table =>
    some (table.filterMap RunningMean.mean?)

end CycleComparison

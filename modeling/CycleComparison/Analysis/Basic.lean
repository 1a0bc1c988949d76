import CycleComparison.Analysis.Event
import CycleComparison.Measurement.Basic
import CycleComparison.Statistics.Grouping
import CycleComparison.Statistics.Summary

/-!
# The analysis of a measurement table

An analysis reads the rows of a table as measurements, classifies their names,
averages each group and compares the versions of each precision. It fails only
if the table has no layout or if no name classifies. A precision with a single
version has a table but no summary.
-/

namespace CycleComparison

/-- Why a table has no analysis. -/
inductive AnalysisError where
  | layout (cause : LayoutError)
  /-- None of the measurements has a name that classifies. -/
  | emptyResult (measurements : Nat)
  deriving DecidableEq

namespace AnalysisError

def message : AnalysisError → String
  | .layout cause => cause.message
  | .emptyResult measurements =>
      s!"No valid data to compare: none of the {measurements} normalized rows follow the " ++
        "'<new|old>..<float|dbl>..<exceptions>' naming convention"

end AnalysisError

/-- What is known about a table after its analysis. -/
structure Analysis where
  layout : Layout
  rowsRead : Nat
  canonicalRows : Nat
  classified : List ClassifiedMeasurement
  tables : PerPrecision (ComparisonTable Binary64)
  summaries : PerPrecision (Summary Binary64)

def ClassifiedMeasurement.sample (m : ClassifiedMeasurement) : Sample Binary64 :=
  ⟨m.classification, m.measurement.cycles⟩

namespace Analysis

def ofMeasurements (table : MeasurementTable) : Analysis :=
  let classified := classifyAll table.measurements
  let tables := aggregate (classified.map ClassifiedMeasurement.sample)
  { layout := table.layout
    rowsRead := table.measurements.length + table.dropped
    canonicalRows := table.measurements.length
    classified, tables
    summaries := tables.filterMap ComparisonTable.summary? }

def built (entry : Precision × ComparisonTable Binary64) : Event :=
  .tableBuilt entry.1 entry.2.size entry.2.versions

/-- The event for the comparison in a table, if there is something to say. -/
def remark? (entry : Precision × ComparisonTable Binary64) : Option Event :=
  match entry.2.summary? with
  | none => some (.notCompared entry.1 entry.2.versions)
  | some summary =>
      if summary.avgSpeedup.isNone then some (.speedupUndefined entry.1) else none

end Analysis

/-- Analyzes the rows of a table and keeps a log. -/
def analyzeLogged (rows : List (List String)) : Run AnalysisError Analysis := do
  let table ← .ofExcept ((MeasurementTable.ofRows rows).mapError .layout)
  let kept := table.measurements.length
  .report [.normalized table.layout.isHeadless kept table.dropped]
  let analysis := Analysis.ofMeasurements table
  .report [.classified analysis.classified.length (kept - analysis.classified.length)]
  if analysis.classified.isEmpty then .ofExcept (.error (.emptyResult kept))
  else do
    .report (analysis.tables.toList.map Analysis.built)
    .report (analysis.tables.toList.filterMap Analysis.remark?)
    return analysis

def analyze (rows : List (List String)) : Except AnalysisError Analysis :=
  (analyzeLogged rows).outcome

end CycleComparison

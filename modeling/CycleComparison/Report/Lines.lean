import CycleComparison.Analysis.Basic

/-!
# Report lines

A comparison is told in at most two sentences: the averages of both versions
with one place, and the average speedup, where there is one, with two.
-/

namespace CycleComparison

/-- The name of a precision at the beginning of a line. -/
def Precision.heading (precision : Precision) : String := capitalize precision.label

namespace Summary

def averagesLine (precision : Precision) (summary : Summary Binary64) : String :=
  s!"{precision.heading}: average cycles per run — new: {summary.avgNew.fixed 1}, " ++
    s!"old: {summary.avgOld.fixed 1}."

def speedupLine? (precision : Precision) (summary : Summary Binary64) : Option String :=
  summary.avgSpeedup.map fun speedup =>
    s!"{precision.heading}: new is on average {speedup.fixed 2}× faster than old."

/-- The lines of a comparison. -/
def lines (precision : Precision) (summary : Summary Binary64) : List String :=
  summary.averagesLine precision :: (summary.speedupLine? precision).toList

end Summary

/-- The lines of all comparisons, in the order of the precisions. -/
def Analysis.reportLines (analysis : Analysis) : List String :=
  analysis.summaries.toList.flatMap fun (precision, summary) => summary.lines precision

end CycleComparison

import CycleComparison.Analysis.Basic
import CycleComparison.Delimited.Reader
import CycleComparison.Delimited.Writer
import CycleComparison.Statistics.LongForm

/-!
# Analyses of delimited text

Delimited text is loaded into rows and then treated as a table. What can fail is
the reading, the analysis, and the delivery of a result that is written as
delimited text again: the measurements in the usual order of columns, or the
long form of the comparison tables.
-/

namespace CycleComparison

/-- Why the processing of delimited text fails. -/
inductive ProcessingError where
  | load (cause : Delimited.LoadError)
  | analysis (cause : AnalysisError)
  | write (cause : Delimited.WriteError)
  deriving DecidableEq

namespace ProcessingError

def message : ProcessingError → String
  | .load cause => cause.message
  | .analysis cause => cause.message
  | .write cause => cause.message

end ProcessingError

def loadLogged (options : Delimited.ReadOptions) (source : Delimited.Source) :
    Run ProcessingError (List (List String)) := do
  let rows ← .ofExcept ((Delimited.load options source).mapError .load)
  .report [.rowsRead rows.length]
  return rows

def analyzeSourceLogged (options : Delimited.ReadOptions) (source : Delimited.Source) :
    Run ProcessingError Analysis := do
  let rows ← loadLogged options source
  (analyzeLogged rows).mapError .analysis

def analyzeSource (options : Delimited.ReadOptions) (source : Delimited.Source) :
    Except ProcessingError Analysis :=
  (analyzeSourceLogged options source).outcome

def measureSource (options : Delimited.ReadOptions) (source : Delimited.Source) :
    Except ProcessingError MeasurementTable := do
  let rows ← (Delimited.load options source).mapError .load
  (MeasurementTable.ofRows rows).mapError fun cause => .analysis (.layout cause)

def MeasurementTable.bytes (options : Delimited.WriteOptions) (table : MeasurementTable) :
    List UInt8 :=
  Delimited.tableBytes options Measurement.header (table.measurements.map Measurement.toRow)

end CycleComparison

import CycleComparison.Report.Lines

/-!
# Reports

A report is a self-contained account of an analysis: where the input came from,
when the report was made, how many rows survived each stage, and a section for
each precision. A report can also be read from a file, so nothing ties its
sections to each other or to its counts; `Report.ofAnalysis` gives those that
an analysis stands behind.
-/

namespace CycleComparison

/-- A row of a comparison table with its speedup. -/
structure ReportRow where
  exceptions : UInt64
  new : Option Binary64
  old : Option Binary64
  speedup : Option Binary64
  deriving DecidableEq

/-- The results for one precision. -/
structure ReportSection where
  precision : Precision
  rows : List ReportRow
  summary : Option (Summary Binary64)
  lines : List String
  deriving DecidableEq

/-- An account of an analysis. -/
structure Report where
  source : String
  timestamp : String
  rowsRead : Nat
  rowsNormalized : Nat
  rowsKept : Nat
  sections : List ReportSection
  deriving DecidableEq

def ReportRow.ofCells (exceptions : UInt64) (cells : Cells Binary64) : ReportRow where
  exceptions := exceptions
  new := cells.new
  old := cells.old
  speedup := cells.speedup?

namespace ReportSection

def ofTable (precision : Precision) (table : ComparisonTable Binary64)
    (summary : Option (Summary Binary64)) : ReportSection where
  precision := precision
  rows := table.rows.map fun (exceptions, cells) => .ofCells exceptions cells
  summary := summary
  lines := (summary.map (Summary.lines precision)).getD []

/-- Whether both versions were measured. -/
def isComparable (part : ReportSection) : Bool := part.summary.isSome

def addRow (table : ComparisonTable Binary64) (row : ReportRow) : ComparisonTable Binary64 :=
  let withNew := match row.new with
    | some x => table.insert row.exceptions .new x
    | none => table
  match row.old with
    | some x => withNew.insert row.exceptions .old x
    | none => withNew

def table (part : ReportSection) : ComparisonTable Binary64 :=
  part.rows.foldl addRow .empty

end ReportSection

namespace Report

def ofAnalysis (source timestamp : String) (analysis : Analysis) : Report where
  source := source
  timestamp := timestamp
  rowsRead := analysis.rowsRead
  rowsNormalized := analysis.canonicalRows
  rowsKept := analysis.classified.length
  sections := analysis.tables.toList.map fun (precision, table) =>
    .ofTable precision table (analysis.summaries.get precision)

def get? (report : Report) (precision : Precision) : Option ReportSection :=
  report.sections.find? fun part => part.precision == precision

def lines (report : Report) : List String := report.sections.flatMap ReportSection.lines

/-- The rows that did not survive. -/
def rowsDropped (report : Report) : Nat := report.rowsRead - report.rowsKept

/-- The comparison tables of the sections; of several sections of one precision
the last one counts. -/
def tables (report : Report) : PerPrecision (ComparisonTable Binary64) :=
  report.sections.foldl (fun found part => found.set part.precision (some part.table)) .empty

end Report

end CycleComparison

import CycleComparison.Decimal.Layout
import CycleComparison.Delimited.Writer
import CycleComparison.Statistics.ComparisonTable

/-!
# The long form of comparison tables

The long form has a row for every cell of the tables: its precision, number of
exceptions and version, and its value without an exponent. The rows follow the
order of the precisions, then that of the exceptions, then that of the versions.
-/

namespace CycleComparison

namespace LongForm

def header : List String := ["type", "exceptions", "version", "mean_cycles"]

def row (precision : Precision) (exceptions : UInt64) (version : Version) (x : Binary64) :
    List String :=
  [precision.label, Decimal.naturalText exceptions.toNat, version.label, x.positional]

def rows (tables : PerPrecision (ComparisonTable Binary64)) : List (List String) :=
  tables.toList.flatMap fun (precision, table) =>
    table.cells.map fun (exceptions, version, x) => row precision exceptions version x

/-- The long form as delimited text. -/
def bytes (options : Delimited.WriteOptions) (tables : PerPrecision (ComparisonTable Binary64)) :
    List UInt8 :=
  Delimited.tableBytes options header (rows tables)

end LongForm

end CycleComparison

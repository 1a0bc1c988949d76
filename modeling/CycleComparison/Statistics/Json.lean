import CycleComparison.Benchmark.Json
import CycleComparison.Statistics.Summary

/-!
# Comparison tables and summaries in JSON

A comparison table is an object of rows, named by their numbers of exceptions,
and a row is an object of cells, named by their versions. Where a name is
repeated the last one counts. The number of a row is written as in JSON, without
a sign, a leading zero or an escape.
-/

namespace CycleComparison

namespace Cells

def toJson (cells : Cells Binary64) : Json :=
  .ofMembers (Version.all.filterMap fun v =>
    (cells.get v).map fun x => (v.label, x.toJson))

/-- A row with the cell of one more member. -/
def addMember? (cells : Cells Binary64) (member : List Json.Symbol × Json) :
    Option (Cells Binary64) := do
  let version ← (Json.textOf? member.1).bind Version.ofLabel?
  let x ← member.2.binary64?
  return cells.set version (some x)

def ofJson? : Json → Option (Cells Binary64)
  | .object members => members.foldlM addMember? .empty
  | _ => none

end Cells

namespace ComparisonTable

/-- The number of exceptions that names a row. -/
def rowNumber? (name : List Json.Symbol) : Option UInt64 := do
  let digits ← name.mapM fun
    | .plain c => some c
    | _ => none
  let n ← Decimal.natural? digits
  if digits.length = 1 ∨ digits.head? ≠ some '0' then uint64OfNat? n else none

def toJson (table : ComparisonTable Binary64) : Json :=
  .ofMembers [("rows", .ofMembers (table.rows.map fun (exceptions, cells) =>
    (Decimal.naturalText exceptions.toNat, cells.toJson)))]

/-- A table with the row of one more member. -/
def addMember? (table : ComparisonTable Binary64) (member : List Json.Symbol × Json) :
    Option (ComparisonTable Binary64) := do
  let exceptions ← rowNumber? member.1
  let cells ← Cells.ofJson? member.2
  return table.setRow exceptions cells

def ofJson? (value : Json) : Option (ComparisonTable Binary64) :=
  match value.fields? ["rows"] with
  | some [some (.object members)] => members.foldlM addMember? .empty
  | _ => none

end ComparisonTable

namespace Summary

def toJson (summary : Summary Binary64) : Json :=
  .ofMembers
    [("avg_new", summary.avgNew.toJson), ("avg_old", summary.avgOld.toJson),
     ("avg_speedup", .ofOption Binary64.toJson summary.avgSpeedup),
     ("paired_rows", .ofNat summary.pairedRows)]

def ofJson? (value : Json) : Option (Summary Binary64) :=
  match value.fields? ["avg_new", "avg_old", "avg_speedup", "paired_rows"] with
  | some [some avgNew, some avgOld, avgSpeedup, some pairedRows] => do
      return { avgNew := ← avgNew.binary64?
               avgOld := ← avgOld.binary64?
               avgSpeedup := ← Json.option? Json.binary64? avgSpeedup
               pairedRows := ← pairedRows.count? }
  | _ => none

end Summary

end CycleComparison

import CycleComparison.Benchmark.Name
import CycleComparison.Decimal.Layout
import CycleComparison.Measurement.Layout

/-!
# Measurements

A row of a table is a measurement if it reaches all four columns and its id is a
whole number that fits a signed word. The other cells cannot fail: a name and an
iteration count are kept as texts, and cycles that spell no finite number are
undefined.
-/

namespace CycleComparison

structure Measurement where
  id : Int64
  name : String
  iterations : String
  cycles : Option Binary64
  deriving DecidableEq

/-- The finite number that a cell spells. -/
def finiteOfText? (cell : String) : Option Binary64 :=
  (Binary64.ofText? (trim cell).toList).filter Binary64.isFinite

/-- The id that a cell spells: a whole number, or a number whose value is whole. -/
def idOfText? (cell : String) : Option Int64 :=
  let text := (trim cell).toList
  match (Decimal.whole? text).bind int64OfInt? with
  | some id => some id
  | none => ((Binary64.ofText? text).bind Binary64.whole?).bind int64OfInt?

namespace Measurement

def ofRow? (columns : ColumnPositions) (row : List String) : Option Measurement := do
  let id ← row[columns.id]?
  let name ← row[columns.name]?
  let iterations ← row[columns.iterations]?
  let cycles ← row[columns.cycles]?
  return { id := ← idOfText? id, name, iterations := trim iterations,
           cycles := finiteOfText? cycles }

/-- The cells of a measurement in the usual order; undefined cycles are empty. -/
def toRow (m : Measurement) : List String :=
  [Decimal.wholeText m.id.toInt, m.name, m.iterations, (m.cycles.map Binary64.positional).getD ""]

/-- The labels of these cells. -/
def header : List String := Column.all.map Column.label

end Measurement

/-- The measurements of a table, in order, and how many of its rows of data hold
none. -/
structure MeasurementTable where
  layout : Layout
  measurements : List Measurement
  dropped : Nat
  deriving DecidableEq

namespace MeasurementTable

def ofRows (rows : List (List String)) : Except LayoutError MeasurementTable :=
  match Layout.ofFirstRow rows.head? with
  | .error e => .error e
  | .ok layout =>
      let data := layout.dataRows rows
      let measurements := data.filterMap (Measurement.ofRow? layout.columns)
      .ok { layout, measurements, dropped := data.length - measurements.length }

end MeasurementTable

/-- A measurement together with what its name says that it measures. -/
structure ClassifiedMeasurement where
  measurement : Measurement
  classification : Classification
  deriving DecidableEq

namespace ClassifiedMeasurement

/-- A measurement with the classification of its name, if the name has one. -/
def ofMeasurement? (measurement : Measurement) : Option ClassifiedMeasurement :=
  (classify measurement.name).map fun classification => { measurement, classification }

def ofPrecision (precision : Precision) (ms : List ClassifiedMeasurement) :
    List ClassifiedMeasurement :=
  ms.filter fun m => m.classification.precision == precision

end ClassifiedMeasurement

/-- The measurements whose names classify, in order. -/
def classifyAll (measurements : List Measurement) : List ClassifiedMeasurement :=
  measurements.filterMap ClassifiedMeasurement.ofMeasurement?

end CycleComparison

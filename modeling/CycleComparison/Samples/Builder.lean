import CycleComparison.Delimited.Reader
import CycleComparison.Measurement.Basic

/-!
# Building sample tables

A sample table is built row by row, with or without a header. Its text joins the
cells by commas as they are, so a cell that holds a comma or a quote takes part
in how the text is split again.
-/

namespace CycleComparison

/-- A table of texts with an optional header. -/
structure SampleTable where
  header : Option (List String)
  data : List (List String)
  deriving DecidableEq

namespace SampleTable

def headless : SampleTable := ⟨none, []⟩

def headed (labels : List String) : SampleTable := ⟨some labels, []⟩

/-- A table with the usual labels. -/
def usual : SampleTable := headed Measurement.header

def addCells (table : SampleTable) (cells : List String) : SampleTable :=
  { table with data := table.data ++ [cells] }

/-- The table with one more row for a measurement, in the usual order. -/
def addRow (table : SampleTable) (id : Int64) (name : String) (iterations : UInt64)
    (cycles : String) : SampleTable :=
  table.addCells [Decimal.wholeText id.toInt, name, Decimal.naturalText iterations.toNat, cycles]

def rows (table : SampleTable) : List (List String) := table.header.toList ++ table.data

def text (table : SampleTable) : String :=
  String.join (table.rows.map fun row => ",".intercalate row ++ "\n")

end SampleTable

/-- The trimmed rows of a text, of any number and width. -/
def splitRows (text : String) : List (List String) :=
  (Delimited.outcomes .default (.ofText text)).filterMap Except.toOption

end CycleComparison

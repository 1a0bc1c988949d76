import CycleComparison.Text.Blank

/-!
# The layout of a measurement table

A table of measurements either has a header or is headless. A header names the
four columns in any order, under their own labels or an alias, among any others;
where a column is named twice the first one counts. A table whose first row
names no id column is headless: it has exactly the four columns in their usual
order, and its first row is data.
-/

namespace CycleComparison

/-- The columns that a measurement needs. -/
inductive Column where
  | id
  | name
  | iterations
  | cycles
  deriving DecidableEq

namespace Column

def all : List Column := [.id, .name, .iterations, .cycles]

def label : Column → String
  | .id => "id"
  | .name => "name"
  | .iterations => "iterations"
  | .cycles => "cycles"

/-- The column that a header cell names, by its label or an alias; blanks around
the name do not count. -/
def ofLabel? (cell : String) : Option Column :=
  match trim cell with
  | "id" => some .id
  | "benchmark_number" => some .id
  | "name" => some .name
  | "iterations" => some .iterations
  | "cycles" => some .cycles
  | "cycles_per_tuple" => some .cycles
  | _ => none

/-- The first position at which a header names a column. -/
def position? (header : List String) (column : Column) : Option Nat :=
  header.findIdx? fun cell => ofLabel? cell == some column

end Column

structure ColumnPositions where
  id : Nat
  name : Nat
  iterations : Nat
  cycles : Nat
  deriving DecidableEq

namespace ColumnPositions

/-- The four columns and no other, in their usual order. -/
def usual : ColumnPositions := ⟨0, 1, 2, 3⟩

end ColumnPositions

/-- How the rows of a table are read. -/
inductive Layout where
  /-- The first row is a header. -/
  | headed (columns : ColumnPositions)
  /-- Every row is data. -/
  | headless
  deriving DecidableEq

/-- Why a table has no layout. -/
inductive LayoutError where
  /-- There is an id column, or no row at all, and these columns are missing. -/
  | missingColumns (labels : List String)
  /-- There is no id column, and the number of columns is not four. -/
  | width (found : Nat)
  deriving DecidableEq

namespace LayoutError

/-- The error that lists missing columns in ascending order, each once. -/
def missing (labels : List String) : LayoutError :=
  .missingColumns (labels.mergeSort fun a b => decide (a ≤ b)).eraseReps

def message : LayoutError → String
  | .missingColumns labels => "Missing required columns: " ++ ", ".intercalate labels
  | .width found =>
      "Headerless input must have exactly 4 columns (id, name, iterations, cycles), " ++
        s!"found {found}"

end LayoutError

namespace Layout

/-- The layout that the first row of a table shows. -/
def ofFirstRow : Option (List String) → Except LayoutError Layout
  | none => .error (.missing (Column.all.map Column.label))
  | some row =>
      let position := Column.position? row
      match position .id, position .name, position .iterations, position .cycles with
      | none, _, _, _ => if row.length = 4 then .ok .headless else .error (.width row.length)
      | some id, some name, some iterations, some cycles =>
          .ok (.headed { id, name, iterations, cycles })
      | some _, _, _, _ =>
          .error (.missing
            ((Column.all.filter fun column => (position column).isNone).map Column.label))

def columns : Layout → ColumnPositions
  | .headed columns => columns
  | .headless => .usual

def isHeadless : Layout → Bool
  | .headed _ => false
  | .headless => true

def dataRows (layout : Layout) (rows : List (List String)) : List (List String) :=
  match layout with
  | .headed _ => rows.drop 1
  | .headless => rows

end Layout

end CycleComparison

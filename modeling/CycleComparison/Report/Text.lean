import CycleComparison.Report.Basic

/-!
# Reports as text

The short form of a report is its lines alone. The detailed form frames them
with the origin of the report and the tables of the sections, in columns of
fixed width with the values at the right.
-/

namespace CycleComparison

/-- Lines of text, each ended by a line feed. -/
def joinLines (lines : List String) : String := String.join (lines.map (· ++ "\n"))

/-- A text with blanks before it, up to a width. -/
def alignRight (width : Nat) (text : String) : String :=
  String.ofList (List.replicate (width - text.length) ' ') ++ text

namespace ReportRow

/-- The cells of a row, an absent value as the given text. -/
def cells (absent : String) (row : ReportRow) : List String :=
  let cell (places : Nat) (x : Option Binary64) : String :=
    (x.map (Binary64.fixed places)).getD absent
  [Decimal.naturalText row.exceptions.toNat, cell 1 row.new, cell 1 row.old, cell 2 row.speedup]

end ReportRow

namespace Report

def toText (report : Report) : String := joinLines report.lines

/-- The number of characters in a rule. -/
def ruleWidth : Nat := 60

def rule (c : Char) : String := String.ofList (List.replicate ruleWidth c)

def columnWidths : List Nat := [10, 12, 12, 8]

/-- A row of a table in columns. -/
def columnsText (cells : List String) : String :=
  "  ".intercalate (List.zipWith alignRight columnWidths cells)

/-- The sentence that counts the rows. -/
def countsText (report : Report) : String :=
  s!"{report.rowsRead} read, {report.rowsNormalized} normalized, {report.rowsKept} kept"

def sectionText (part : ReportSection) : List String :=
  ["", rule '-', allCapitals part.precision.label ++ ":", rule '-',
   columnsText ["exceptions", "new", "old", "speedup"]] ++
    part.rows.map (fun row => columnsText (row.cells "-")) ++
    [""] ++
    (if part.lines = [] then ["Only one version measured, no comparison."] else part.lines)

def toDetailedText (report : Report) : String :=
  joinLines ([rule '=', "CYCLE COMPARISON: " ++ report.source, rule '=',
    "Timestamp: " ++ report.timestamp, "Rows: " ++ report.countsText] ++
      report.sections.flatMap sectionText ++ [rule '='])

end Report

end CycleComparison

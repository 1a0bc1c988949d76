import CycleComparison.Report.Text

/-!
# Reports as Markdown

A report in Markdown has a head, a list of the lines of all sections, if there
are any, and a table for each section.
-/

namespace CycleComparison

namespace Report

def markdownRow (cells : List String) : String := "| " ++ " | ".intercalate cells ++ " |"

/-- The list of the lines of a report. -/
def markdownSummary (report : Report) : List String :=
  if report.lines = [] then []
  else ["## Summary", ""] ++ report.lines.map ("- " ++ ·) ++ [""]

def markdownSection (part : ReportSection) : List String :=
  ["## " ++ part.precision.label, "",
   markdownRow ["Exceptions", "New", "Old", "Speedup"],
   "|-----------:|----:|----:|--------:|"] ++
    part.rows.map (fun row => markdownRow (row.cells "N/A")) ++ [""]

def toMarkdown (report : Report) : String :=
  joinLines (["# Cycle comparison: " ++ report.source, "",
    "**Timestamp:** " ++ report.timestamp, "", "**Rows:** " ++ report.countsText, ""] ++
      report.markdownSummary ++ report.sections.flatMap markdownSection)

end Report

end CycleComparison

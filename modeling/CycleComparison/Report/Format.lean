import CycleComparison.Files.Path
import CycleComparison.Report.Json
import CycleComparison.Report.Markdown
import CycleComparison.Statistics.LongForm

/-!
# Formats of exported reports

The extension of a path selects the format of the report that is written there;
without a known extension it is text.
-/

namespace CycleComparison

/-- The formats in which a report is exported. -/
inductive ReportFormat where
  | text
  | json
  | markdown
  | csv
  deriving DecidableEq

namespace ReportFormat

/-- The format of an extension, in any case of letters. -/
def ofExtension (extension : String) : ReportFormat :=
  match String.ofList (extension.toList.map Char.toLower) with
  | "json" => .json
  | "md" => .markdown
  | "markdown" => .markdown
  | "csv" => .csv
  | _ => .text

/-- The format that a path selects. -/
def ofPath (path : String) : ReportFormat :=
  ((Path.extension? path).map ofExtension).getD .text

end ReportFormat

def Report.render (report : Report) : ReportFormat → List UInt8
  | .text => encodeUtf8 report.toText
  | .json => encodeUtf8 report.toJsonText
  | .markdown => encodeUtf8 report.toMarkdown
  | .csv => LongForm.bytes .default report.tables

end CycleComparison

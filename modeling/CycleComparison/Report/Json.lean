import CycleComparison.Json.Reader
import CycleComparison.Json.Writer
import CycleComparison.Report.Basic
import CycleComparison.Statistics.Json

/-!
# Reports in JSON

A report, its sections and their rows are records. A report is written on
indented lines and can be read back from its text.
-/

namespace CycleComparison

namespace ReportRow

def toJson (row : ReportRow) : Json :=
  .ofMembers
    [("exceptions", .ofNat row.exceptions.toNat), ("new", .ofOption Binary64.toJson row.new),
     ("old", .ofOption Binary64.toJson row.old),
     ("speedup", .ofOption Binary64.toJson row.speedup)]

def ofJson? (value : Json) : Option ReportRow :=
  match value.fields? ["exceptions", "new", "old", "speedup"] with
  | some [some exceptions, new, old, speedup] => do
      return { exceptions := ← exceptions.uint64?
               new := ← Json.option? Json.binary64? new
               old := ← Json.option? Json.binary64? old
               speedup := ← Json.option? Json.binary64? speedup }
  | _ => none

end ReportRow

namespace ReportSection

def toJson (part : ReportSection) : Json :=
  .ofMembers
    [("type", part.precision.toJson), ("rows", .ofList ReportRow.toJson part.rows),
     ("summary", .ofOption Summary.toJson part.summary),
     ("lines", .ofList Json.ofText part.lines)]

def ofJson? (value : Json) : Option ReportSection :=
  match value.fields? ["type", "rows", "summary", "lines"] with
  | some [some precision, some rows, summary, some lines] => do
      return { precision := ← Precision.ofJson? Json.isNull precision
               rows := ← rows.list? ReportRow.ofJson?
               summary := ← Json.option? Summary.ofJson? summary
               lines := ← lines.list? Json.text? }
  | _ => none

end ReportSection

namespace Report

def toJson (report : Report) : Json :=
  .ofMembers
    [("source", .ofText report.source), ("timestamp", .ofText report.timestamp),
     ("records_read", .ofNat report.rowsRead),
     ("records_normalized", .ofNat report.rowsNormalized),
     ("records_kept", .ofNat report.rowsKept),
     ("types", .ofList ReportSection.toJson report.sections)]

def ofJson? (value : Json) : Option Report :=
  match value.fields? ["source", "timestamp", "records_read", "records_normalized",
      "records_kept", "types"] with
  | some [some source, some timestamp, some read, some normalized, some kept, some sections] => do
      return { source := ← source.text?
               timestamp := ← timestamp.text?
               rowsRead := ← read.count?
               rowsNormalized := ← normalized.count?
               rowsKept := ← kept.count?
               sections := ← sections.list? ReportSection.ofJson? }
  | _ => none

def toJsonText (report : Report) : String := report.toJson.toPrettyText

def ofJsonText? (text : String) : Option Report := (Json.read? text).bind ofJson?

end Report

end CycleComparison

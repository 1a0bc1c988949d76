import CycleComparison.Proofs.Measurement.ReadBack
import CycleComparison.Report.Json

/-!
# Reading a written report

The text of a report is read as the same report with every number in it read
again. Everything else is kept: the texts with all their characters, the counts,
the absent values and the order of the rows and sections. A report is therefore
read back exactly where each of its numbers is, and the numbers with few digits
are.
-/

namespace CycleComparison

open Binary64 (reread)

namespace ReportRow

def numbers (row : ReportRow) : List Binary64 :=
  row.new.toList ++ row.old.toList ++ row.speedup.toList

def mapNumbers (f : Binary64 → Binary64) (row : ReportRow) : ReportRow :=
  { row with new := row.new.map f, old := row.old.map f, speedup := row.speedup.map f }

theorem mapNumbers_eq_self_iff {f : Binary64 → Binary64} {row : ReportRow} :
    row.mapNumbers f = row ↔ ∀ x ∈ row.numbers, f x = x := by
  obtain ⟨exceptions, new, old, speedup⟩ := row
  simp [mapNumbers, numbers, optionMap_eq_self_iff, or_imp, forall_and]

theorem fields?_toJson (row : ReportRow) :
    row.toJson.fields? ["exceptions", "new", "old", "speedup"] =
      some [some (.ofNat row.exceptions.toNat), some (.ofOption Binary64.toJson row.new),
        some (.ofOption Binary64.toJson row.old),
        some (.ofOption Binary64.toJson row.speedup)] :=
  Json.fields?_ofMembers (by simp)

theorem ofJson?_toJson {row : ReportRow} (h : ∀ x ∈ row.numbers, x.isFinite) :
    ofJson? row.toJson = some (row.mapNumbers reread) := by
  simp only [numbers, List.mem_append, Option.mem_toList, or_imp, forall_and] at h
  obtain ⟨⟨hnew, hold⟩, hspeedup⟩ := h
  simp [ofJson?, fields?_toJson, Json.uint64?_ofNat_toNat, mapNumbers,
    Binary64.option?_ofOption_toJson hnew, Binary64.option?_ofOption_toJson hold,
    Binary64.option?_ofOption_toJson hspeedup]

theorem isWritable_toJson (row : ReportRow) : row.toJson.isWritable := by
  apply Json.isWritable_ofMembers
  simp [Json.isWritable_ofNat, Json.isWritable_ofOption Binary64.isWritable_toJson]

end ReportRow

namespace Summary

def numbers (summary : Summary Binary64) : List Binary64 :=
  [summary.avgNew, summary.avgOld] ++ summary.avgSpeedup.toList

def mapNumbers (f : Binary64 → Binary64) (summary : Summary Binary64) : Summary Binary64 :=
  { summary with avgNew := f summary.avgNew, avgOld := f summary.avgOld
                 avgSpeedup := summary.avgSpeedup.map f }

theorem mapNumbers_eq_self_iff {f : Binary64 → Binary64} {summary : Summary Binary64} :
    summary.mapNumbers f = summary ↔ ∀ x ∈ summary.numbers, f x = x := by
  obtain ⟨avgNew, avgOld, avgSpeedup, pairedRows⟩ := summary
  simp [mapNumbers, numbers, optionMap_eq_self_iff]

theorem fields?_toJson (summary : Summary Binary64) :
    summary.toJson.fields? ["avg_new", "avg_old", "avg_speedup", "paired_rows"] =
      some [some summary.avgNew.toJson, some summary.avgOld.toJson,
        some (.ofOption Binary64.toJson summary.avgSpeedup),
        some (.ofNat summary.pairedRows)] :=
  Json.fields?_ofMembers (by simp)

theorem ofJson?_toJson {summary : Summary Binary64} (h : ∀ x ∈ summary.numbers, x.isFinite)
    (hcount : summary.pairedRows < UInt64.size) :
    ofJson? summary.toJson = some (summary.mapNumbers reread) := by
  simp only [numbers, List.cons_append, List.nil_append, List.forall_mem_cons,
    Option.mem_toList] at h
  obtain ⟨hnew, hold, hspeedup⟩ := h
  simp [ofJson?, fields?_toJson, Json.count?_ofNat hcount, mapNumbers,
    Binary64.binary64?_toJson hnew, Binary64.binary64?_toJson hold,
    Binary64.option?_ofOption_toJson hspeedup]

theorem isWritable_toJson (summary : Summary Binary64) : summary.toJson.isWritable := by
  apply Json.isWritable_ofMembers
  simp [Json.isWritable_ofNat, Binary64.isWritable_toJson,
    Json.isWritable_ofOption Binary64.isWritable_toJson]

end Summary

namespace ReportSection

def numbers (part : ReportSection) : List Binary64 :=
  part.rows.flatMap ReportRow.numbers ++ part.summary.toList.flatMap Summary.numbers

def mapNumbers (f : Binary64 → Binary64) (part : ReportSection) : ReportSection :=
  { part with rows := part.rows.map (ReportRow.mapNumbers f)
              summary := part.summary.map (Summary.mapNumbers f) }

theorem forall_mem_numbers_iff {P : Binary64 → Prop} {part : ReportSection} :
    (∀ x ∈ part.numbers, P x) ↔
      (∀ row ∈ part.rows, ∀ x ∈ row.numbers, P x) ∧
        ∀ summary ∈ part.summary, ∀ x ∈ summary.numbers, P x := by
  simp only [numbers, List.forall_mem_append, List.forall_mem_flatMap, Option.mem_toList,
    Option.mem_def]

theorem mapNumbers_eq_self_iff {f : Binary64 → Binary64} {part : ReportSection} :
    part.mapNumbers f = part ↔ ∀ x ∈ part.numbers, f x = x := by
  rw [forall_mem_numbers_iff]
  obtain ⟨precision, rows, summary, lines⟩ := part
  simp [mapNumbers, optionMap_eq_self_iff, listMap_eq_self_iff,
    ReportRow.mapNumbers_eq_self_iff, Summary.mapNumbers_eq_self_iff]

theorem fields?_toJson (part : ReportSection) :
    part.toJson.fields? ["type", "rows", "summary", "lines"] =
      some [some part.precision.toJson, some (.ofList ReportRow.toJson part.rows),
        some (.ofOption Summary.toJson part.summary),
        some (.ofList Json.ofText part.lines)] :=
  Json.fields?_ofMembers (by simp)

theorem ofJson?_toJson {part : ReportSection} (h : ∀ x ∈ part.numbers, x.isFinite)
    (hcount : ∀ summary ∈ part.summary, summary.pairedRows < UInt64.size) :
    ofJson? part.toJson = some (part.mapNumbers reread) := by
  obtain ⟨hrows, hsummary⟩ := forall_mem_numbers_iff.1 h
  have hrows : (Json.ofList ReportRow.toJson part.rows).list? ReportRow.ofJson? = _ :=
    Json.list?_ofList fun row hrow => ReportRow.ofJson?_toJson (hrows row hrow)
  have hsummary : Json.option? Summary.ofJson? (some (.ofOption Summary.toJson part.summary)) = _ :=
    Json.option?_ofOption fun summary hmem =>
      ⟨nofun, Summary.ofJson?_toJson (hsummary summary hmem) (hcount summary hmem)⟩
  have hlines : (Json.ofList Json.ofText part.lines).list? Json.text? =
      some (part.lines.map id) := Json.list?_ofList fun line _ => Json.text?_ofText line
  simp [ofJson?, fields?_toJson, Precision.ofJson?_toJson, hrows, hsummary, hlines, mapNumbers]

theorem isWritable_toJson (part : ReportSection) : part.toJson.isWritable := by
  have hprecision : part.precision.toJson.isWritable := Json.isWritable_ofText _
  have hrows := Json.isWritable_ofList fun row (_ : row ∈ part.rows) => row.isWritable_toJson
  have hsummary := Json.isWritable_ofOption Summary.isWritable_toJson part.summary
  have hlines := Json.isWritable_ofList fun line (_ : line ∈ part.lines) =>
    Json.isWritable_ofText line
  apply Json.isWritable_ofMembers
  simp [hprecision, hrows, hsummary, hlines]

end ReportSection

namespace Report

def numbers (report : Report) : List Binary64 := report.sections.flatMap ReportSection.numbers

def mapNumbers (f : Binary64 → Binary64) (report : Report) : Report :=
  { report with sections := report.sections.map (ReportSection.mapNumbers f) }

/-- The counts of a report are machine words. -/
structure HasWordCounts (report : Report) : Prop where
  rowsRead : report.rowsRead < UInt64.size
  rowsNormalized : report.rowsNormalized < UInt64.size
  rowsKept : report.rowsKept < UInt64.size
  pairedRows : ∀ part ∈ report.sections, ∀ summary ∈ part.summary,
    summary.pairedRows < UInt64.size

theorem mapNumbers_eq_self_iff {f : Binary64 → Binary64} {report : Report} :
    report.mapNumbers f = report ↔ ∀ x ∈ report.numbers, f x = x := by
  rw [numbers, List.forall_mem_flatMap]
  obtain ⟨source, timestamp, rowsRead, rowsNormalized, rowsKept, sections⟩ := report
  simp [mapNumbers, listMap_eq_self_iff, ReportSection.mapNumbers_eq_self_iff]

theorem fields?_toJson (report : Report) :
    report.toJson.fields? ["source", "timestamp", "records_read", "records_normalized",
        "records_kept", "types"] =
      some [some (.ofText report.source), some (.ofText report.timestamp),
        some (.ofNat report.rowsRead), some (.ofNat report.rowsNormalized),
        some (.ofNat report.rowsKept),
        some (.ofList ReportSection.toJson report.sections)] :=
  Json.fields?_ofMembers (by simp)

theorem ofJson?_toJson {report : Report} (h : ∀ x ∈ report.numbers, x.isFinite)
    (hcounts : report.HasWordCounts) :
    ofJson? report.toJson = some (report.mapNumbers reread) := by
  rw [numbers, List.forall_mem_flatMap] at h
  have hsections : (Json.ofList ReportSection.toJson report.sections).list?
      ReportSection.ofJson? = _ :=
    Json.list?_ofList fun part hpart =>
      ReportSection.ofJson?_toJson (h part hpart) (hcounts.pairedRows part hpart)
  simp [ofJson?, fields?_toJson, Json.count?_ofNat hcounts.rowsRead,
    Json.count?_ofNat hcounts.rowsNormalized, Json.count?_ofNat hcounts.rowsKept, hsections,
    mapNumbers]

theorem isWritable_toJson (report : Report) : report.toJson.isWritable := by
  have hsections := Json.isWritable_ofList fun part (_ : part ∈ report.sections) =>
    part.isWritable_toJson
  apply Json.isWritable_ofMembers
  simp [Json.isWritable_ofText, Json.isWritable_ofNat, hsections]

/-- The text of a report is read as the report with its numbers read again. -/
theorem ofJsonText?_toJsonText {report : Report} (h : ∀ x ∈ report.numbers, x.isFinite)
    (hcounts : report.HasWordCounts) :
    ofJsonText? report.toJsonText = some (report.mapNumbers reread) := by
  have hread : Json.read? report.toJsonText = some report.toJson :=
    Json.read?_write Json.isBlank_pretty 0 report.isWritable_toJson
  rw [ofJsonText?, hread, Option.bind_some, ofJson?_toJson h hcounts]

/-- A report whose numbers are written with few digits is read back. -/
theorem ofJsonText?_toJsonText_of_isShort {report : Report} (h : ∀ x ∈ report.numbers, x.IsShort)
    (hcounts : report.HasWordCounts) : ofJsonText? report.toJsonText = some report := by
  rw [ofJsonText?_toJsonText (fun x hx => Binary64.isFinite_of_isShort (h x hx)) hcounts,
    Option.some.injEq, mapNumbers_eq_self_iff]
  intro x hx
  rw [reread, Binary64.binary64?_toJson_of_isShort (h x hx), Option.getD_some]

/-- A report with finite numbers is always read from its text, as the report with
its numbers read again, so it is read back exactly if each of them is. -/
theorem ofJsonText?_toJsonText_eq_iff {report : Report} (h : ∀ x ∈ report.numbers, x.isFinite)
    (hcounts : report.HasWordCounts) :
    ofJsonText? report.toJsonText = some (report.mapNumbers reread) ∧
      (ofJsonText? report.toJsonText = some report ↔
        ∀ x ∈ report.numbers, x.toJson.binary64? = some x) := by
  have hread := ofJsonText?_toJsonText h hcounts
  refine ⟨hread, ?_⟩
  rw [hread, Option.some.injEq, mapNumbers_eq_self_iff]
  apply forall₂_congr
  intro x hx
  rw [Binary64.binary64?_toJson (h x hx), Option.some.injEq]

/-- Quotes, controls and letters beyond ASCII in the texts, a negative zero, the
least and the greatest number, an absent cell and the greatest counts. -/
theorem ofJsonText?_toJsonText_awkward :
    let report : Report :=
      { source := "a\"\\b\n\x01é€.csv", timestamp := "", rowsRead := 18446744073709551615,
        rowsNormalized := 3, rowsKept := 0
        sections := [⟨.dbl, [⟨18446744073709551615, some (.zeroOf true), none, none⟩,
            ⟨0, some (.ofBits 0x7FEFFFFFFFFFFFFF), some (.ofBits 1), some 0⟩], none, []⟩,
          ⟨.float, [], some ⟨.ofBits 0x3FB999999999999A, .ofBits 0xC341C37937E08000, none, 2⟩,
            ["×", ""]⟩] }
    ofJsonText? report.toJsonText = some report := by
  intro report
  have hfinite : ∀ x ∈ report.numbers, x.isFinite := by decide +kernel
  have hcounts : report.HasWordCounts := ⟨by decide, by decide, by decide, by decide⟩
  apply (ofJsonText?_toJsonText_eq_iff hfinite hcounts).2.2
  decide +kernel

/-- A report with a number that is read as another one. -/
theorem ofJsonText?_toJsonText_ne {report : Report} (h : ∀ x ∈ report.numbers, x.isFinite)
    (hcounts : report.HasWordCounts) (hne : ∃ x ∈ report.numbers, x.reread ≠ x) :
    ofJsonText? report.toJsonText ≠ some report := by
  rw [ofJsonText?_toJsonText h hcounts, Ne, Option.some.injEq, mapNumbers_eq_self_iff]
  simpa using hne

/-- The speedup of 11 cycles over 20 is read from the report of its analysis as
the number below it. -/
theorem ofJsonText?_toJsonText_ne_of_analyze :
    ∃ a, analyze [["1", "new_float0", "1", "11"], ["2", "old_float0", "1", "20"]] = .ok a ∧
      let report := ofAnalysis "runs.csv" "2024-01-01T00:00:00Z" a
      (∀ x ∈ report.numbers, x.isFinite) ∧ report.HasWordCounts ∧
        ofJsonText? report.toJsonText ≠ some report := by
  let ratio := Binary64.ofBits 0x3FFD1745D1745D17
  have hreport : (analyze [["1", "new_float0", "1", "11"], ["2", "old_float0", "1", "20"]]).map
      (ofAnalysis "runs.csv" "2024-01-01T00:00:00Z") =
      .ok { source := "runs.csv", timestamp := "2024-01-01T00:00:00Z", rowsRead := 2,
            rowsNormalized := 2, rowsKept := 2
            sections := [⟨.float, [⟨0, some (.ofNat 11), some (.ofNat 20), some ratio⟩],
              some ⟨.ofNat 11, .ofNat 20, some ratio, 1⟩,
              ["Float: average cycles per run — new: 11.0, old: 20.0.",
                "Float: new is on average 1.82× faster than old."]⟩] } := by
    decide +kernel
  cases ha : analyze [["1", "new_float0", "1", "11"], ["2", "old_float0", "1", "20"]] with
  | error cause =>
      rw [ha] at hreport
      cases hreport
  | ok a =>
      rw [ha] at hreport
      have hreport := Except.ok.inj hreport
      have hfinite : ∀ x ∈ (ofAnalysis "runs.csv" "2024-01-01T00:00:00Z" a).numbers,
          x.isFinite := by
        rw [hreport]
        decide +kernel
      have hcounts : (ofAnalysis "runs.csv" "2024-01-01T00:00:00Z" a).HasWordCounts := by
        rw [hreport]
        exact ⟨by decide, by decide, by decide, by decide⟩
      refine ⟨a, rfl, hfinite, hcounts, ofJsonText?_toJsonText_ne hfinite hcounts ?_⟩
      rw [hreport]
      decide +kernel

end Report

end CycleComparison

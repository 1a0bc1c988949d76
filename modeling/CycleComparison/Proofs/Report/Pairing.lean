import CycleComparison.Proofs.Report.Faithful
import CycleComparison.Proofs.Statistics.Summary

/-!
# Speedups in tables and in reports

A summary averages the two columns and the speedups of a table, three selections
of its rows that need not have a row in common. The rows of a report repeat the
table, and each of them has a speedup exactly if it is among the speedups that the
summary averages, so the paired rows can be counted in the report.
-/

namespace CycleComparison

namespace ReportSection

/-- The rows of a section have the speedups of a table, which its summary counts. -/
structure ShowsSpeedups (part : ReportSection) (t : ComparisonTable Binary64) : Prop where
  exceptions : part.rows.map ReportRow.exceptions = t.exceptions
  speedup : ∀ row ∈ part.rows, ∀ ratio,
    row.speedup = some ratio ↔ (row.exceptions, ratio) ∈ t.speedups
  summary : part.summary = t.summary?
  pairedRows : ∀ s, part.summary = some s →
    s.pairedRows = part.rows.countP fun row => row.speedup.isSome

theorem countP_speedup_ofTable (p : Precision) (t : ComparisonTable Binary64)
    (summary : Option (Summary Binary64)) :
    (ofTable p t summary).rows.countP (fun row => row.speedup.isSome) = t.speedups.length := by
  rw [ofTable, List.countP_map, ComparisonTable.speedups, List.length_filterMap_eq_countP]
  apply List.countP_congr
  rintro ⟨e, cells⟩ _
  simp only [Function.comp_apply, ReportRow.ofCells, Option.isSome_map]

theorem showsSpeedups_ofTable (p : Precision) (t : ComparisonTable Binary64) :
    (ofTable p t t.summary?).ShowsSpeedups t := by
  constructor
  · rw [ofTable, List.map_map]
    rfl
  · intro row hrow ratio
    obtain ⟨⟨e, cells⟩, hmem, rfl⟩ := List.mem_map.1 hrow
    have hcells : t.row e = cells := by
      rw [ComparisonTable.row, lookup_of_mem t.ascending hmem, Option.getD_some]
    rw [t.enumerates_speedups.mem_iff, ← ComparisonTable.speedup?_row_iff]
    simp only [ReportRow.ofCells, hcells]
  · rfl
  · intro s hs
    obtain ⟨-, -, -, hlength⟩ := ComparisonTable.summary?_eq_some_iff.1 hs
    rw [countP_speedup_ofTable, hlength]

end ReportSection

theorem showsSpeedups_of_mem_sections {rows : List (List String)} {a : Analysis}
    (h : analyze rows = .ok a) {source timestamp : String} {part : ReportSection}
    (hpart : part ∈ (Report.ofAnalysis source timestamp a).sections) :
    ∃ t, a.tables.get part.precision = some t ∧ part.ShowsSpeedups t := by
  obtain ⟨_, _, hsummaries⟩ := statistics_of_analyze h
  obtain ⟨⟨p, t⟩, hmem, rfl⟩ := List.mem_map.1 hpart
  have ht := PerPrecision.mem_toList_iff.1 hmem
  refine ⟨t, ht, ?_⟩
  simp only [hsummaries, PerPrecision.get_filterMap, ht, Option.bind_some]
  exact ReportSection.showsSpeedups_ofTable p t

/-- The columns and the speedups of a table list what is found in it, a table has a
summary if each version has a cell, and the summary describes the table. A section
of a report has the speedups of the table that it was made of. -/
theorem ComparisonTable.compares (t : ComparisonTable Binary64) :
    (∀ v, Enumerates (t.column v) fun e x => t.get e v = some x) ∧
    Enumerates t.speedups t.HasSpeedup ∧
    (t.summary?.isSome ↔ ∀ v, ∃ e x, t.get e v = some x) ∧
    (∀ s, t.summary? = some s → s.Describes t) ∧
    ∀ rows a source timestamp, analyze rows = .ok a →
      ∀ part ∈ (Report.ofAnalysis source timestamp a).sections,
        a.tables.get part.precision = some t → part.ShowsSpeedups t := by
  refine ⟨t.enumerates_column, t.enumerates_speedups, t.isSome_summary?_iff,
    fun s => Summary.describes_of_summary?, ?_⟩
  intro rows a source timestamp h part hpart ht
  obtain ⟨t', ht', hshows⟩ := showsSpeedups_of_mem_sections h hpart
  rw [ht] at ht'
  rwa [Option.some.inj ht']

/-- A zero, two rows whose speedups are averaged, and two rows with one cell each, which
enter only the average of their column. -/
theorem ComparisonTable.compares_uneven :
    let rows := [["1", "new_float0", "1", "0"], ["2", "old_float0", "1", "50"],
      ["3", "old_float1", "1", "30"], ["4", "new_float1", "1", "10"],
      ["5", "new_float2", "1", "8"], ["6", "old_float2", "1", "16"],
      ["7", "new_float4", "1", "-6"], ["8", "old_float9", "1", "4"]]
    let two : Binary64 := .ofBits 0x4000000000000000
    let three : Binary64 := .ofBits 0x4008000000000000
    ∃ a t s part, analyze rows = .ok a ∧ a.tables.get .float = some t ∧
      t.summary? = some s ∧ s.Describes t ∧
      s = ⟨three, .ofBits 0x4039000000000000, some (.ofBits 0x4004000000000000), 2⟩ ∧
      part ∈ (Report.ofAnalysis "runs.csv" "" a).sections ∧ part.ShowsSpeedups t ∧
        part.summary = some s ∧
        part.rows.map (fun row => (row.exceptions, row.speedup)) =
          [(0, none), (1, some three), (2, some two), (4, none), (9, none)] := by
  intro rows two three
  have hvalues : (analyze rows).toOption.bind (fun a => (a.tables.get .float).bind fun t =>
      t.summary?.map fun s => (s, t.rows.map fun row => (row.1, row.2.speedup?))) =
        some (⟨three, .ofBits 0x4039000000000000, some (.ofBits 0x4004000000000000), 2⟩,
          [(0, none), (1, some three), (2, some two), (4, none), (9, none)]) := by
    decide +kernel
  obtain ⟨a, ha⟩ : ∃ a, analyze rows = .ok a := exists_analyze_eq_ok (by decide +kernel)
  rw [ha, Except.toOption, Option.bind_some] at hvalues
  obtain ⟨t, ht, hvalues⟩ := Option.bind_eq_some_iff.1 hvalues
  obtain ⟨s, hs, hvalues⟩ := Option.map_eq_some_iff.1 hvalues
  obtain ⟨hsummary, hrows⟩ := Prod.mk.inj hvalues
  have hpart : ReportSection.ofTable .float t (a.summaries.get .float) ∈
      (Report.ofAnalysis "runs.csv" "" a).sections :=
    List.mem_map.2 ⟨_, PerPrecision.mem_toList_iff.2 ht, rfl⟩
  obtain ⟨-, -, -, hdescribes, hreport⟩ := t.compares
  have hshows := hreport rows a "runs.csv" "" ha _ hpart ht
  refine ⟨a, t, s, _, ha, ht, hs, hdescribes s hs, hsummary, hpart, hshows,
    hshows.summary.trans hs, ?_⟩
  rw [← hrows, ReportSection.ofTable, List.map_map]
  rfl

end CycleComparison

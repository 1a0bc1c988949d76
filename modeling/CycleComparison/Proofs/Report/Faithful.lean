import CycleComparison.Proofs.Analysis.Outcome
import CycleComparison.Proofs.Statistics.Grouping
import CycleComparison.Report.Format
import Mathlib.Data.List.Basic

/-!
# Reports say what their analyses say

The report of an analysis repeats its lines, tables and summaries in other
records, and an export is made of these records alone. Nothing is lost on the
way: a precision has a summary only if it has a table, so the lines of the
sections are those of the summaries; and since every row of a table has a cell,
inserting the cells of the rows one by one gives the table again.
-/

namespace CycleComparison

namespace ReportSection

variable {table : ComparisonTable Binary64} {e : UInt64}

theorem get_addRow_self (table : ComparisonTable Binary64) (e : UInt64) (cells : Cells Binary64)
    (v : Version) :
    (addRow table (.ofCells e cells)).get e v = (cells.get v).or (table.get e v) := by
  obtain ⟨new, old⟩ := cells
  cases v <;> cases new <;> cases old <;>
    simp [addRow, ReportRow.ofCells, Cells.get, ComparisonTable.get_insert_of_ne]

theorem get_addRow_of_ne (table : ComparisonTable Binary64) {e other : UInt64} (h : other ≠ e)
    (cells : Cells Binary64) (v : Version) :
    (addRow table (.ofCells e cells)).get other v = table.get other v := by
  obtain ⟨new, old⟩ := cells
  cases new <;> cases old <;>
    simp [addRow, ReportRow.ofCells, ComparisonTable.get_insert_of_ne _ (.inl h)]

theorem hasCells_addRow (h : table.HasCells) (row : ReportRow) : (addRow table row).HasCells := by
  obtain ⟨e, new, old, speedup⟩ := row
  cases new with
  | none =>
      cases old with
      | none => exact h
      | some y => exact h.insert e .old y
  | some x =>
      cases old with
      | none => exact h.insert e .new x
      | some y => exact (h.insert e .new x).insert e .old y

theorem hasCells_foldl_addRow (h : table.HasCells) (rows : List ReportRow) :
    (rows.foldl addRow table).HasCells := by
  induction rows generalizing table with
  | nil => exact h
  | cons row rest ih => exact ih (hasCells_addRow h row)

/-- Rows that are added have their cells in the table, and other rows are kept. -/
theorem get_foldl_addRow {rows : List (UInt64 × Cells Binary64)}
    (hrows : rows.Pairwise fun a b => a.1 < b.1) (table : ComparisonTable Binary64) (e : UInt64)
    (v : Version) :
    ((rows.map fun (e, cells) => ReportRow.ofCells e cells).foldl addRow table).get e v =
      (((rows.lookup e).getD .empty).get v).or (table.get e v) := by
  induction rows generalizing table with
  | nil => simp
  | cons row rest ih =>
      obtain ⟨k, cells⟩ := row
      obtain ⟨hhead, hrest⟩ := List.pairwise_cons.1 hrows
      rw [List.map_cons, List.foldl_cons, ih hrest]
      by_cases he : e = k
      · subst he
        -- the other rows have greater numbers and do not touch this one again
        rw [lookup_eq_none_of_lt hhead, List.lookup_cons_self, Option.getD_none, Cells.get_empty,
          Option.none_or, get_addRow_self, Option.getD_some]
      · rw [lookup_cons_of_ne he, get_addRow_of_ne table he]

/-- The table of a section is the one that the section was made of. -/
theorem table_ofTable (h : table.HasCells) (p : Precision) (summary : Option (Summary Binary64)) :
    (ofTable p table summary).table = table := by
  apply (hasCells_foldl_addRow .empty _).ext_get h
  intro e v
  rw [ofTable, get_foldl_addRow table.ascending, ComparisonTable.get_empty, Option.or_none]
  rfl

/-- A section has the rows of a table, in ascending order and with a cell each,
and a summary. -/
structure Repeats (part : ReportSection) (table : ComparisonTable Binary64)
    (summary : Option (Summary Binary64)) : Prop where
  exceptions : part.rows.map ReportRow.exceptions = table.exceptions
  ascending : part.rows.Pairwise fun x y => x.exceptions < y.exceptions
  new : ∀ row ∈ part.rows, row.new = table.get row.exceptions .new
  old : ∀ row ∈ part.rows, row.old = table.get row.exceptions .old
  present : ∀ row ∈ part.rows, row.new.isSome ∨ row.old.isSome
  summary : part.summary = summary

theorem repeats_ofTable (h : table.HasCells) (p : Precision)
    (summary : Option (Summary Binary64)) :
    (ofTable p table summary).Repeats table summary := by
  unfold ofTable
  constructor
  · rw [List.map_map]
    rfl
  · rw [List.pairwise_map]
    exact table.ascending
  · simp only [List.forall_mem_map]
    exact fun row hrow => (ComparisonTable.get_of_mem_rows hrow .new).symm
  · simp only [List.forall_mem_map]
    exact fun row hrow => (ComparisonTable.get_of_mem_rows hrow .old).symm
  · simp only [List.forall_mem_map]
    exact fun row hrow => Cells.isSome_of_ne_empty (h row hrow)
  · rfl

end ReportSection

namespace Report

section Analyzed

variable {rows : List (List String)} {a : Analysis}

theorem hasCells_of_analyze (h : analyze rows = .ok a) {p : Precision}
    {table : ComparisonTable Binary64} (htable : a.tables.get p = some table) :
    table.HasCells := by
  rw [(statistics_of_analyze h).2.1] at htable
  exact hasCells_aggregate htable

/-- The lines of the sections are those of the analysis. -/
theorem lines_ofAnalysis (h : analyze rows = .ok a) (source timestamp : String) :
    (ofAnalysis source timestamp a).lines = a.reportLines := by
  obtain ⟨_, _, hsummaries⟩ := statistics_of_analyze h
  rw [lines, ofAnalysis, List.flatMap_map, Analysis.reportLines, PerPrecision.flatMap_toList,
    PerPrecision.flatMap_toList]
  apply List.flatMap_congr
  intro p _
  rw [hsummaries]
  cases hp : a.tables.get p with
  | none =>
      rw [PerPrecision.get_filterMap, hp]
      rfl
  | some table =>
      simp only [ReportSection.ofTable, PerPrecision.get_filterMap, hp, Option.map_some,
        Option.getD_some, Option.bind_some]

/-- The tables of the sections are those of the analysis. -/
theorem tables_ofAnalysis (h : analyze rows = .ok a) (source timestamp : String) :
    (ofAnalysis source timestamp a).tables = a.tables := by
  rw [tables, ofAnalysis, List.foldl_map]
  refine Eq.trans ?_ a.tables.foldl_set_toList
  apply List.foldl_ext
  rintro found ⟨p, table⟩ hmem
  have htable := hasCells_of_analyze h (PerPrecision.mem_toList_iff.1 hmem)
  rw [ReportSection.table_ofTable htable]
  rfl

/-- Each section repeats the table and the summary of its precision. -/
theorem repeats_of_mem_sections (h : analyze rows = .ok a) {source timestamp : String}
    {part : ReportSection} (hpart : part ∈ (ofAnalysis source timestamp a).sections) :
    ∃ table, a.tables.get part.precision = some table ∧
      part.Repeats table (a.summaries.get part.precision) := by
  obtain ⟨⟨p, table⟩, hmem, rfl⟩ := List.mem_map.1 hpart
  have htable := PerPrecision.mem_toList_iff.1 hmem
  exact ⟨table, htable, ReportSection.repeats_ofTable (hasCells_of_analyze h htable) p _⟩

theorem precisions_ofAnalysis (source timestamp : String) (a : Analysis) :
    (ofAnalysis source timestamp a).sections.map ReportSection.precision =
      Precision.all.filter fun p => (a.tables.get p).isSome := by
  rw [ofAnalysis, List.map_map, ← PerPrecision.map_fst_toList]
  rfl

/-- Rows are lost from stage to stage, never won. -/
theorem counts_ofAnalysis (h : analyze rows = .ok a) (source timestamp : String) :
    let report := ofAnalysis source timestamp a
    report.rowsKept ≤ report.rowsNormalized ∧ report.rowsNormalized ≤ report.rowsRead ∧
      report.rowsDropped + report.rowsKept = report.rowsRead := by
  obtain ⟨table, _, rfl, _⟩ := exists_ofRows_of_analyze h
  have hkept : (classifyAll table.measurements).length ≤ table.measurements.length :=
    List.length_filterMap_le _ _
  simp only [ofAnalysis, Analysis.ofMeasurements, rowsDropped]
  omega

/-- The report of an analysis says what the analysis says, as text and as tables:
its lines are those of the analysis, its sections are the precisions that have a
table, each with the cells and the summary of the table, and its long form is
that of the tables. The rows that did not survive are counted right. -/
theorem ofAnalysis_faithful (h : analyze rows = .ok a) (source timestamp : String) :
    let report := ofAnalysis source timestamp a
    report.lines = a.reportLines ∧
    report.toText = String.join (a.reportLines.map (· ++ "\n")) ∧
    report.sections.map ReportSection.precision =
      Precision.all.filter (fun p => (a.tables.get p).isSome) ∧
    (∀ part ∈ report.sections, ∃ table, a.tables.get part.precision = some table ∧
      part.Repeats table (a.summaries.get part.precision)) ∧
    report.render .csv = LongForm.bytes .default a.tables ∧
    report.rowsKept ≤ report.rowsNormalized ∧ report.rowsNormalized ≤ report.rowsRead ∧
    report.rowsDropped + report.rowsKept = report.rowsRead := by
  have hlines := lines_ofAnalysis h source timestamp
  refine ⟨hlines, ?_, precisions_ofAnalysis source timestamp a,
    fun _ => repeats_of_mem_sections h, ?_, counts_ofAnalysis h source timestamp⟩
  · rw [toText, hlines, joinLines]
  · rw [render, tables_ofAnalysis h]

/-- A row with a single cell, a precision without any cell, and rows that are
dropped. -/
theorem ofAnalysis_faithful_uneven :
    let rows := [["1", "new_float3", "1", "2"], ["2", "old_float3", "1", "3"],
      ["3", "old_float12", "1", "n/a"], ["4", "old_float0", "1", "5"], ["x", "new_dbl1", "1", "1"],
      ["5", "other", "1", "1"], ["6", "old_dbl1", "1", ""]]
    ∃ a, analyze rows = .ok a ∧
      let report := Report.ofAnalysis "runs.csv" "" a
      report.lines = a.reportLines ∧ report.render .csv = LongForm.bytes .default a.tables ∧
        report.sections.map ReportSection.precision = [.float, .dbl] ∧
        report.rowsRead = 7 ∧ report.rowsDropped = 2 := by
  intro rows
  have hvalues : (analyze rows).toOption.map (fun a =>
      (Precision.all.filter (fun p => (a.tables.get p).isSome), a.rowsRead,
        a.classified.length)) = some ([.float, .dbl], 7, 5) := by
    decide +kernel
  obtain ⟨a, ha⟩ : ∃ a, analyze rows = .ok a := exists_analyze_eq_ok (by decide +kernel)
  rw [ha, Except.toOption, Option.map_some, Option.some.injEq, Prod.mk.injEq,
    Prod.mk.injEq] at hvalues
  obtain ⟨hprecisions, hread, hkept⟩ := hvalues
  obtain ⟨hlines, -, hsections, -, hcsv, -⟩ := ofAnalysis_faithful ha "runs.csv" ""
  refine ⟨a, ha, hlines, hcsv, hsections.trans hprecisions, hread, ?_⟩
  simp only [rowsDropped, ofAnalysis, hread, hkept]

end Analyzed

end Report

end CycleComparison

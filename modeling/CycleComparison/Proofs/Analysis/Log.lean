import CycleComparison.Analysis.Delimited
import CycleComparison.Proofs.Analysis.Accounting
import CycleComparison.Proofs.Statistics.ComparisonTable
import CycleComparison.Report.Lines

/-!
# The log of an analysis

The log and the outcome of a run tell the same. A run that fails has reported the
stages that it completed and nothing after them, and a finished run has told of
every table that it built and then of every table without a comparison or without
a speedup, in the order of the precisions. What is said of a table in the end can
therefore be read from its summary, or from the lines that the summary gives.
-/

namespace CycleComparison

namespace Summary

theorem lines_eq_singleton_iff {p : Precision} {s : Summary Binary64} :
    s.lines p = [s.averagesLine p] ↔ s.avgSpeedup = none := by
  rw [lines, List.cons.injEq, Option.toList_eq_nil_iff, speedupLine?, Option.map_eq_none_iff]
  exact and_iff_right rfl

end Summary

/-- Whether an event is about the comparison in a table. -/
def Event.isRemark : Event → Bool
  | .speedupUndefined _ => true
  | .notCompared _ _ => true
  | _ => false

theorem Event.isRemark_of_isWarning {event : Event} (h : event.isWarning) : event.isRemark := by
  cases event with
  | speedupUndefined p => rfl
  | _ => cases h

namespace Analysis

/-- The event of the table of a precision, if there is one. -/
def tableEvents (a : Analysis) (p : Precision) : List Event :=
  match a.tables.get p with
  | none => []
  | some t => [.tableBuilt p t.size t.versions]

/-- The event for a table whose comparison has no speedup, or that has none. -/
def remarks (a : Analysis) (p : Precision) : List Event :=
  match a.tables.get p, a.summaries.get p with
  | none, _ => []
  | some t, none => [.notCompared p t.versions]
  | some _, some s => if s.avgSpeedup = none then [.speedupUndefined p] else []

variable {a : Analysis} {p : Precision} {event : Event}

theorem map_built (a : Analysis) :
    a.tables.toList.map built = Precision.all.flatMap a.tableEvents := by
  rw [List.map_eq_flatMap, PerPrecision.flatMap_toList]
  congr 1
  funext p
  unfold tableEvents
  cases a.tables.get p <;> rfl

theorem filterMap_remark? (h : a.summaries = a.tables.filterMap ComparisonTable.summary?) :
    a.tables.toList.filterMap remark? = Precision.all.flatMap a.remarks := by
  rw [List.filterMap_eq_flatMap_toList, PerPrecision.flatMap_toList]
  congr 1
  funext p
  rw [remarks, h, PerPrecision.get_filterMap]
  cases a.tables.get p with
  | none => rfl
  | some t =>
      simp only [Option.map_some, Option.getD_some, Option.bind_some, remark?]
      cases t.summary? with
      | none => rfl
      | some s => cases hspeedup : s.avgSpeedup <;> simp [hspeedup]

theorem mem_flatMap_all {f : Precision → List Event} :
    event ∈ Precision.all.flatMap f ↔ ∃ p, event ∈ f p := by
  rw [List.mem_flatMap]
  exact exists_congr fun p => and_iff_right (by cases p <;> decide)

theorem isRemark_of_mem_tableEvents (h : event ∈ a.tableEvents p) : event.isRemark = false := by
  unfold tableEvents at h
  split at h
  · cases h
  · rw [List.mem_singleton.1 h]
    rfl

theorem mem_remarks_iff (h : a.summaries = a.tables.filterMap ComparisonTable.summary?) :
    event ∈ a.remarks p ↔
      (∃ s, a.summaries.get p = some s ∧ s.avgSpeedup = none ∧ event = .speedupUndefined p) ∨
      ∃ t, a.tables.get p = some t ∧ a.summaries.get p = none ∧
        event = .notCompared p t.versions := by
  have hget := PerPrecision.get_filterMap ComparisonTable.summary? a.tables p
  rw [← h] at hget
  unfold remarks
  cases ht : a.tables.get p with
  | none => simp [hget, ht]
  | some t =>
      cases hs : a.summaries.get p with
      | none => simp
      | some s => simp

end Analysis

/-- The events of the first three stages. They count the rows, those of the data
that hold a measurement and those of the measurements that classify. -/
inductive ReportsStages (rows : List (List String)) (layout : Layout) (kept classified : Nat) :
    List Event → Prop
  | intro {dropped unclassified : Nat} (hrows : kept + dropped = (layout.dataRows rows).length)
      (hkept : classified + unclassified = kept) :
      ReportsStages rows layout kept classified
        [.rowsRead rows.length, .normalized layout.isHeadless kept dropped,
          .classified classified unclassified]

theorem ReportsStages.isRemark {rows : List (List String)} {layout : Layout} {kept classified : Nat}
    {stages : List Event} (h : ReportsStages rows layout kept classified stages) :
    ∀ event ∈ stages, event.isRemark = false := by
  cases h
  simp [Event.isRemark]

/-- The log that goes with the outcome of a run on delimited text. -/
inductive LogsOutcome (loaded : Except Delimited.LoadError (List (List String))) :
    Except ProcessingError Analysis → List Event → Prop
  | unread {cause : Delimited.LoadError} (hload : loaded = .error cause) :
      LogsOutcome loaded (.error (.load cause)) []
  | withoutLayout {rows : List (List String)} {cause : LayoutError} (hload : loaded = .ok rows)
      (hlayout : Layout.ofFirstRow rows.head? = .error cause) :
      LogsOutcome loaded (.error (.analysis (.layout cause))) [.rowsRead rows.length]
  | emptyResult {rows : List (List String)} {layout : Layout} {stages : List Event}
      (hload : loaded = .ok rows) (hlayout : Layout.ofFirstRow rows.head? = .ok layout)
      (hstages : ReportsStages rows layout (layout.measurementRows rows).length 0 stages) :
      LogsOutcome loaded
        (.error (.analysis (.emptyResult (layout.measurementRows rows).length))) stages
  | finished {rows : List (List String)} {a : Analysis} {stages : List Event}
      (hload : loaded = .ok rows) (hanalyze : analyze rows = .ok a)
      (hclassified : a.classified ≠ [])
      (hstages : ReportsStages rows a.layout a.canonicalRows a.classified.length stages) :
      LogsOutcome loaded (.ok a)
        (stages ++ Precision.all.flatMap a.tableEvents ++ Precision.all.flatMap a.remarks)

section Runs

variable {rows : List (List String)} {options : Delimited.ReadOptions} {source : Delimited.Source}

theorem analyzeSourceLogged_of_loadError {cause : Delimited.LoadError}
    (h : Delimited.load options source = .error cause) :
    analyzeSourceLogged options source = ⟨[], .error (.load cause)⟩ := by
  unfold analyzeSourceLogged loadLogged
  rw [h]
  rfl

theorem analyzeSourceLogged_of_load (h : Delimited.load options source = .ok rows) :
    analyzeSourceLogged options source =
      ⟨.rowsRead rows.length :: (analyzeLogged rows).events,
        (analyzeLogged rows).outcome.mapError .analysis⟩ := by
  unfold analyzeSourceLogged loadLogged
  rw [h]
  rfl

/-- The rows that the measurements of a table come from. -/
theorem MeasurementTable.counts_of_ofRows {table : MeasurementTable} (h : ofRows rows = .ok table) :
    Layout.ofFirstRow rows.head? = .ok table.layout ∧
      table.measurements.length = (table.layout.measurementRows rows).length ∧
      table.measurements.length + table.dropped = (table.layout.dataRows rows).length := by
  unfold ofRows at h
  split at h
  · cases h
  · rename_i layout hlayout
    cases h
    exact ⟨hlayout, (layout.length_measurementRows rows).symm,
      Nat.add_sub_cancel' (List.length_filterMap_le _ _)⟩

theorem logsOutcome_of_measurements {table : MeasurementTable}
    (h : MeasurementTable.ofRows rows = .ok table) :
    LogsOutcome (.ok rows) ((analyzeLogged rows).outcome.mapError .analysis)
      (.rowsRead rows.length :: (analyzeLogged rows).events) := by
  obtain ⟨hlayout, hlength, hrows⟩ := MeasurementTable.counts_of_ofRows h
  have hkept : (classifyAll table.measurements).length +
      (table.measurements.length - (classifyAll table.measurements).length) =
        table.measurements.length := Nat.add_sub_cancel' (List.length_filterMap_le _ _)
  have hstages := ReportsStages.intro hrows hkept
  have hlog := analyzeLogged_of_measurements h
  -- whether any measurement classifies decides how far the run gets
  by_cases hempty : (Analysis.ofMeasurements table).classified.isEmpty
  · rw [hlog, if_pos hempty]
    have hnil : classifyAll table.measurements = [] := List.isEmpty_iff.1 hempty
    rw [hnil, hlength] at hstages
    simp only [Analysis.ofMeasurements, hnil, hlength]
    exact .emptyResult rfl hlayout hstages
  · rw [if_neg hempty] at hlog
    have hanalyze : analyze rows = .ok (Analysis.ofMeasurements table) := congrArg Run.outcome hlog
    rw [hlog, Analysis.map_built, Analysis.filterMap_remark? rfl]
    exact .finished rfl hanalyze (mt List.isEmpty_iff.2 hempty) hstages

theorem logsOutcome_analyzeSourceLogged (options : Delimited.ReadOptions)
    (source : Delimited.Source) :
    LogsOutcome (Delimited.load options source) (analyzeSourceLogged options source).outcome
      (analyzeSourceLogged options source).events := by
  cases hload : Delimited.load options source with
  | error cause =>
      rw [analyzeSourceLogged_of_loadError hload]
      exact .unread rfl
  | ok rows =>
      rw [analyzeSourceLogged_of_load hload]
      cases hlayout : Layout.ofFirstRow rows.head? with
      | error cause =>
          rw [analyzeLogged_of_layoutError (by rw [MeasurementTable.ofRows, hlayout])]
          exact .withoutLayout rfl hlayout
      | ok layout =>
          exact logsOutcome_of_measurements (MeasurementTable.ofRows_of_ofFirstRow hlayout)

/-- What a finished run says of the comparisons. -/
theorem mem_events_iff {a : Analysis} {event : Event}
    (h : (analyzeSourceLogged options source).outcome = .ok a) (hremark : event.isRemark) :
    event ∈ (analyzeSourceLogged options source).events ↔
      (∃ p s, a.summaries.get p = some s ∧ s.avgSpeedup = none ∧ event = .speedupUndefined p) ∨
      ∃ p t, a.tables.get p = some t ∧ a.summaries.get p = none ∧
        event = .notCompared p t.versions := by
  have hlog := logsOutcome_analyzeSourceLogged options source
  rw [h] at hlog
  -- only a finished log goes with a success; its events are those of the run
  generalize (analyzeSourceLogged options source).events = events at hlog
  cases hlog with
  | finished _ hanalyze _ hstages =>
      have hsummaries := (statistics_of_analyze hanalyze).2.2
      have hnotStage : event ∉ _ := fun hmem => by
        rw [hstages.isRemark event hmem] at hremark
        cases hremark
      have hnotTable : ¬ ∃ p, event ∈ a.tableEvents p := by
        rintro ⟨p, hmem⟩
        rw [Analysis.isRemark_of_mem_tableEvents hmem] at hremark
        cases hremark
      rw [List.mem_append, List.mem_append, Analysis.mem_flatMap_all, Analysis.mem_flatMap_all,
        or_iff_right (not_or.2 ⟨hnotStage, hnotTable⟩), ← exists_or]
      exact exists_congr fun p => Analysis.mem_remarks_iff hsummaries

/-- The log of a run is that of its outcome. A finished run has warned of exactly
the precisions with a summary that has no speedup, which are those with no line but
the averages, and has noted exactly the precisions with a table but no summary. -/
theorem analyzeSourceLogged_logs (options : Delimited.ReadOptions) (source : Delimited.Source) :
    let run := analyzeSourceLogged options source
    LogsOutcome (Delimited.load options source) run.outcome run.events ∧
      ∀ a, run.outcome = .ok a →
        (∀ event, event ∈ run.events ∧ event.isWarning ↔
          ∃ p s, event = .speedupUndefined p ∧ a.summaries.get p = some s ∧
            s.avgSpeedup = none) ∧
        (∀ p, .speedupUndefined p ∈ run.events ↔
          ∃ s, a.summaries.get p = some s ∧ s.lines p = [s.averagesLine p]) ∧
        ∀ p versions, .notCompared p versions ∈ run.events ↔
          ∃ t, a.tables.get p = some t ∧ a.summaries.get p = none ∧ versions = t.versions := by
  refine ⟨logsOutcome_analyzeSourceLogged options source, fun a ha => ⟨fun event => ?_,
    fun p => ?_, fun p versions => ?_⟩⟩
  · constructor
    · rintro ⟨hmem, hwarning⟩
      have hremark := Event.isRemark_of_isWarning hwarning
      rcases (mem_events_iff ha hremark).1 hmem with ⟨p, s, hs, hspeedup, rfl⟩ | ⟨p, t, -, -, rfl⟩
      · exact ⟨p, s, rfl, hs, hspeedup⟩
      · cases hwarning
    · rintro ⟨p, s, rfl, hs, hspeedup⟩
      exact ⟨(mem_events_iff ha rfl).2 (.inl ⟨p, s, hs, hspeedup, rfl⟩), rfl⟩
  · rw [mem_events_iff ha rfl]
    simp [Summary.lines_eq_singleton_iff]
  · rw [mem_events_iff ha rfl]
    simp

/-- A zero in the only pair, a precision with one version, a name that does not
classify and a row without an id. -/
theorem analyzeSourceLogged_logs_uncompared :
    let text := "1,new_float0,1,0\n2,old_float0,1,5\n3,new_dbl1,1,2\n4,other,1,1\nx,new_dbl1,1,1\n"
    let run := analyzeSourceLogged .default (.ofText text)
    run.events = [.rowsRead 5, .normalized true 4 1, .classified 3 1,
        .tableBuilt .float 1 [.new, .old], .tableBuilt .dbl 1 [.new], .speedupUndefined .float,
        .notCompared .dbl [.new]] ∧
      ∃ a, run.outcome = .ok a ∧ a.summaries.get .dbl = none ∧
        ∃ s, a.summaries.get .float = some s ∧ s.lines .float = [s.averagesLine .float] := by
  intro text run
  have hevents : run.events = [.rowsRead 5, .normalized true 4 1, .classified 3 1,
      .tableBuilt .float 1 [.new, .old], .tableBuilt .dbl 1 [.new], .speedupUndefined .float,
      .notCompared .dbl [.new]] := by
    decide +kernel
  have hok : run.outcome.toOption.isSome := by decide +kernel
  cases ha : run.outcome with
  | error cause =>
      rw [ha] at hok
      cases hok
  | ok a =>
      obtain ⟨-, hremarks⟩ := analyzeSourceLogged_logs .default (.ofText text)
      obtain ⟨-, hwarned, hnoted⟩ := hremarks a ha
      obtain ⟨t, -, hnone, -⟩ := (hnoted .dbl [.new]).1 (by rw [hevents]; decide)
      exact ⟨hevents, a, rfl, hnone, (hwarned .float).1 (by rw [hevents]; decide)⟩

end Runs

end CycleComparison

import CycleComparison.Analysis.Basic

/-!
# The outcome of an analysis

`analyze` keeps a log on its way; its outcome is a function of the measurements
in the rows alone. `analyzeMeasurements` is that function. It uses the layout
only to record it, so tables with the same measurements and the same number of
dropped rows have the same outcome up to the layout, which
`Analysis.forgetLayout` leaves out.
-/

namespace CycleComparison

/-- The analysis of measurements, if the name of one of them classifies. -/
def analyzeMeasurements (table : MeasurementTable) : Except AnalysisError Analysis :=
  if (classifyAll table.measurements).isEmpty then
    .error (.emptyResult table.measurements.length)
  else .ok (Analysis.ofMeasurements table)

theorem Run.bind_eq_andThen {ε α β : Type} (run : Run ε α) (next : α → Run ε β) :
    run >>= next = run.andThen next := rfl

theorem analyzeLogged_of_layoutError {rows : List (List String)} {e : LayoutError}
    (h : MeasurementTable.ofRows rows = .error e) :
    analyzeLogged rows = ⟨[], .error (.layout e)⟩ := by
  unfold analyzeLogged
  rw [h]
  rfl

/-- The analysis of measurements ends after their classification exactly if none of
them classifies. -/
theorem analyzeLogged_of_measurements {rows : List (List String)} {table : MeasurementTable}
    (h : MeasurementTable.ofRows rows = .ok table) :
    analyzeLogged rows =
      let a := Analysis.ofMeasurements table
      let kept := table.measurements.length
      let stages := [.normalized table.layout.isHeadless kept table.dropped,
        .classified a.classified.length (kept - a.classified.length)]
      if a.classified.isEmpty then ⟨stages, .error (.emptyResult kept)⟩
      else ⟨stages ++ a.tables.toList.map Analysis.built ++
        a.tables.toList.filterMap Analysis.remark?, .ok a⟩ := by
  have htable : (Except.ok table).mapError AnalysisError.layout = .ok table := rfl
  simp only [analyzeLogged, h, htable, Run.bind_eq_andThen, Run.andThen_ofExcept_ok,
    Run.andThen_report]
  by_cases hempty : (Analysis.ofMeasurements table).classified.isEmpty
  · simp [hempty, Run.ofExcept]
  · simp [hempty, Run.ofExcept, pure]

theorem analyze_of_layoutError {rows : List (List String)} {e : LayoutError}
    (h : MeasurementTable.ofRows rows = .error e) :
    analyze rows = .error (.layout e) :=
  congrArg Run.outcome (analyzeLogged_of_layoutError h)

theorem analyze_of_measurements {rows : List (List String)} {table : MeasurementTable}
    (h : MeasurementTable.ofRows rows = .ok table) :
    analyze rows = analyzeMeasurements table := by
  rw [analyze, analyzeLogged_of_measurements h, analyzeMeasurements]
  exact apply_ite Run.outcome _ _ _

/-- The sample that a row gives, if it is a measurement with a name that
classifies. -/
def Sample.ofRow? (columns : ColumnPositions) (row : List String) : Option (Sample Binary64) :=
  ((Measurement.ofRow? columns row).bind ClassifiedMeasurement.ofMeasurement?).map
    ClassifiedMeasurement.sample

/-- The samples in the rows of a table. -/
def samplesOfRows (rows : List (List String)) : List (Sample Binary64) :=
  match Layout.ofFirstRow rows.head? with
  | .error _ => []
  | .ok layout => (layout.dataRows rows).filterMap (Sample.ofRow? layout.columns)

theorem samplesOfRows_of_layout {rows : List (List String)} {layout : Layout}
    (h : Layout.ofFirstRow rows.head? = .ok layout) :
    samplesOfRows rows = (layout.dataRows rows).filterMap (Sample.ofRow? layout.columns) := by
  unfold samplesOfRows
  rw [h]

theorem samplesOfRows_of_ofRows {rows : List (List String)} {table : MeasurementTable}
    (h : MeasurementTable.ofRows rows = .ok table) :
    samplesOfRows rows = (classifyAll table.measurements).map ClassifiedMeasurement.sample := by
  unfold MeasurementTable.ofRows at h
  split at h
  · cases h
  · rename_i layout hlayout
    cases h
    unfold classifyAll
    rw [samplesOfRows_of_layout hlayout, List.filterMap_filterMap, List.map_filterMap]
    rfl

theorem isEmpty_classifyAll {rows : List (List String)} {table : MeasurementTable}
    (h : MeasurementTable.ofRows rows = .ok table) :
    (classifyAll table.measurements).isEmpty ↔ samplesOfRows rows = [] := by
  rw [samplesOfRows_of_ofRows h, List.isEmpty_iff, List.map_eq_nil_iff]

/-- An analysis succeeds if some row gives a sample. -/
theorem exists_analyze_eq_ok {rows : List (List String)} (h : samplesOfRows rows ≠ []) :
    ∃ a, analyze rows = .ok a := by
  cases htable : MeasurementTable.ofRows rows with
  | error e =>
      unfold MeasurementTable.ofRows at htable
      unfold samplesOfRows at h
      split at htable
      · rename_i hlayout
        rw [hlayout] at h
        exact absurd rfl h
      · cases htable
  | ok table =>
      rw [analyze_of_measurements htable, analyzeMeasurements,
        if_neg (mt (isEmpty_classifyAll htable).1 h)]
      exact ⟨_, rfl⟩

/-- A finished analysis is that of the measurements in the rows, some of which
classify. -/
theorem exists_ofRows_of_analyze {rows : List (List String)} {a : Analysis}
    (h : analyze rows = .ok a) :
    ∃ table, MeasurementTable.ofRows rows = .ok table ∧ a = .ofMeasurements table ∧
      ¬ (classifyAll table.measurements).isEmpty := by
  cases htable : MeasurementTable.ofRows rows with
  | error e =>
      rw [analyze_of_layoutError htable] at h
      cases h
  | ok table =>
      rw [analyze_of_measurements htable, analyzeMeasurements] at h
      split at h
      · cases h
      · rename_i hne
        cases h
        exact ⟨table, rfl, rfl, hne⟩

/-- A finished analysis has the tables of the samples and the summaries of the
tables. -/
theorem statistics_of_analyze {rows : List (List String)} {a : Analysis}
    (h : analyze rows = .ok a) :
    samplesOfRows rows ≠ [] ∧ a.tables = aggregate (samplesOfRows rows) ∧
      a.summaries = a.tables.filterMap ComparisonTable.summary? := by
  obtain ⟨table, htable, rfl, hne⟩ := exists_ofRows_of_analyze h
  refine ⟨mt (isEmpty_classifyAll htable).2 hne, ?_, rfl⟩
  rw [samplesOfRows_of_ofRows htable]
  rfl

namespace Analysis

/-- An analysis with its layout left out. -/
def forgetLayout (analysis : Analysis) : Analysis := { analysis with layout := .headless }

end Analysis

theorem analyzeMeasurements_congr {s t : MeasurementTable}
    (hmeasurements : s.measurements = t.measurements) (hdropped : s.dropped = t.dropped) :
    (analyzeMeasurements s).map Analysis.forgetLayout =
      (analyzeMeasurements t).map Analysis.forgetLayout := by
  unfold analyzeMeasurements
  rw [hmeasurements]
  by_cases hempty : (classifyAll t.measurements).isEmpty
  · rw [if_pos hempty, if_pos hempty]
  · rw [if_neg hempty, if_neg hempty]
    simp only [Except.map, Analysis.forgetLayout, Analysis.ofMeasurements, hmeasurements,
      hdropped]

end CycleComparison

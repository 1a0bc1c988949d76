import CycleComparison.Proofs.Measurement.Presentation

/-!
# Which rows an analysis counts

Two questions about each row of data decide the outcome of an analysis: whether
the row holds a measurement, that is, reaches all columns and has an id, and
whether the name of that measurement classifies. Both are asked of the row alone,
so the measurements and the classified ones are two selections of the rows in
their order, and rows that are added at the end take nothing back.
-/

namespace CycleComparison

namespace ColumnPositions

/-- The least number of cells with which a row reaches all columns. -/
def width (columns : ColumnPositions) : Nat :=
  max (max columns.id columns.name) (max columns.iterations columns.cycles) + 1

/-- Whether a row reaches all columns and has an id. -/
def holdsMeasurement (columns : ColumnPositions) (row : List String) : Bool :=
  decide (columns.width ≤ row.length) && (row[columns.id]?.bind idOfText?).isSome

/-- Whether a row holds a measurement with a name that classifies. -/
def holdsClassified (columns : ColumnPositions) (row : List String) : Bool :=
  columns.holdsMeasurement row && (row[columns.name]?.bind classify).isSome

/-- A classified measurement is what the cells of a row say. -/
structure Tells (columns : ColumnPositions) (row : List String) (m : ClassifiedMeasurement) :
    Prop where
  id : row[columns.id]?.bind idOfText? = some m.measurement.id
  name : row[columns.name]? = some m.measurement.name
  iterations : row[columns.iterations]?.map trim = some m.measurement.iterations
  cycles : row[columns.cycles]?.map finiteOfText? = some m.measurement.cycles
  classification : row[columns.name]?.bind classify = some m.classification

variable {columns : ColumnPositions} {row : List String}

/-- All cells of a row are there exactly if the row has the least width. -/
theorem width_le_iff : columns.width ≤ row.length ↔ ∃ e, columns.Shows row e := by
  unfold width
  constructor
  · intro h
    exact ⟨⟨row[columns.id], row[columns.name], row[columns.iterations], row[columns.cycles]⟩,
      List.getElem?_eq_getElem _, List.getElem?_eq_getElem _, List.getElem?_eq_getElem _,
      List.getElem?_eq_getElem _⟩
  · rintro ⟨e, h⟩
    have hid := (List.getElem?_eq_some_iff.1 h.id).1
    have hname := (List.getElem?_eq_some_iff.1 h.name).1
    have hiterations := (List.getElem?_eq_some_iff.1 h.iterations).1
    have hcycles := (List.getElem?_eq_some_iff.1 h.cycles).1
    omega

theorem isSome_ofRow? : (Measurement.ofRow? columns row).isSome = columns.holdsMeasurement row := by
  unfold holdsMeasurement
  by_cases h : columns.width ≤ row.length
  · obtain ⟨e, he⟩ := width_le_iff.1 h
    rw [Measurement.ofRow?_of_shows he, RowTexts.measurement?, Option.isSome_map, he.id,
      Option.bind_some, decide_eq_true h, Bool.true_and]
  · rw [decide_eq_false h, Bool.false_and]
    cases hm : Measurement.ofRow? columns row with
    | none => rfl
    | some m =>
        obtain ⟨e, he, _⟩ := exists_shows_of_ofRow? hm
        exact absurd (width_le_iff.2 ⟨e, he⟩) h

theorem isSome_classified :
    ((Measurement.ofRow? columns row).bind ClassifiedMeasurement.ofMeasurement?).isSome =
      columns.holdsClassified row := by
  unfold holdsClassified
  rw [← isSome_ofRow?]
  cases hm : Measurement.ofRow? columns row with
  | none => rfl
  | some m =>
      obtain ⟨e, he, hspells⟩ := exists_shows_of_ofRow? hm
      obtain ⟨-, hname, -, -⟩ := RowTexts.fields_of_measurement? hspells
      rw [Option.bind_some, ClassifiedMeasurement.ofMeasurement?, Option.isSome_map, he.name, hname,
        Option.bind_some, Option.isSome_some, Bool.true_and]

/-- A row in which a classified measurement is found tells it. -/
theorem tells_of_ofRow? {m : ClassifiedMeasurement}
    (h : (Measurement.ofRow? columns row).bind ClassifiedMeasurement.ofMeasurement? = some m) :
    columns.Tells row m := by
  obtain ⟨measurement, hm, hkind⟩ := Option.bind_eq_some_iff.1 h
  obtain ⟨e, he, hspells⟩ := exists_shows_of_ofRow? hm
  obtain ⟨hid, hname, hiterations, hcycles⟩ := RowTexts.fields_of_measurement? hspells
  obtain ⟨kind, hclassify, rfl⟩ := Option.map_eq_some_iff.1 hkind
  constructor
  · rw [he.id, Option.bind_some, hid]
  · rw [he.name, hname]
  · rw [he.iterations, Option.map_some, hiterations]
  · rw [he.cycles, Option.map_some, hcycles]
  · rw [he.name, Option.bind_some, hname, hclassify]

end ColumnPositions

/-- What is found in a list is found in the elements that give something, in their
order. -/
theorem forall₂_filter_filterMap {α β : Type} {p : α → Bool} {f : α → Option β} {R : α → β → Prop}
    (hp : ∀ a, (f a).isSome = p a) (hR : ∀ a b, f a = some b → R a b) (l : List α) :
    List.Forall₂ R (l.filter p) (l.filterMap f) := by
  induction l with
  | nil => exact .nil
  | cons a rest ih =>
      rw [List.filter_cons, List.filterMap_cons, ← hp a]
      cases hfound : f a with
      | none => exact ih
      | some b => exact .cons (hR a b hfound) ih

namespace Layout

/-- The rows of data that hold a measurement. -/
def measurementRows (layout : Layout) (rows : List (List String)) : List (List String) :=
  (layout.dataRows rows).filter layout.columns.holdsMeasurement

/-- The rows of data that hold a classified measurement. -/
def classifiedRows (layout : Layout) (rows : List (List String)) : List (List String) :=
  (layout.dataRows rows).filter layout.columns.holdsClassified

variable {rows : List (List String)}

theorem dataRows_append (layout : Layout) (h : rows ≠ []) (more : List (List String)) :
    layout.dataRows (rows ++ more) = layout.dataRows rows ++ more := by
  cases layout with
  | headless => rfl
  | headed columns =>
      obtain ⟨first, rest, rfl⟩ := List.exists_cons_of_ne_nil h
      rfl

theorem classifiedRows_append (layout : Layout) (h : rows ≠ []) (more : List (List String)) :
    layout.classifiedRows (rows ++ more) =
      layout.classifiedRows rows ++ more.filter layout.columns.holdsClassified := by
  rw [classifiedRows, dataRows_append layout h, List.filter_append]
  rfl

theorem length_measurementRows (layout : Layout) (rows : List (List String)) :
    (layout.measurementRows rows).length =
      ((layout.dataRows rows).filterMap (Measurement.ofRow? layout.columns)).length :=
  (forall₂_filter_filterMap (R := fun _ _ => True)
    (fun _ => ColumnPositions.isSome_ofRow?) (fun _ _ _ => trivial) _).length_eq

end Layout

namespace MeasurementTable

variable {rows : List (List String)} {layout : Layout}

/-- A table whose first row shows a layout has measurements. -/
theorem ofRows_of_ofFirstRow (h : Layout.ofFirstRow rows.head? = .ok layout) :
    ofRows rows = .ok
      { layout, measurements := (layout.dataRows rows).filterMap (Measurement.ofRow? layout.columns)
        dropped := (layout.dataRows rows).length - (layout.measurementRows rows).length } := by
  rw [ofRows, h, Layout.length_measurementRows]

end MeasurementTable

section Outcome

variable {rows : List (List String)} {layout : Layout}

theorem forall₂_classified (layout : Layout) (rows : List (List String)) :
    List.Forall₂ layout.columns.Tells (layout.classifiedRows rows)
      (classifyAll ((layout.dataRows rows).filterMap (Measurement.ofRow? layout.columns))) := by
  unfold classifyAll
  rw [List.filterMap_filterMap]
  exact forall₂_filter_filterMap (fun _ => ColumnPositions.isSome_classified)
    (fun _ _ => ColumnPositions.tells_of_ofRow?) _

/-- The account that an analysis gives of the rows of a table. -/
structure Analysis.Accounts (a : Analysis) (rows : List (List String)) : Prop where
  layout : Layout.ofFirstRow rows.head? = .ok a.layout
  rowsRead : a.rowsRead = (a.layout.dataRows rows).length
  canonicalRows : a.canonicalRows = (a.layout.measurementRows rows).length
  classified : List.Forall₂ a.layout.columns.Tells (a.layout.classifiedRows rows) a.classified

theorem analyze_of_classifiedRows_eq_nil (hlayout : Layout.ofFirstRow rows.head? = .ok layout)
    (h : layout.classifiedRows rows = []) :
    analyze rows = .error (.emptyResult (layout.measurementRows rows).length) := by
  have hempty := forall₂_classified layout rows
  rw [h, List.forall₂_nil_left_iff] at hempty
  rw [analyze_of_measurements (MeasurementTable.ofRows_of_ofFirstRow hlayout), analyzeMeasurements,
    hempty, List.isEmpty_nil, if_pos rfl, Layout.length_measurementRows]

theorem analyze_of_classifiedRows_ne_nil (hlayout : Layout.ofFirstRow rows.head? = .ok layout)
    (h : layout.classifiedRows rows ≠ []) : ∃ a, analyze rows = .ok a ∧ a.Accounts rows := by
  have hclassified := forall₂_classified layout rows
  have hlength : (layout.measurementRows rows).length ≤ (layout.dataRows rows).length :=
    List.length_filter_le _ _
  rw [analyze_of_measurements (MeasurementTable.ofRows_of_ofFirstRow hlayout), analyzeMeasurements,
    if_neg]
  · refine ⟨_, rfl, hlayout, ?_, (Layout.length_measurementRows layout rows).symm, hclassified⟩
    simp only [Analysis.ofMeasurements, ← Layout.length_measurementRows]
    omega
  · rw [List.isEmpty_iff]
    intro hempty
    rw [hempty, List.forall₂_nil_right_iff] at hclassified
    exact h hclassified

/-- The three outcomes of an analysis, by what its rows hold. -/
theorem analyze_cases (rows : List (List String)) :
    (∃ e, Layout.ofFirstRow rows.head? = .error e ∧ analyze rows = .error (.layout e)) ∨
      ∃ layout, Layout.ofFirstRow rows.head? = .ok layout ∧
        ((layout.classifiedRows rows = [] ∧
          analyze rows = .error (.emptyResult (layout.measurementRows rows).length)) ∨
        (layout.classifiedRows rows ≠ [] ∧ ∃ a, analyze rows = .ok a ∧ a.Accounts rows)) := by
  cases hlayout : Layout.ofFirstRow rows.head? with
  | error e =>
      refine .inl ⟨e, rfl, analyze_of_layoutError ?_⟩
      rw [MeasurementTable.ofRows, hlayout]
  | ok layout =>
      refine .inr ⟨layout, rfl, ?_⟩
      by_cases h : layout.classifiedRows rows = []
      · exact .inl ⟨h, analyze_of_classifiedRows_eq_nil hlayout h⟩
      · exact .inr ⟨h, analyze_of_classifiedRows_ne_nil hlayout h⟩

theorem analyze_eq_layoutError_iff {e : LayoutError} :
    analyze rows = .error (.layout e) ↔ Layout.ofFirstRow rows.head? = .error e := by
  constructor
  · intro h
    rcases analyze_cases rows with ⟨_, he, ha⟩ | ⟨_, _, ⟨_, ha⟩ | ⟨_, _, ha, _⟩⟩
    · rw [ha] at h
      cases h
      exact he
    · rw [ha] at h
      cases h
    · rw [ha] at h
      cases h
  · intro h
    apply analyze_of_layoutError
    rw [MeasurementTable.ofRows, h]

theorem analyze_eq_emptyResult_iff {n : Nat} :
    analyze rows = .error (.emptyResult n) ↔
      ∃ layout, Layout.ofFirstRow rows.head? = .ok layout ∧ layout.classifiedRows rows = [] ∧
        n = (layout.measurementRows rows).length := by
  constructor
  · intro h
    rcases analyze_cases rows with ⟨_, _, ha⟩ | ⟨layout, hlayout, ⟨hnil, ha⟩ | ⟨_, _, ha, _⟩⟩
    · rw [ha] at h
      cases h
    · rw [ha] at h
      cases h
      exact ⟨layout, hlayout, hnil, rfl⟩
    · rw [ha] at h
      cases h
  · rintro ⟨layout, hlayout, hnil, rfl⟩
    exact analyze_of_classifiedRows_eq_nil hlayout hnil

theorem accounts_of_analyze {a : Analysis} (h : analyze rows = .ok a) : a.Accounts rows := by
  rcases analyze_cases rows with ⟨_, _, ha⟩ | ⟨_, _, ⟨_, ha⟩ | ⟨_, _, ha, haccounts⟩⟩
  · rw [ha] at h
    cases h
  · rw [ha] at h
    cases h
  · rw [ha] at h
    cases h
    exact haccounts

theorem exists_analyze_eq_ok_iff :
    (∃ a, analyze rows = .ok a) ↔
      ∃ layout, Layout.ofFirstRow rows.head? = .ok layout ∧ layout.classifiedRows rows ≠ [] := by
  constructor
  · rintro ⟨a, ha⟩
    refine ⟨a.layout, (accounts_of_analyze ha).layout, ?_⟩
    intro hnil
    rw [analyze_of_classifiedRows_eq_nil (accounts_of_analyze ha).layout hnil] at ha
    cases ha
  · rintro ⟨layout, hlayout, hne⟩
    obtain ⟨a, ha, _⟩ := analyze_of_classifiedRows_ne_nil hlayout hne
    exact ⟨a, ha⟩

/-- Rows at the end do not take back that a table is accepted. -/
theorem exists_analyze_append_eq_ok (h : ∃ a, analyze rows = .ok a) (more : List (List String)) :
    ∃ a, analyze (rows ++ more) = .ok a := by
  obtain ⟨layout, hlayout, hne⟩ := exists_analyze_eq_ok_iff.1 h
  have hrows : rows ≠ [] := by
    rintro rfl
    cases hlayout
  apply exists_analyze_eq_ok_iff.2
  refine ⟨layout, ?_, ?_⟩
  · rwa [List.head?_append_of_ne_nil _ hrows]
  · rw [Layout.classifiedRows_append layout hrows]
    exact List.append_ne_nil_of_left_ne_nil hne _

/-- The outcome of an analysis and its account of the rows. It refuses a table
for its layout exactly if the first row shows none, for its names exactly if no
row of data holds a classified measurement, and then it says how many hold a
measurement; otherwise it lists what the rows that do hold one tell. All four
cells of a row are there exactly if the row has the least width. Rows at the end
of a table neither take back that it is accepted nor change a refused layout. -/
theorem analyze_accounts (rows : List (List String)) :
    (∀ e, analyze rows = .error (.layout e) ↔ Layout.ofFirstRow rows.head? = .error e) ∧
    (∀ n, analyze rows = .error (.emptyResult n) ↔
      ∃ layout, Layout.ofFirstRow rows.head? = .ok layout ∧ layout.classifiedRows rows = [] ∧
        n = (layout.measurementRows rows).length) ∧
    ((∃ a, analyze rows = .ok a) ↔
      ∃ layout, Layout.ofFirstRow rows.head? = .ok layout ∧ layout.classifiedRows rows ≠ []) ∧
    (∀ a, analyze rows = .ok a → a.Accounts rows) ∧
    (∀ (columns : ColumnPositions) (row : List String),
      columns.width ≤ row.length ↔ ∃ e, columns.Shows row e) ∧
    (∀ more, (∃ a, analyze rows = .ok a) → ∃ a, analyze (rows ++ more) = .ok a) ∧
    (rows ≠ [] → ∀ more e,
      analyze (rows ++ more) = .error (.layout e) ↔ analyze rows = .error (.layout e)) := by
  refine ⟨fun _ => analyze_eq_layoutError_iff, fun _ => analyze_eq_emptyResult_iff,
    exists_analyze_eq_ok_iff, fun _ => accounts_of_analyze,
    fun _ _ => ColumnPositions.width_le_iff, fun more h => exists_analyze_append_eq_ok h more, ?_⟩
  intro hne more e
  rw [analyze_eq_layoutError_iff, analyze_eq_layoutError_iff, List.head?_append_of_ne_nil _ hne]

/-- A row with cells to spare, one that is too short, one without an id, one with a
name that does not classify and one whose cycles are no number. What is listed of the first
and the last row has 1.5 cycles and none. -/
theorem analyze_accounts_jagged :
    let rows := [["cycles", "x", "id", "name", "iterations"],
      ["1.5", "", "7", "new_float0", " 3 ", "more"], ["2", "", "8", "new_float0"],
      ["2", "", "y", "new_dbl1", "1"], ["2", "", "9", "other", "1"],
      ["n/a", "", "10.0", "old_dbl12", ""]]
    ∃ a, analyze rows = .ok a ∧ a.rowsRead = 5 ∧ a.canonicalRows = 3 ∧
      a.classified =
        [⟨⟨7, "new_float0", "3", some (.ofBits 0x3FF8000000000000)⟩, ⟨0, .new, .float⟩⟩,
          ⟨⟨10, "old_dbl12", "", none⟩, ⟨12, .old, .dbl⟩⟩] ∧
      (∃ a', analyze (rows ++ [[]]) = .ok a') ∧
      ¬ ∃ e, analyze (rows ++ [[]]) = .error (.layout e) := by
  intro rows
  obtain ⟨hlayout, -, hok, haccounts, -, happend, hsame⟩ := analyze_accounts rows
  have hfirst : Layout.ofFirstRow rows.head? = .ok (.headed ⟨2, 3, 4, 0⟩) := by decide
  have hclassified : (analyze rows).toOption.map Analysis.classified =
      some [⟨⟨7, "new_float0", "3", some (.ofBits 0x3FF8000000000000)⟩, ⟨0, .new, .float⟩⟩,
        ⟨⟨10, "old_dbl12", "", none⟩, ⟨12, .old, .dbl⟩⟩] := by
    decide +kernel
  obtain ⟨a, ha⟩ := hok.2 ⟨_, hfirst, by decide +kernel⟩
  have h := haccounts a ha
  have hheaded : a.layout = .headed ⟨2, 3, 4, 0⟩ := Except.ok.inj (h.layout.symm.trans hfirst)
  rw [ha, Except.toOption, Option.map_some, Option.some.injEq] at hclassified
  refine ⟨a, ha, ?_, ?_, hclassified, happend _ ⟨a, ha⟩, ?_⟩
  · rw [h.rowsRead, hheaded]
    rfl
  · rw [h.canonicalRows, hheaded]
    decide +kernel
  · rintro ⟨e, he⟩
    rw [hsame (List.cons_ne_nil _ _), hlayout, hfirst] at he
    cases he

end Outcome

end CycleComparison

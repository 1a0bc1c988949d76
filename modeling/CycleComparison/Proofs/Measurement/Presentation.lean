import CycleComparison.Proofs.Analysis.Outcome
import Mathlib.Data.List.Forall2

/-!
# Presentations of a list of entries

An entry is the four texts that a row of data is about, its `RowTexts`. Many
tables present the same entries: under a header the columns may come in any
order, under either label, repeated and mixed with others, and a row may go on
after its last column; without a header the four texts are the row. What is read
from a table depends on its entries alone: the measurements are those of the
entries, in their order, and every other entry counts as dropped.
-/

namespace CycleComparison

/-- The four texts of a row of data. -/
structure RowTexts where
  id : String
  name : String
  iterations : String
  cycles : String

namespace RowTexts

/-- The texts in the usual order of the columns. -/
def cells (e : RowTexts) : List String := [e.id, e.name, e.iterations, e.cycles]

/-- The measurement that an entry spells, if its id is one. -/
def measurement? (e : RowTexts) : Option Measurement :=
  (idOfText? e.id).map fun id =>
    { id, name := e.name, iterations := trim e.iterations, cycles := finiteOfText? e.cycles }

end RowTexts

/-- A row reaches all columns and has the texts of an entry in them. -/
structure ColumnPositions.Shows (columns : ColumnPositions) (row : List String) (e : RowTexts) :
    Prop where
  id : row[columns.id]? = some e.id
  name : row[columns.name]? = some e.name
  iterations : row[columns.iterations]? = some e.iterations
  cycles : row[columns.cycles]? = some e.cycles

/-- A table with a header whose rows of data show the given entries, one each. -/
inductive Presents : List (List String) → List RowTexts → Prop
  | intro {header : List String} {data : List (List String)} {entries : List RowTexts}
      (columns : ColumnPositions)
      (hheader : Layout.ofFirstRow (some header) = .ok (.headed columns))
      (hdata : List.Forall₂ columns.Shows data entries) :
      Presents (header :: data) entries

theorem ColumnPositions.usual_shows (e : RowTexts) : ColumnPositions.usual.Shows e.cells e :=
  ⟨rfl, rfl, rfl, rfl⟩

theorem Measurement.ofRow?_of_shows {columns : ColumnPositions} {row : List String} {e : RowTexts}
    (h : columns.Shows row e) : Measurement.ofRow? columns row = e.measurement? := by
  unfold Measurement.ofRow? RowTexts.measurement?
  rw [h.id, h.name, h.iterations, h.cycles]
  simp only [Option.bind_eq_bind, Option.bind_some]
  cases idOfText? e.id with
  | none => rfl
  | some id => rfl

/-- A row in which a measurement is found reaches all columns and spells it. -/
theorem exists_shows_of_ofRow? {columns : ColumnPositions} {row : List String} {m : Measurement}
    (h : Measurement.ofRow? columns row = some m) :
    ∃ e, columns.Shows row e ∧ e.measurement? = some m := by
  have hcells := h
  unfold Measurement.ofRow? at hcells
  simp only [Option.bind_eq_bind, Option.bind_eq_some_iff] at hcells
  obtain ⟨id, hid, name, hname, iterations, hiterations, cycles, hcycles, _⟩ := hcells
  have he : columns.Shows row ⟨id, name, iterations, cycles⟩ :=
    ⟨hid, hname, hiterations, hcycles⟩
  exact ⟨_, he, (Measurement.ofRow?_of_shows he).symm.trans h⟩

theorem RowTexts.fields_of_measurement? {e : RowTexts} {m : Measurement}
    (h : e.measurement? = some m) :
    idOfText? e.id = some m.id ∧ e.name = m.name ∧ trim e.iterations = m.iterations ∧
      finiteOfText? e.cycles = m.cycles := by
  rw [measurement?] at h
  obtain ⟨id, hid, rfl⟩ := Option.map_eq_some_iff.1 h
  simp only [hid, and_self]

theorem Measurement.filterMap_ofRow?_of_shows {columns : ColumnPositions}
    {data : List (List String)} {entries : List RowTexts}
    (h : List.Forall₂ columns.Shows data entries) :
    data.filterMap (Measurement.ofRow? columns) = entries.filterMap RowTexts.measurement? := by
  induction h with
  | nil => rfl
  | cons hrow _ ih =>
      rw [List.filterMap_cons, List.filterMap_cons, ofRow?_of_shows hrow, ih]

namespace MeasurementTable

/-- The table that a layout makes of entries. -/
def ofEntries (layout : Layout) (entries : List RowTexts) : MeasurementTable where
  layout
  measurements := entries.filterMap RowTexts.measurement?
  dropped := entries.length - (entries.filterMap RowTexts.measurement?).length

theorem ofRows_of_shows (rows : List (List String)) {layout : Layout} {entries : List RowTexts}
    (hlayout : Layout.ofFirstRow rows.head? = .ok layout)
    (hdata : List.Forall₂ layout.columns.Shows (layout.dataRows rows) entries) :
    ofRows rows = .ok (ofEntries layout entries) := by
  unfold ofRows ofEntries
  rw [hlayout]
  simp only
  rw [Measurement.filterMap_ofRow?_of_shows hdata, hdata.length_eq]

theorem ofRows_of_presents {rows : List (List String)} {entries : List RowTexts}
    (h : Presents rows entries) :
    ∃ layout, ofRows rows = .ok (ofEntries layout entries) := by
  obtain ⟨columns, hheader, hdata⟩ := h
  exact ⟨.headed columns, ofRows_of_shows _ hheader hdata⟩

end MeasurementTable

namespace Layout

theorem ofFirstRow_cells {e : RowTexts} (h : ∀ cell ∈ e.cells, Column.ofLabel? cell ≠ some .id) :
    ofFirstRow (some e.cells) = .ok .headless := by
  have hnone : Column.position? e.cells .id = none := by
    apply List.findIdx?_eq_none_iff.2
    intro cell hcell
    exact beq_false_of_ne (h cell hcell)
  unfold ofFirstRow
  simp only [hnone]
  rfl

end Layout

theorem MeasurementTable.ofRows_cells {e : RowTexts} (rest : List RowTexts)
    (h : ∀ cell ∈ e.cells, Column.ofLabel? cell ≠ some .id) :
    ofRows ((e :: rest).map RowTexts.cells) = .ok (ofEntries .headless (e :: rest)) := by
  have hdata : List.Forall₂ ColumnPositions.usual.Shows ((e :: rest).map RowTexts.cells)
      (e :: rest) := by
    rw [List.forall₂_map_left_iff]
    exact List.forall₂_same.2 fun e _ => ColumnPositions.usual_shows e
  exact ofRows_of_shows ((e :: rest).map RowTexts.cells) (Layout.ofFirstRow_cells h) hdata

/-- Two tables have the same measurements, the same number of dropped rows and,
layout aside, the same analysis or the same error. -/
def ReadAlike (rows rows' : List (List String)) : Prop :=
  ∃ t t', MeasurementTable.ofRows rows = .ok t ∧ MeasurementTable.ofRows rows' = .ok t' ∧
    t.measurements = t'.measurements ∧ t.dropped = t'.dropped ∧
    (analyze rows).map Analysis.forgetLayout = (analyze rows').map Analysis.forgetLayout

theorem ReadAlike.of_ofEntries {rows rows' : List (List String)} {l l' : Layout}
    {entries : List RowTexts} (h : MeasurementTable.ofRows rows = .ok (.ofEntries l entries))
    (h' : MeasurementTable.ofRows rows' = .ok (.ofEntries l' entries)) :
    ReadAlike rows rows' := by
  refine ⟨_, _, h, h', rfl, rfl, ?_⟩
  rw [analyze_of_measurements h, analyze_of_measurements h']
  exact analyzeMeasurements_congr rfl rfl

/-- What is read from a table does not depend on how it presents its entries. Any
two tables with headers that present the same entries are read alike, and so is
the table of the bare entries, unless its first row would pass for a header. -/
theorem presentations_agree (entries : List RowTexts) :
    (∀ rows rows', Presents rows entries → Presents rows' entries → ReadAlike rows rows') ∧
    (∀ e rest, entries = e :: rest →
      (∀ cell ∈ e.cells, Column.ofLabel? cell ≠ some .id) →
      (∃ t, MeasurementTable.ofRows (entries.map RowTexts.cells) = .ok t ∧ t.layout = .headless) ∧
        ∀ rows, Presents rows entries → ReadAlike rows (entries.map RowTexts.cells)) := by
  constructor
  · intro rows rows' h h'
    obtain ⟨l, hl⟩ := MeasurementTable.ofRows_of_presents h
    obtain ⟨l', hl'⟩ := MeasurementTable.ofRows_of_presents h'
    exact .of_ofEntries hl hl'
  · rintro e rest rfl hcells
    have hbare := MeasurementTable.ofRows_cells rest hcells
    refine ⟨⟨_, hbare, rfl⟩, ?_⟩
    intro rows h
    obtain ⟨l, hl⟩ := MeasurementTable.ofRows_of_presents h
    exact .of_ofEntries hl hbare

/-- A reordered header with aliases, padding, a repeated label and a stray
column, the usual header, and no header at all. -/
theorem presentations_agree_reordered :
    let entries : List RowTexts :=
      [⟨"1", "new_float3", " 10", "120.0"⟩, ⟨"x", "old_float3", "10", "150.0"⟩]
    let reordered :=
      [["cycles_per_tuple", "host", " benchmark_number", "name", "iterations", "id"],
       ["120.0", "a", "1", "new_float3", " 10", "9", "more"],
       ["150.0", "b", "x", "old_float3", "10"]]
    let usual := ["id", "name", "iterations", "cycles"] :: entries.map RowTexts.cells
    Presents reordered entries ∧ Presents usual entries ∧ ReadAlike reordered usual ∧
      ReadAlike reordered (entries.map RowTexts.cells) := by
  intro entries reordered usual
  have hreordered : Presents reordered entries :=
    .intro ⟨2, 3, 4, 0⟩ (by decide)
      (.cons ⟨rfl, rfl, rfl, rfl⟩ (.cons ⟨rfl, rfl, rfl, rfl⟩ .nil))
  have husual : Presents usual entries :=
    .intro .usual (by decide)
      (.cons ⟨rfl, rfl, rfl, rfl⟩ (.cons ⟨rfl, rfl, rfl, rfl⟩ .nil))
  have hno : ∀ cell ∈ (⟨"1", "new_float3", " 10", "120.0"⟩ : RowTexts).cells,
      Column.ofLabel? cell ≠ some .id := by decide
  exact ⟨hreordered, husual, (presentations_agree entries).1 _ _ hreordered husual,
    ((presentations_agree entries).2 _ _ rfl hno).2 _ hreordered⟩

end CycleComparison

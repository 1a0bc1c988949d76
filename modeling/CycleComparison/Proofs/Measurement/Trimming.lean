import CycleComparison.Measurement.Basic
import CycleComparison.Proofs.Delimited.Reading

/-!
# Trimmed tables

Labels, ids, iterations and cycles are trimmed when a table is read, so it makes no
difference to them whether the cells were trimmed before. Only a name is taken as
its cell is. So a text that is loaded with and without trimming shows the same
layout and the same measurements, up to the blanks around their names.
-/

namespace CycleComparison

def Measurement.trimName (m : Measurement) : Measurement := { m with name := trim m.name }

def MeasurementTable.trimNames (table : MeasurementTable) : MeasurementTable :=
  { table with measurements := table.measurements.map Measurement.trimName }

theorem idOfText?_trim (cell : String) : idOfText? (trim cell) = idOfText? cell := by
  unfold idOfText?
  rw [trim_trim]

theorem finiteOfText?_trim (cell : String) : finiteOfText? (trim cell) = finiteOfText? cell := by
  unfold finiteOfText?
  rw [trim_trim]

theorem Column.ofLabel?_trim (cell : String) : ofLabel? (trim cell) = ofLabel? cell := by
  unfold ofLabel?
  rw [trim_trim]

theorem Column.position?_map_trim (header : List String) :
    position? (header.map trim) = position? header := by
  funext column
  unfold position?
  rw [List.findIdx?_map]
  simp only [Function.comp_def, ofLabel?_trim]

namespace Layout

theorem ofFirstRow_map_trim (first : Option (List String)) :
    ofFirstRow (first.map (List.map trim)) = ofFirstRow first := by
  cases first with
  | none => rfl
  | some row =>
      rw [Option.map_some]
      unfold ofFirstRow
      simp only [Column.position?_map_trim, List.length_map]

theorem dataRows_map (layout : Layout) (f : List String → List String)
    (rows : List (List String)) : layout.dataRows (rows.map f) = (layout.dataRows rows).map f := by
  cases layout with
  | headed columns => exact List.map_drop.symm
  | headless => rfl

end Layout

theorem Measurement.ofRow?_map_trim (columns : ColumnPositions) (row : List String) :
    ofRow? columns (row.map trim) = (ofRow? columns row).map trimName := by
  unfold ofRow?
  simp only [List.getElem?_map, Option.bind_eq_bind, Option.bind_map, Function.comp_def,
    idOfText?_trim, finiteOfText?_trim, trim_trim, Option.map_bind, Option.pure_def,
    Option.map_some, trimName]

theorem MeasurementTable.ofRows_map_trim (rows : List (List String)) :
    ofRows (rows.map (List.map trim)) = (ofRows rows).map trimNames := by
  unfold ofRows
  rw [List.head?_map, Layout.ofFirstRow_map_trim]
  cases Layout.ofFirstRow rows.head? with
  | error e => rfl
  | ok layout =>
      have hmeasurements :
          ((layout.dataRows rows).map (List.map trim)).filterMap
              (Measurement.ofRow? layout.columns) =
            ((layout.dataRows rows).filterMap (Measurement.ofRow? layout.columns)).map
              Measurement.trimName := by
        rw [List.filterMap_map, List.map_filterMap]
        exact List.filterMap_congr fun row _ => Measurement.ofRow?_map_trim layout.columns row
      simp only [Layout.dataRows_map, hmeasurements, List.length_map, Except.map, trimNames]

open Delimited

/-- The switches of the reader act each on its own, whatever the other options are.
A demand for one width refuses the tables that are not of one width and changes no
other. Trimming refuses no table and changes none but for the blanks around the
cells; the table of measurements is then the same, or fails in the same way, but for
the blanks around the names. -/
theorem load_switches (options : ReadOptions) (source : Source) :
    (∀ rows, load { options with flexible := false } source = .ok rows ↔
      load { options with flexible := true } source = .ok rows ∧ OneWidth rows) ∧
    (∀ rows, load { options with trim := true } source = .ok rows ↔
      ∃ bare, load { options with trim := false } source = .ok bare ∧
        rows = bare.map (List.map trim)) ∧
    ∀ bare rows, load { options with trim := false } source = .ok bare →
      load { options with trim := true } source = .ok rows →
        MeasurementTable.ofRows rows =
          (MeasurementTable.ofRows bare).map MeasurementTable.trimNames := by
  refine ⟨fun _ => load_flexible_false_iff, fun _ => load_trim_true_iff, ?_⟩
  intro bare rows hbare hrows
  obtain ⟨bare', hbare', rfl⟩ := load_trim_true_iff.1 hrows
  cases hbare.symm.trans hbare'
  exact MeasurementTable.ofRows_map_trim bare

/-- Blanks inside and outside of quotes, some of them line breaks and some beyond
ASCII. -/
theorem load_switches_blank :
    let options : ReadOptions := { ReadOptions.default with flexible := false }
    let source := Source.ofText "\u00A01,\" new_float3\n\",10 ,\u20032"
    let bare := [["\u00A01", " new_float3\n", "10 ", "\u20032"]]
    load { options with trim := false } source = .ok bare ∧
      load { options with trim := true } source = .ok [["1", "new_float3", "10", "2"]] ∧
      OneWidth bare ∧
      MeasurementTable.ofRows [["1", "new_float3", "10", "2"]] =
        (MeasurementTable.ofRows bare).map MeasurementTable.trimNames := by
  intro options source bare
  have hbare : load { options with trim := false } source = .ok bare := by rfl
  have hcells : bare.map (List.map trim) = [["1", "new_float3", "10", "2"]] := by decide
  obtain ⟨_, htrim, htable⟩ := load_switches options source
  have hrows := (htrim _).2 ⟨bare, hbare, hcells.symm⟩
  have hone := ((load_switches { options with trim := false } source).1 bare).1 hbare
  exact ⟨hbare, hrows, hone.2, htable bare _ hbare hrows⟩

end CycleComparison

import CycleComparison.Measurement.Basic
import CycleComparison.Proofs.Text.Trim

/-!
# Normal measurements

A measurement that was read from a row has trimmed iterations, and its cycles are
finite where they are defined.
-/

namespace CycleComparison

theorem isFinite_of_finiteOfText? {cell : String} {x : Binary64}
    (h : finiteOfText? cell = some x) : x.isFinite := by
  rw [finiteOfText?, Option.filter_eq_some_iff] at h
  exact h.2

namespace Measurement

/-- What every measurement in a table satisfies. -/
structure IsNormal (m : Measurement) : Prop where
  trimmed : trim m.iterations = m.iterations
  finite : ∀ x, m.cycles = some x → x.isFinite

theorem isNormal_of_ofRow? {columns : ColumnPositions} {row : List String} {m : Measurement}
    (h : ofRow? columns row = some m) : m.IsNormal := by
  unfold ofRow? at h
  simp only [Option.bind_eq_bind, Option.bind_eq_some_iff] at h
  obtain ⟨id, hid, name, hname, iterations, hiterations, cycles, hcycles, word, hword, h⟩ := h
  cases h
  constructor
  · exact trim_trim iterations
  · intro x hx
    simp only at hx
    exact isFinite_of_finiteOfText? hx

end Measurement

theorem MeasurementTable.isNormal_of_ofRows {rows : List (List String)} {table : MeasurementTable}
    (h : ofRows rows = .ok table) : ∀ m ∈ table.measurements, m.IsNormal := by
  unfold ofRows at h
  split at h
  · cases h
  · cases h
    intro m hm
    obtain ⟨row, _, hrow⟩ := List.mem_filterMap.1 hm
    exact Measurement.isNormal_of_ofRow? hrow

end CycleComparison

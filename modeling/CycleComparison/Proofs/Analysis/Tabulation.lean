import CycleComparison.Analysis.Basic
import CycleComparison.Proofs.Statistics.Grouping

/-!
# What the tables of means hold

The tables of measurements are known without the way in which they are made: a
precision has a table if a measurement has this precision, and the cell of a kind
of benchmark is the mean of the defined cycles of the measurements of this kind,
each of them taken once and in order. Kinds without defined cycles leave no
trace, so a table is the only one with these cells and no rows beside them.
-/

namespace CycleComparison

/-- The defined cycles of the measurements of a kind of benchmark, in order. -/
def definedCycles (ms : List ClassifiedMeasurement) (kind : Classification) : List Binary64 :=
  (ms.filter fun m => m.classification = kind).filterMap fun m => m.measurement.cycles

theorem groupValues_sample (ms : List ClassifiedMeasurement) (kind : Classification) :
    groupValues (ms.map ClassifiedMeasurement.sample) kind = definedCycles ms kind := by
  induction ms with
  | nil => rfl
  | cons m rest ih =>
      unfold groupValues definedCycles at *
      rw [List.map_cons, List.filterMap_cons, ih]
      by_cases hkind : m.classification = kind
      · rw [List.filter_cons_of_pos (by simpa using hkind), List.filterMap_cons]
        simp only [ClassifiedMeasurement.sample, hkind, if_true]
      · rw [List.filter_cons_of_neg (by simpa using hkind)]
        simp only [ClassifiedMeasurement.sample, hkind, if_false]

theorem mem_definedCycles_iff {ms : List ClassifiedMeasurement} {kind : Classification}
    {x : Binary64} :
    x ∈ definedCycles ms kind ↔
      ∃ m ∈ ms, m.classification = kind ∧ m.measurement.cycles = some x := by
  unfold definedCycles
  simp only [List.mem_filterMap, List.mem_filter, decide_eq_true_eq, and_assoc]

theorem definedCycles_eq_nil_iff {ms : List ClassifiedMeasurement} {kind : Classification} :
    definedCycles ms kind = [] ↔
      ∀ m ∈ ms, m.classification = kind → m.measurement.cycles = none := by
  unfold definedCycles
  simp only [List.filterMap_eq_nil_iff, List.mem_filter, decide_eq_true_eq, and_imp]

theorem occurs_sample_iff {ms : List ClassifiedMeasurement} {p : Precision} :
    Occurs p (ms.map ClassifiedMeasurement.sample) ↔
      ∃ m ∈ ms, m.classification.precision = p := by
  constructor
  · rintro ⟨s, hs, hp⟩
    obtain ⟨m, hm, rfl⟩ := List.mem_map.1 hs
    exact ⟨m, hm, hp⟩
  · rintro ⟨m, hm, hp⟩
    exact ⟨m.sample, List.mem_map_of_mem hm, hp⟩

namespace ComparisonTable

/-- A table holds the means of the measurements of a precision. -/
structure Tabulates (table : ComparisonTable Binary64) (ms : List ClassifiedMeasurement)
    (p : Precision) : Prop where
  cell : ∀ e v, table.get e v = mean (definedCycles ms ⟨e, v, p⟩)
  absent : ∀ e v, table.get e v = none ↔
    ∀ m ∈ ms, m.classification = ⟨e, v, p⟩ → m.measurement.cycles = none
  ascending : table.exceptions.Pairwise (· < ·)
  exceptions : ∀ e, e ∈ table.exceptions ↔ ∃ m ∈ ms,
    m.classification.precision = p ∧ m.classification.exceptions = e ∧
      m.measurement.cycles.isSome

namespace Tabulates

variable {table table' : ComparisonTable Binary64} {ms : List ClassifiedMeasurement}
  {p : Precision}

theorem of_aggregate
    (h : (aggregate (ms.map ClassifiedMeasurement.sample)).get p = some table) :
    table.Tabulates ms p := by
  have hcell (e : UInt64) (v : Version) : table.get e v = mean (definedCycles ms ⟨e, v, p⟩) := by
    rw [get_aggregate h, groupValues_sample]
  have habsent (e : UInt64) (v : Version) : table.get e v = none ↔
      ∀ m ∈ ms, m.classification = ⟨e, v, p⟩ → m.measurement.cycles = none := by
    rw [hcell, mean_eq_none_iff, definedCycles_eq_nil_iff]
  refine ⟨hcell, habsent, table.pairwise_exceptions, fun e => ?_⟩
  rw [(hasCells_aggregate h).mem_exceptions_iff]
  constructor
  · rintro ⟨v, x, hx⟩
    have hne : definedCycles ms ⟨e, v, p⟩ ≠ [] := by
      rw [hcell] at hx
      rintro hnil
      rw [hnil] at hx
      cases hx
    obtain ⟨y, hy⟩ := List.exists_mem_of_ne_nil _ hne
    obtain ⟨m, hm, hkind, hcycles⟩ := mem_definedCycles_iff.1 hy
    refine ⟨m, hm, ?_, ?_, ?_⟩
    · rw [hkind]
    · rw [hkind]
    · rw [hcycles, Option.isSome_some]
  · rintro ⟨m, hm, rfl, rfl, hcycles⟩
    refine ⟨m.classification.version, Option.ne_none_iff_exists'.1 fun hnone => ?_⟩
    exact Option.isSome_iff_ne_none.1 hcycles ((habsent _ _).1 hnone m hm rfl)

theorem hasCells (h : table.Tabulates ms p) : table.HasCells := by
  intro row hrow hempty
  obtain ⟨m, hm, hp, he, hcycles⟩ := (h.exceptions row.1).1 (List.mem_map_of_mem hrow)
  have hnone : table.get row.1 m.classification.version = none := by
    rw [get_of_mem_rows hrow, hempty, Cells.get_empty]
  have hkind : m.classification = ⟨row.1, m.classification.version, p⟩ := by
    rw [← hp, ← he]
  rw [(h.absent _ _).1 hnone m hm hkind] at hcycles
  cases hcycles

/-- Only one table holds the means of given measurements. -/
theorem unique (h : table.Tabulates ms p) (h' : table'.Tabulates ms p) : table = table' :=
  h.hasCells.ext_get h'.hasCells fun e v => (h.cell e v).trans (h'.cell e v).symm

end Tabulates

end ComparisonTable

/-- A precision has a table exactly if a measurement has this precision, and its
table is the one that holds the means. -/
theorem aggregate_tabulates (ms : List ClassifiedMeasurement) (p : Precision) :
    ((aggregate (ms.map ClassifiedMeasurement.sample)).get p = none ↔
      ¬ ∃ m ∈ ms, m.classification.precision = p) ∧
    ∀ table, (aggregate (ms.map ClassifiedMeasurement.sample)).get p = some table ↔
      (∃ m ∈ ms, m.classification.precision = p) ∧ table.Tabulates ms p := by
  have hoccurs := isSome_get_aggregate (ms.map ClassifiedMeasurement.sample) p
  rw [occurs_sample_iff] at hoccurs
  refine ⟨by rw [← hoccurs, Option.not_isSome_iff_eq_none], fun table => ⟨fun h => ?_, ?_⟩⟩
  · exact ⟨hoccurs.1 (by rw [h]; rfl), .of_aggregate h⟩
  · rintro ⟨hp, htable⟩
    obtain ⟨found, hfound⟩ := Option.isSome_iff_exists.1 (hoccurs.2 hp)
    rw [hfound, (ComparisonTable.Tabulates.of_aggregate hfound).unique htable]

/-- The cycles 2, 4 and 6 and the cycles 3 and 6, each kind among the other, and two kinds
without any: one leaves no row in a table, the other is all that its precision has. -/
theorem aggregate_tabulates_interleaved :
    let measured (kind : Classification) (cycles : Option UInt64) : ClassifiedMeasurement :=
      ⟨⟨1, "", "1", cycles.map .ofBits⟩, kind⟩
    let ms := [measured ⟨0, .new, .float⟩ (some 0x4000000000000000),
      measured ⟨0, .old, .float⟩ (some 0x4008000000000000),
      measured ⟨0, .new, .float⟩ (some 0x4010000000000000),
      measured ⟨5, .new, .float⟩ none, measured ⟨1, .old, .dbl⟩ none,
      measured ⟨0, .old, .float⟩ (some 0x4018000000000000),
      measured ⟨0, .new, .float⟩ (some 0x4018000000000000)]
    ∃ single double, (aggregate (ms.map ClassifiedMeasurement.sample)).get .float = some single ∧
      single.Tabulates ms .float ∧ single.exceptions = [0] ∧
      single.get 0 .new = some (.ofBits 0x4010000000000000) ∧
      single.get 0 .old = some (.ofBits 0x4012000000000000) ∧ single.get 5 .new = none ∧
      (aggregate (ms.map ClassifiedMeasurement.sample)).get .dbl = some double ∧
      double.Tabulates ms .dbl ∧ double.exceptions = [] := by
  intro measured ms
  have hfloat : ((aggregate (ms.map ClassifiedMeasurement.sample)).get .float).map (fun table =>
      (table.exceptions, table.get 0 .new, table.get 0 .old, table.get 5 .new)) =
        some ([0], some (.ofBits 0x4010000000000000), some (.ofBits 0x4012000000000000), none) := by
    decide +kernel
  have hdbl : ((aggregate (ms.map ClassifiedMeasurement.sample)).get .dbl).map
      ComparisonTable.exceptions = some [] := by
    decide +kernel
  obtain ⟨single, hsingle, hcells⟩ := Option.map_eq_some_iff.1 hfloat
  obtain ⟨double, hdouble, hnone⟩ := Option.map_eq_some_iff.1 hdbl
  simp only [Prod.mk.injEq] at hcells
  obtain ⟨hexceptions, hnew, hold, habsent⟩ := hcells
  exact ⟨single, double, hsingle, (((aggregate_tabulates ms .float).2 single).1 hsingle).2,
    hexceptions, hnew, hold, habsent, hdouble,
    (((aggregate_tabulates ms .dbl).2 double).1 hdouble).2, hnone⟩

end CycleComparison

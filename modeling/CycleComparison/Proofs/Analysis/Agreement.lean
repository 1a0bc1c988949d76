import CycleComparison.Proofs.Measurement.Presentation
import CycleComparison.Proofs.Statistics.Grouping
import CycleComparison.Report.Lines
import Mathlib.Logic.Relation

/-!
# Statistics depend on the groups alone

Two tables whose rows give the same groups have the same statistics, whatever
else the rows hold and however the groups are interleaved. The edits that leave
the groups alone are changes of places between rows of different kinds, other
ids, iterations and names of the same kind, and rows that give no sample.
-/

namespace CycleComparison

/-- Two analyses have the same tables, summaries and report. -/
structure Analysis.SameStatistics (a b : Analysis) : Prop where
  tables : a.tables = b.tables
  summaries : a.summaries = b.summaries
  reportLines : a.reportLines = b.reportLines

theorem Analysis.SameStatistics.of_groups {rows rows' : List (List String)} {a b : Analysis}
    (ha : analyze rows = .ok a) (hb : analyze rows' = .ok b)
    (h : SameGroups (samplesOfRows rows) (samplesOfRows rows')) : a.SameStatistics b := by
  obtain ⟨_, htables, hsummaries⟩ := statistics_of_analyze ha
  obtain ⟨_, htables', hsummaries'⟩ := statistics_of_analyze hb
  have heq : a.tables = b.tables := by rw [htables, htables', h.aggregate_eq]
  have heq' : a.summaries = b.summaries := by rw [hsummaries, hsummaries', heq]
  exact ⟨heq, heq', by rw [Analysis.reportLines, Analysis.reportLines, heq']⟩

section Rows

variable {columns : ColumnPositions} {row row' : List String} {e e' : RowTexts}

/-- A sample is what the name and the cycles of a row say, if the id is one. -/
theorem Sample.ofRow?_of_shows (h : columns.Shows row e) :
    Sample.ofRow? columns row = (idOfText? e.id).bind fun _ =>
      (classify e.name).map fun kind => ⟨kind, finiteOfText? e.cycles⟩ := by
  unfold Sample.ofRow?
  rw [Measurement.ofRow?_of_shows h, RowTexts.measurement?]
  cases idOfText? e.id with
  | none => rfl
  | some id =>
      simp only [Option.map_some, Option.bind_some, ClassifiedMeasurement.ofMeasurement?,
        Option.map_map, Function.comp_def, ClassifiedMeasurement.sample]

/-- A row that is too short, or has an id that is none, or a name that does not
classify. -/
def IsNoise (columns : ColumnPositions) (row : List String) : Prop :=
  ∀ e, columns.Shows row e → idOfText? e.id = none ∨ classify e.name = none

theorem IsNoise.ofRow?_eq_none (h : IsNoise columns row) : Sample.ofRow? columns row = none := by
  cases hm : Measurement.ofRow? columns row with
  | none => rw [Sample.ofRow?, hm, Option.bind_none, Option.map_none]
  | some m =>
      obtain ⟨e, he, _⟩ := exists_shows_of_ofRow? hm
      rw [Sample.ofRow?_of_shows he]
      rcases h e he with hid | hname
      · rw [hid, Option.bind_none]
      · rw [hname]
        cases idOfText? e.id <;> rfl

/-- A change of the rows of data that leaves the groups as they are. -/
inductive Edit (columns : ColumnPositions) : List (List String) → List (List String) → Prop
  /-- Two neighbours of different kinds change places. -/
  | swap {row row' : List String} (before after : List (List String))
      (h : (Sample.ofRow? columns row).map Sample.classification ≠
        (Sample.ofRow? columns row').map Sample.classification) :
      Edit columns (before ++ row :: row' :: after) (before ++ row' :: row :: after)
  /-- A row gets another id or other iterations, or a name of the same kind. -/
  | reword {row row' : List String} (before after : List (List String)) (e e' : RowTexts)
      (h : columns.Shows row e) (h' : columns.Shows row' e') (hid : (idOfText? e.id).isSome)
      (hid' : (idOfText? e'.id).isSome) (hname : classify e.name = classify e'.name)
      (hcycles : finiteOfText? e.cycles = finiteOfText? e'.cycles) :
      Edit columns (before ++ row :: after) (before ++ row' :: after)
  /-- A row that gives no sample comes in. -/
  | insert {row : List String} (before after : List (List String)) (h : IsNoise columns row) :
      Edit columns (before ++ after) (before ++ row :: after)

theorem Edit.sameGroups {data data' : List (List String)} (h : Edit columns data data') :
    SameGroups (data.filterMap (Sample.ofRow? columns))
      (data'.filterMap (Sample.ofRow? columns)) := by
  cases h with
  | @swap row row' before after h =>
      rw [List.filterMap_append, List.filterMap_append]
      cases hs : Sample.ofRow? columns row with
      | none =>
          cases hs' : Sample.ofRow? columns row' <;>
            simp only [List.filterMap_cons, hs, hs'] <;> exact .refl _
      | some s =>
          cases hs' : Sample.ofRow? columns row' with
          | none =>
              simp only [List.filterMap_cons, hs, hs']
              exact .refl _
          | some s' =>
              have hkind : s.classification ≠ s'.classification := by
                intro heq
                rw [hs, hs', Option.map_some, Option.map_some, heq] at h
                exact h rfl
              simp only [List.filterMap_cons, hs, hs']
              exact .swap hkind _ _
  | @reword row row' before after e e' h h' hid hid' hname hcycles =>
      have heq : Sample.ofRow? columns row = Sample.ofRow? columns row' := by
        obtain ⟨id, hid⟩ := Option.isSome_iff_exists.1 hid
        obtain ⟨id', hid'⟩ := Option.isSome_iff_exists.1 hid'
        rw [Sample.ofRow?_of_shows h, Sample.ofRow?_of_shows h', hid, hid', hname, hcycles]
        rfl
      rw [List.filterMap_append, List.filterMap_append, List.filterMap_cons, List.filterMap_cons,
        heq]
      exact .refl _
  | @insert row before after h =>
      rw [List.filterMap_append, List.filterMap_append, List.filterMap_cons, h.ofRow?_eq_none]
      exact .refl _

theorem sameGroups_of_edits {data data' : List (List String)}
    (h : Relation.EqvGen (Edit columns) data data') :
    SameGroups (data.filterMap (Sample.ofRow? columns))
      (data'.filterMap (Sample.ofRow? columns)) := by
  induction h with
  | rel _ _ h => exact h.sameGroups
  | refl => exact .refl _
  | symm _ _ _ ih => exact ih.symm
  | trans _ _ _ _ _ ih ih' => exact ih.trans ih'

end Rows

/-- The statistics of two tables that can be analyzed are the same if the same
precisions occur and each kind of benchmark has the same cycles in the same
order. In particular no edits of the rows of data, as long as these are still
read in the same columns, make an analysis fail or change its statistics. -/
theorem statistics_agree :
    (∀ rows rows' a b, analyze rows = .ok a → analyze rows' = .ok b →
      SameGroups (samplesOfRows rows) (samplesOfRows rows') → a.SameStatistics b) ∧
    (∀ rows rows' layout layout' a, Layout.ofFirstRow rows.head? = .ok layout →
      Layout.ofFirstRow rows'.head? = .ok layout' → layout.columns = layout'.columns →
      Relation.EqvGen (Edit layout.columns) (layout.dataRows rows) (layout'.dataRows rows') →
      analyze rows = .ok a → ∃ b, analyze rows' = .ok b ∧ a.SameStatistics b) := by
  constructor
  · intro rows rows' a b ha hb hsame
    exact .of_groups ha hb hsame
  · intro rows rows' layout layout' a hlayout hlayout' hcolumns hedits ha
    have hsame : SameGroups (samplesOfRows rows) (samplesOfRows rows') := by
      rw [samplesOfRows_of_layout hlayout, samplesOfRows_of_layout hlayout', ← hcolumns]
      exact sameGroups_of_edits hedits
    have hne : samplesOfRows rows' ≠ [] := by
      obtain ⟨s, hs⟩ := List.exists_mem_of_ne_nil _ (statistics_of_analyze ha).1
      obtain ⟨s', hs', _⟩ := (hsame.occurs s.classification.precision).1 ⟨s, hs, rfl⟩
      exact List.ne_nil_of_mem hs'
    obtain ⟨b, hb⟩ := exists_analyze_eq_ok hne
    exact ⟨b, hb, .of_groups ha hb hsame⟩

/-- Under the same header, a row moved before one of another version, with another
id, other iterations and a longer name of the same kind, and a row without an
id; and the bare rows with other ids. -/
theorem statistics_agree_edited :
    let header := ["id", "name", "iterations", "cycles"]
    let rows := [header, ["1", "new_float3", "10", "120.0"], ["2", "old_float3", "10", "150.5"]]
    let edited := [header, ["-7", "old_lib_float03", "", "150.5"],
      ["1", "new_float3", "10", "120.0"], ["x", "new_float3", "10", "99"]]
    let bare := [["8", "new_float3", "10", "120.0"], ["9", "old_float3", "10", "150.5"]]
    ∃ a b c, analyze rows = .ok a ∧ analyze edited = .ok b ∧ analyze bare = .ok c ∧
      a.SameStatistics b ∧ a.SameStatistics c := by
  intro header rows edited bare
  have hswap : Edit .usual (rows.drop 1) [rows[2], rows[1]] := .swap [] [] (by decide +kernel)
  have hreword : Edit .usual [rows[2], rows[1]] [edited[1], rows[1]] :=
    .reword [] [rows[1]] ⟨"2", "old_float3", "10", "150.5"⟩ ⟨"-7", "old_lib_float03", "", "150.5"⟩
      ⟨rfl, rfl, rfl, rfl⟩ ⟨rfl, rfl, rfl, rfl⟩ (by decide +kernel) (by decide +kernel)
      (by decide +kernel) rfl
  have hinsert : Edit .usual [edited[1], rows[1]] (edited.drop 1) :=
    .insert [edited[1], rows[1]] [] fun e he => .inl (by
      rw [← Option.some.inj he.id]
      decide +kernel)
  have hsamples : samplesOfRows rows = samplesOfRows bare := by decide +kernel
  obtain ⟨a, ha⟩ : ∃ a, analyze rows = .ok a := exists_analyze_eq_ok (by decide +kernel)
  obtain ⟨c, hc⟩ : ∃ c, analyze bare = .ok c := exists_analyze_eq_ok (by decide +kernel)
  obtain ⟨b, hb, hab⟩ := statistics_agree.2 rows edited (.headed .usual) (.headed .usual) a
    (by decide) (by decide) rfl
    (.trans _ _ _ (.rel _ _ hswap) (.trans _ _ _ (.rel _ _ hreword) (.rel _ _ hinsert))) ha
  exact ⟨a, b, c, ha, hb, hc, hab, statistics_agree.1 rows bare a c ha hc (hsamples ▸ .refl _)⟩

end CycleComparison

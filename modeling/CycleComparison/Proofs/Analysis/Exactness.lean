import CycleComparison.Proofs.Analysis.Finiteness
import CycleComparison.Proofs.Binary64.Nearest
import CycleComparison.Proofs.Statistics.ArithmeticMean

/-!
# Analyses without rounding

What an analysis computes from its samples can be computed from their exact values
as well, by the same definitions over the rationals. Every value has an exact one,
since cycles that are not finite are undefined. The exact statistics are made of
arithmetic means, and rows of data may come in any order after the first row, which
decides on the layout.
-/

namespace CycleComparison

/-- A sample with its value as a rational. -/
def Sample.exact (s : Sample Binary64) : Sample ℚ :=
  ⟨s.classification, s.value.bind Binary64.value?⟩

/-- The samples in the rows of a table, with their values as rationals. -/
def exactSamples (rows : List (List String)) : List (Sample ℚ) :=
  (samplesOfRows rows).map Sample.exact

theorem Binary64.isSome_value?_iff {x : Binary64} : x.value?.isSome ↔ x.isFinite := by
  rw [value?, Option.isSome_map, isFinite]

theorem groupValues_exact (samples : List (Sample Binary64)) (kind : Classification) :
    groupValues (samples.map Sample.exact) kind =
      (groupValues samples kind).filterMap Binary64.value? := by
  unfold groupValues
  rw [List.filterMap_map, List.filterMap_filterMap]
  apply List.filterMap_congr
  intro s _
  by_cases hkind : s.classification = kind
  · simp only [Function.comp_def, Sample.exact, hkind, if_true]
  · simp only [Function.comp_def, Sample.exact, hkind, if_false, Option.bind_none]

theorem map_some_filterMap {α β : Type} {f : α → Option β} {l : List α}
    (h : ∀ a ∈ l, (f a).isSome) : (l.filterMap f).map some = l.map f := by
  induction l with
  | nil => rfl
  | cons a rest ih =>
      rw [List.forall_mem_cons] at h
      obtain ⟨b, hb⟩ := Option.isSome_iff_exists.1 h.1
      rw [List.filterMap_cons_some hb, List.map_cons, List.map_cons, hb, ih h.2]

/-- Each value of a kind has an exact value, and there are no others. -/
theorem groupValues_exactSamples (rows : List (List String)) (kind : Classification) :
    (groupValues (exactSamples rows) kind).map some =
      (groupValues (samplesOfRows rows) kind).map Binary64.value? := by
  rw [exactSamples, groupValues_exact]
  exact map_some_filterMap fun x hx =>
    Binary64.isSome_value?_iff.2 (isFinite_of_mem_groupValues hx)

theorem Layout.dataRows_perm (layout : Layout) (first : List String)
    {data data' : List (List String)} (h : data.Perm data') :
    (layout.dataRows (first :: data)).Perm (layout.dataRows (first :: data')) := by
  cases layout with
  | headed columns => exact h
  | headless => exact h.cons first

theorem samplesOfRows_perm (first : List String) {data data' : List (List String)}
    (h : data.Perm data') :
    (samplesOfRows (first :: data)).Perm (samplesOfRows (first :: data')) := by
  cases hlayout : Layout.ofFirstRow (some first) with
  | error e =>
      unfold samplesOfRows
      rw [List.head?_cons, List.head?_cons, hlayout]
  | ok layout =>
      rw [samplesOfRows_of_layout (by rwa [List.head?_cons]),
        samplesOfRows_of_layout (by rwa [List.head?_cons])]
      exact (layout.dataRows_perm first h).filterMap _

theorem exists_analyze_iff_of_perm (first : List String) {data data' : List (List String)}
    (h : data.Perm data') :
    (∃ a, analyze (first :: data) = .ok a) ↔ ∃ b, analyze (first :: data') = .ok b := by
  have hforward {data data' : List (List String)} (h : data.Perm data')
      (ha : ∃ a, analyze (first :: data) = .ok a) : ∃ b, analyze (first :: data') = .ok b := by
    obtain ⟨a, ha⟩ := ha
    apply exists_analyze_eq_ok
    intro hnil
    have hperm := samplesOfRows_perm first h
    rw [hnil] at hperm
    exact (statistics_of_analyze ha).1 hperm.eq_nil
  exact ⟨hforward h, hforward h.symm⟩

theorem statistics_exactSamples_perm (first : List String) {data data' : List (List String)}
    (h : data.Perm data') :
    statistics (exactSamples (first :: data)) = statistics (exactSamples (first :: data')) :=
  statistics_perm ((samplesOfRows_perm first h).map Sample.exact)

theorem statistics_eq_of_analyze {rows : List (List String)} {a : Analysis}
    (h : analyze rows = .ok a) : statistics (samplesOfRows rows) = ⟨a.tables, a.summaries⟩ := by
  obtain ⟨-, htables, hsummaries⟩ := statistics_of_analyze h
  rw [hsummaries, htables]
  rfl

/-- Without rounding the running mean is the arithmetic mean. After any values it
knows their number and their sum, so it has no mean if there is no value, and the
sum divided by the number otherwise, in whatever order they came. An analysis
computes the statistics of its samples; those of the same samples in exact numbers
are made of arithmetic means, and do not depend on the order of the rows after the
first. -/
theorem exact_statistics :
    (∀ values : List ℚ,
      (values.foldl RunningMean.push .empty).Totals values ∧
      mean values = arithmeticMean? values ∧
      ∀ values', values.Perm values' → mean values = mean values') ∧
    (∀ rows a, analyze rows = .ok a →
      statistics (samplesOfRows rows) = ⟨a.tables, a.summaries⟩ ∧
      (∀ kind, (groupValues (exactSamples rows) kind).map some =
        (groupValues (samplesOfRows rows) kind).map Binary64.value?) ∧
      (statistics (exactSamples rows)).IsOfMeans (exactSamples rows)) ∧
    ∀ first data data', data.Perm data' →
      ((∃ a, analyze (first :: data) = .ok a) ↔ ∃ b, analyze (first :: data') = .ok b) ∧
      statistics (exactSamples (first :: data)) = statistics (exactSamples (first :: data')) := by
  refine ⟨fun values => ?_, fun rows a ha => ?_, fun first data data' hperm => ?_⟩
  · exact ⟨RunningMean.totals_foldl_push values, mean_eq_arithmeticMean? values,
      fun _ => mean_perm⟩
  · exact ⟨statistics_eq_of_analyze ha, groupValues_exactSamples rows,
      isOfMeans_statistics (exactSamples rows)⟩
  · exact ⟨exists_analyze_iff_of_perm first hperm, statistics_exactSamples_perm first hperm⟩

/-- Three values of one kind. Rounded, their mean depends on the order of the last
two; without rounding it does not. -/
theorem exact_statistics_of_three :
    let header := ["id", "name", "iterations", "cycles"]
    let row (cycles : String) := ["1", "new_float0", "10", cycles]
    let rows := [header, row "1", row "9", row "4"]
    let rows' := [header, row "1", row "4", row "9"]
    (mean ([1, 9, 4] : List ℚ) = some (14 / 3) ∧ mean ([1, 4, 9] : List ℚ) = some (14 / 3)) ∧
      ∃ a b, analyze rows = .ok a ∧ analyze rows' = .ok b ∧ a.tables ≠ b.tables ∧
        statistics (exactSamples rows) = statistics (exactSamples rows') ∧
        (statistics (exactSamples rows)).IsOfMeans (exactSamples rows) := by
  intro header row rows rows'
  obtain ⟨hmean, hanalyze, hperm⟩ := exact_statistics
  have hvalues : mean ([1, 9, 4] : List ℚ) = some (14 / 3) := by
    rw [(hmean [1, 9, 4]).2.1, arithmeticMean?, if_neg (List.cons_ne_nil _ _)]
    norm_num
  have hvalues' : mean ([1, 4, 9] : List ℚ) = some (14 / 3) := by
    rw [← (hmean [1, 9, 4]).2.2 [1, 4, 9] ((List.Perm.swap _ _ _).cons _), hvalues]
  have hrows : [row "1", row "9", row "4"].Perm [row "1", row "4", row "9"] :=
    (List.Perm.swap _ _ _).cons _
  obtain ⟨hiff, hsame⟩ := hperm header _ _ hrows
  obtain ⟨a, ha⟩ : ∃ a, analyze rows = .ok a := exists_analyze_eq_ok (by decide +kernel)
  obtain ⟨b, hb⟩ := hiff.1 ⟨a, ha⟩
  have hcell : ((aggregate (samplesOfRows rows)).get .float).map (·.get 0 .new) ≠
      ((aggregate (samplesOfRows rows')).get .float).map (·.get 0 .new) := by decide +kernel
  refine ⟨⟨hvalues, hvalues'⟩, a, b, ha, hb, fun htables => hcell ?_, hsame,
    (hanalyze rows a ha).2.2⟩
  rw [← (statistics_of_analyze ha).2.1, ← (statistics_of_analyze hb).2.1, htables]

end CycleComparison

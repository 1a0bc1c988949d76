import CycleComparison.Proofs.Analysis.Outcome
import CycleComparison.Proofs.Measurement.Normal
import CycleComparison.Proofs.Statistics.MeanRange
import CycleComparison.Proofs.Statistics.Summary

/-!
# When the statistics are finite

All values that are averaged are finite: the cycles of the measurements, the
speedups of a table and, if the groups are steady, its cells. So every statistic
of an analysis is finite exactly if the groups are steady and, in a table with a
summary, the columns and the speedups are.
-/

namespace CycleComparison

namespace ComparisonTable

theorem isFinite_of_mem_speedups {t : ComparisonTable Binary64} {x : Binary64}
    (h : x ∈ t.speedups.map (·.2)) : x.isFinite := by
  obtain ⟨_, _, _, _, _, _, _, hfinite⟩ := exists_get_of_mem_speedups h
  exact hfinite

/-- No mean of the summary overflows. -/
structure IsSteady (t : ComparisonTable Binary64) : Prop where
  column : ∀ v, Steady ((t.column v).map (·.2))
  speedups : Steady (t.speedups.map (·.2))

/-- The summary of a table with finite cells is finite exactly if no mean in it
overflows. -/
theorem isFinite_summary_iff {t : ComparisonTable Binary64} {s : Summary Binary64}
    (hcells : ∀ e v x, t.get e v = some x → x.isFinite) (h : t.summary? = some s) :
    (s.avgNew.isFinite ∧ s.avgOld.isFinite ∧ ∀ x, s.avgSpeedup = some x → x.isFinite) ↔
      t.IsSteady := by
  obtain ⟨hnew, hold, hspeedup, -⟩ := summary?_eq_some_iff.1 h
  have hcolumn (v : Version) : ∀ x ∈ (t.column v).map (·.2), x.isFinite := by
    intro x hx
    obtain ⟨e, he⟩ := exists_get_of_mem_column hx
    exact hcells e v x he
  have hnewIff := isFinite_mean_iff (hcolumn .new)
  have holdIff := isFinite_mean_iff (hcolumn .old)
  have hspeedupIff := isFinite_mean_iff fun x => isFinite_of_mem_speedups (t := t) (x := x)
  rw [hnew] at hnewIff
  rw [hold] at holdIff
  rw [hspeedup] at hspeedupIff
  simp only [Option.some.injEq, forall_eq'] at hnewIff holdIff
  rw [hnewIff, holdIff, hspeedupIff]
  constructor
  · rintro ⟨hnew, hold, hspeedups⟩
    refine ⟨fun v => ?_, hspeedups⟩
    cases v
    · exact hnew
    · exact hold
  · intro ⟨hcolumns, hspeedups⟩
    exact ⟨hcolumns .new, hcolumns .old, hspeedups⟩

/-- A table without negative cells has no negative speedups. -/
theorem isSteady_of_nonneg {t : ComparisonTable Binary64}
    (h : ∀ e v x, t.get e v = some x → x.Nonneg) : t.IsSteady := by
  constructor
  · intro v
    refine (steady_of_nonneg ?_).1
    intro x hx
    obtain ⟨e, he⟩ := exists_get_of_mem_column hx
    exact h e v x he
  · refine (steady_of_nonneg ?_).1
    intro x hx
    obtain ⟨e, new, old, hnew, hold, rfl, hzero, hfinite⟩ := exists_get_of_mem_speedups hx
    exact Binary64.nonneg_div (h e .old old hold) (h e .new new hnew) hzero hfinite

end ComparisonTable

theorem isFinite_of_mem_groupValues {rows : List (List String)} {kind : Classification}
    {x : Binary64} (h : x ∈ groupValues (samplesOfRows rows) kind) : x.isFinite := by
  obtain ⟨s, hs, hvalue⟩ := List.mem_filterMap.1 h
  unfold samplesOfRows at hs
  split at hs
  · cases hs
  · obtain ⟨row, _, hrow⟩ := List.mem_filterMap.1 hs
    obtain ⟨m, hm, rfl⟩ := Option.map_eq_some_iff.1 hrow
    obtain ⟨m', hm', hclassified⟩ := Option.bind_eq_some_iff.1 hm
    obtain ⟨kind', _, rfl⟩ := Option.map_eq_some_iff.1 hclassified
    split at hvalue
    · exact (Measurement.isNormal_of_ofRow? hm').finite x hvalue
    · cases hvalue

namespace Analysis

/-- Every cell and every average of an analysis is finite. -/
structure IsFinite (a : Analysis) : Prop where
  cells : ∀ p table e v x, a.tables.get p = some table → table.get e v = some x → x.isFinite
  averages : ∀ p s, a.summaries.get p = some s →
    s.avgNew.isFinite ∧ s.avgOld.isFinite ∧ ∀ x, s.avgSpeedup = some x → x.isFinite

/-- No mean of an analysis overflows: neither that of a group nor one in the
summary of a table. -/
structure IsSteady (rows : List (List String)) (a : Analysis) : Prop where
  groups : ∀ kind, Steady (groupValues (samplesOfRows rows) kind)
  tables : ∀ p table, a.tables.get p = some table → table.summary?.isSome → table.IsSteady

variable {rows : List (List String)} {a : Analysis}

theorem isFinite_cells_iff (h : analyze rows = .ok a) :
    (∀ p table e v x, a.tables.get p = some table → table.get e v = some x → x.isFinite) ↔
      ∀ kind, Steady (groupValues (samplesOfRows rows) kind) := by
  obtain ⟨_, htables, _⟩ := statistics_of_analyze h
  rw [htables]
  constructor
  · rintro hcells ⟨e, v, p⟩
    rw [← isFinite_mean_iff fun _ => isFinite_of_mem_groupValues]
    intro m hm
    have hoccurs : Occurs p (samplesOfRows rows) := by
      by_contra hnot
      rw [groupValues_of_not_occurs hnot] at hm
      cases hm
    obtain ⟨table, htable⟩ :=
      Option.isSome_iff_exists.1 ((isSome_get_aggregate _ p).2 hoccurs)
    exact hcells p table e v m htable ((get_aggregate htable e v).trans hm)
  · intro hgroups p table e v x htable hx
    rw [get_aggregate htable] at hx
    exact (isFinite_mean_iff fun _ => isFinite_of_mem_groupValues).2 (hgroups ⟨e, v, p⟩) x hx

/-- No mean overflows if no measured cycles are negative. -/
theorem isSteady_of_nonneg (h : analyze rows = .ok a)
    (hrows : ∀ kind, ∀ x ∈ groupValues (samplesOfRows rows) kind, x.Nonneg) : a.IsSteady rows := by
  obtain ⟨_, htables, _⟩ := statistics_of_analyze h
  constructor
  · intro kind
    exact (steady_of_nonneg (hrows kind)).1
  · intro p table htable _
    apply ComparisonTable.isSteady_of_nonneg
    intro e v x hx
    rw [htables] at htable
    rw [get_aggregate htable] at hx
    exact (steady_of_nonneg (hrows ⟨e, v, p⟩)).2 x hx

/-- Every statistic of an analysis is finite exactly if no mean overflows. -/
theorem isFinite_iff_isSteady (h : analyze rows = .ok a) : a.IsFinite ↔ a.IsSteady rows := by
  have hcells := isFinite_cells_iff h
  obtain ⟨_, _, hsummaries⟩ := statistics_of_analyze h
  have hget (p : Precision) :
      a.summaries.get p = (a.tables.get p).bind ComparisonTable.summary? := by
    rw [hsummaries, PerPrecision.get_filterMap]
  constructor
  · intro hfinite
    refine ⟨hcells.1 hfinite.cells, ?_⟩
    intro p table htable hsome
    obtain ⟨s, hs⟩ := Option.isSome_iff_exists.1 hsome
    have hsummary : a.summaries.get p = some s := by rw [hget, htable, Option.bind_some, hs]
    exact (ComparisonTable.isFinite_summary_iff
      (fun e v x => hfinite.cells p table e v x htable) hs).1 (hfinite.averages p s hsummary)
  · intro hsteady
    have hfinite := hcells.2 hsteady.groups
    refine ⟨hfinite, ?_⟩
    intro p s hsummary
    rw [hget] at hsummary
    obtain ⟨table, htable, hs⟩ := Option.bind_eq_some_iff.1 hsummary
    have hsome : table.summary?.isSome := by rw [hs]; rfl
    exact (ComparisonTable.isFinite_summary_iff
      (fun e v x => hfinite p table e v x htable) hs).2 (hsteady.tables p table htable hsome)

/-- An analysis with a cell that is not finite. -/
theorem exists_not_isFinite (rows : List (List String)) {p : Precision} {e : UInt64}
    {v : Version} {x : Binary64}
    (h : ((analyze rows).toOption.bind fun a => (a.tables.get p).bind (·.get e v)) = some x)
    (hx : ¬ x.isFinite) : ∃ a, analyze rows = .ok a ∧ ¬ a.IsFinite := by
  cases ha : analyze rows with
  | error cause =>
      rw [ha] at h
      cases h
  | ok a =>
      rw [ha] at h
      simp only [Except.toOption, Option.bind_some] at h
      obtain ⟨table, htable, hcell⟩ := Option.bind_eq_some_iff.1 h
      exact ⟨a, rfl, fun hfinite => hx (hfinite.cells p table e v x htable hcell)⟩

/-- The difference of the greatest and the least finite number overflows, and
with it the mean of the two, although it would be zero. -/
theorem exists_not_isFinite_of_extremes :
    ∃ a, analyze [["1", "new_float0", "1", "1.7976931348623157e308"],
      ["2", "new_float0", "1", "-1.7976931348623157e308"]] = .ok a ∧ ¬ a.IsFinite :=
  exists_not_isFinite _ (p := .float) (e := 0) (v := .new) (x := .infinite true)
    (by decide +kernel) (by decide)

/-- After an overflow the mean stays lost, whatever comes after it. -/
theorem isFinite_iff_isSteady_of_extremes :
    ∃ a, analyze [["1", "old_dbl2", "1", "1e308"], ["2", "old_dbl2", "1", "-1e308"],
      ["3", "old_dbl2", "1", "0"]] = .ok a ∧ (a.IsFinite ↔ a.IsSteady
        [["1", "old_dbl2", "1", "1e308"], ["2", "old_dbl2", "1", "-1e308"],
          ["3", "old_dbl2", "1", "0"]]) ∧ ¬ a.IsFinite := by
  obtain ⟨a, ha, hnot⟩ := exists_not_isFinite
    [["1", "old_dbl2", "1", "1e308"], ["2", "old_dbl2", "1", "-1e308"],
      ["3", "old_dbl2", "1", "0"]] (p := .dbl) (e := 2) (v := .old) (x := .nan)
    (by decide +kernel) (by decide)
  exact ⟨a, ha, isFinite_iff_isSteady ha, hnot⟩

end Analysis

end CycleComparison

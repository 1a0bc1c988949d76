import CycleComparison.Proofs.Statistics.ComparisonTable
import CycleComparison.Statistics.Grouping

/-!
# The values of each group

A group is known by its kind, and its values are those of the samples of this
kind, in their order. After any samples, the running mean of each group is the
one of its values alone, a row is present once a group in it has a value, and a
table once a sample has its precision. So the tables depend on nothing else.
-/

namespace CycleComparison

variable {α : Type}

/-- The values of a kind of benchmark, in the order of the samples. -/
def groupValues (samples : List (Sample α)) (kind : Classification) : List α :=
  samples.filterMap fun s => if s.classification = kind then s.value else none

theorem groupValues_append (samples more : List (Sample α)) (kind : Classification) :
    groupValues (samples ++ more) kind = groupValues samples kind ++ groupValues more kind :=
  List.filterMap_append

theorem groupValues_append_of_value {s : Sample α} {kind : Classification} {x : α}
    (hkind : s.classification = kind) (hvalue : s.value = some x) (samples : List (Sample α)) :
    groupValues (samples ++ [s]) kind = groupValues samples kind ++ [x] := by
  rw [groupValues_append]
  simp only [groupValues, List.filterMap_cons, List.filterMap_nil, hkind, if_true, hvalue]

theorem groupValues_append_of_not {s : Sample α} {kind : Classification}
    (h : s.classification ≠ kind ∨ s.value = none) (samples : List (Sample α)) :
    groupValues (samples ++ [s]) kind = groupValues samples kind := by
  have hnone : (if s.classification = kind then s.value else none) = none := by
    rcases h with h | h
    · rw [if_neg h]
    · rw [h, ite_self]
  rw [groupValues_append]
  simp only [groupValues, List.filterMap_cons, List.filterMap_nil, hnone, List.append_nil]

/-- The samples have this precision among them. -/
def Occurs (precision : Precision) (samples : List (Sample α)) : Prop :=
  ∃ s ∈ samples, s.classification.precision = precision

theorem groupValues_of_not_occurs {samples : List (Sample α)} {kind : Classification}
    (h : ¬ Occurs kind.precision samples) : groupValues samples kind = [] := by
  apply List.filterMap_eq_nil_iff.2
  intro s hs
  apply if_neg
  intro heq
  exact h ⟨s, hs, congrArg Classification.precision heq⟩

/-- The same precisions occur, and each kind of benchmark has the same values. -/
structure SameGroups (samples samples' : List (Sample α)) : Prop where
  occurs : ∀ p, Occurs p samples ↔ Occurs p samples'
  values : ∀ kind, groupValues samples kind = groupValues samples' kind

namespace SameGroups

variable {samples samples' samples'' : List (Sample α)}

theorem refl (samples : List (Sample α)) : SameGroups samples samples :=
  ⟨fun _ => .rfl, fun _ => rfl⟩

theorem symm (h : SameGroups samples samples') : SameGroups samples' samples :=
  ⟨fun p => (h.occurs p).symm, fun kind => (h.values kind).symm⟩

theorem trans (h : SameGroups samples samples') (h' : SameGroups samples' samples'') :
    SameGroups samples samples'' :=
  ⟨fun p => (h.occurs p).trans (h'.occurs p), fun kind => (h.values kind).trans (h'.values kind)⟩

/-- Neighbours of different groups may change places. -/
theorem swap {s t : Sample α} (h : s.classification ≠ t.classification)
    (before after : List (Sample α)) :
    SameGroups (before ++ s :: t :: after) (before ++ t :: s :: after) := by
  constructor
  · intro p
    unfold Occurs
    simp only [List.mem_append, List.mem_cons, or_left_comm]
  · intro kind
    unfold groupValues
    rw [List.filterMap_append, List.filterMap_append]
    apply congrArg (_ ++ ·)
    by_cases hs : s.classification = kind
    · have ht : t.classification ≠ kind := fun ht => h (hs.trans ht.symm)
      simp only [List.filterMap_cons, if_neg ht]
    · simp only [List.filterMap_cons, if_neg hs]

end SameGroups

variable [Scalar α]

namespace RunningMean

/-- The running mean of values, if there is one. -/
def ofValues? : List α → Option (RunningMean α)
  | [] => none
  | x :: rest => some ((x :: rest).foldl push empty)

theorem foldl_push_eq (values : List α) :
    values.foldl push empty = (ofValues? values).getD empty := by
  cases values <;> rfl

theorem ofValues?_append_singleton (values : List α) (x : α) :
    ofValues? (values ++ [x]) = some (((ofValues? values).getD empty).push x) := by
  rw [← foldl_push_eq]
  cases values with
  | nil => rfl
  | cons y rest =>
      rw [List.cons_append, ofValues?, ← List.cons_append, List.foldl_append]
      rfl

end RunningMean

/-- The running means of the two groups of a row. -/
def groupCells (samples : List (Sample α)) (precision : Precision) (exceptions : UInt64) :
    Cells (RunningMean α) where
  new := RunningMean.ofValues? (groupValues samples ⟨exceptions, .new, precision⟩)
  old := RunningMean.ofValues? (groupValues samples ⟨exceptions, .old, precision⟩)

theorem get_groupCells (samples : List (Sample α)) (p : Precision) (e : UInt64) (v : Version) :
    (groupCells samples p e).get v = RunningMean.ofValues? (groupValues samples ⟨e, v, p⟩) := by
  cases v <;> rfl

theorem groupCells_append_of_not {s : Sample α} {p : Precision} {e : UInt64}
    (h : s.classification.precision ≠ p ∨ s.classification.exceptions ≠ e ∨ s.value = none)
    (samples : List (Sample α)) : groupCells (samples ++ [s]) p e = groupCells samples p e := by
  have hvalues (v : Version) :
      groupValues (samples ++ [s]) ⟨e, v, p⟩ = groupValues samples ⟨e, v, p⟩ := by
    apply groupValues_append_of_not
    rcases h with h | h | h
    · exact .inl fun heq => h (congrArg Classification.precision heq)
    · exact .inl fun heq => h (congrArg Classification.exceptions heq)
    · exact .inr h
  unfold groupCells
  rw [hvalues, hvalues]

/-- A value of a group goes to the running mean of the group and to no other. -/
theorem groupCells_append_of_value {s : Sample α} {x : α} (hvalue : s.value = some x)
    (samples : List (Sample α)) :
    groupCells (samples ++ [s]) s.classification.precision s.classification.exceptions =
      (groupCells samples s.classification.precision s.classification.exceptions).push
        s.classification.version x := by
  obtain ⟨⟨e, version, p⟩, value⟩ := s
  have hself : groupValues (samples ++ [⟨⟨e, version, p⟩, value⟩]) ⟨e, version, p⟩ =
      groupValues samples ⟨e, version, p⟩ ++ [x] := groupValues_append_of_value rfl hvalue samples
  have hother (w : Version) (h : version ≠ w) :
      groupValues (samples ++ [⟨⟨e, version, p⟩, value⟩]) ⟨e, w, p⟩ =
        groupValues samples ⟨e, w, p⟩ := by
    apply groupValues_append_of_not
    exact .inl fun heq => h (congrArg Classification.version heq)
  unfold Cells.push
  rw [get_groupCells, ← RunningMean.ofValues?_append_singleton]
  unfold groupCells
  cases version with
  | new => rw [hself, hother .old (by decide)]; rfl
  | old => rw [hself, hother .new (by decide)]; rfl

/-- The running means that are held for a precision after some samples. -/
def ComparisonTable.Holds (table : ComparisonTable (RunningMean α)) (precision : Precision)
    (samples : List (Sample α)) : Prop :=
  ∀ e, table.rows.lookup e = (groupCells samples precision e).present?

namespace ComparisonTable.Holds

variable {table : ComparisonTable (RunningMean α)} {samples : List (Sample α)} {s : Sample α}
  {p : Precision}

theorem empty : (ComparisonTable.empty : ComparisonTable (RunningMean α)).Holds p [] :=
  fun _ => rfl

theorem append_of_not (h : table.Holds p samples)
    (hs : s.classification.precision ≠ p ∨ s.value = none) : table.Holds p (samples ++ [s]) := by
  intro e
  rw [groupCells_append_of_not (hs.imp_right .inr)]
  exact h e

theorem push {x : α} (h : table.Holds s.classification.precision samples)
    (hvalue : s.value = some x) :
    (table.alter s.classification.exceptions fun cells =>
      cells.push s.classification.version x).Holds s.classification.precision (samples ++ [s]) := by
  intro e
  unfold alter
  by_cases he : e = s.classification.exceptions
  · subst he
    rw [lookup_alterRow_self _ _ _ table.ascending, h, Cells.present?_getD,
      groupCells_append_of_value hvalue]
    exact (Cells.present?_set_some _ _ _).symm
  · rw [lookup_alterRow_of_ne he, h, groupCells_append_of_not (.inr (.inl (Ne.symm he)))]

end ComparisonTable.Holds

/-- The running means that are held after some samples. -/
def Groups.Holds (groups : Groups α) (samples : List (Sample α)) : Prop :=
  ∀ p, ((groups.get p).isSome ↔ Occurs p samples) ∧
    ((groups.get p).getD .empty).Holds p samples

namespace Groups.Holds

variable {groups groups' : Groups α} {samples samples' : List (Sample α)}

theorem empty : Groups.Holds (PerPrecision.empty : Groups α) [] := by
  intro p
  rw [PerPrecision.get_empty]
  constructor
  · constructor
    · intro h
      cases h
    · rintro ⟨s, hs, _⟩
      cases hs
  · exact .empty

theorem push (h : groups.Holds samples) (s : Sample α) :
    (groups.push s).Holds (samples ++ [s]) := by
  intro p
  have hs : s ∈ samples ++ [s] := List.mem_append_right _ (List.mem_singleton_self s)
  unfold Groups.push
  by_cases hp : p = s.classification.precision
  · subst hp
    have htable := (h s.classification.precision).2
    rw [PerPrecision.get_set_self]
    refine ⟨⟨fun _ => ⟨s, hs, rfl⟩, fun _ => rfl⟩, ?_⟩
    rw [Option.getD_some]
    cases hvalue : s.value with
    | none => exact htable.append_of_not (.inr hvalue)
    | some x => exact htable.push hvalue
  · obtain ⟨hoccurs, htable⟩ := h p
    rw [PerPrecision.get_set_of_ne _ hp]
    refine ⟨hoccurs.trans ⟨?_, ?_⟩, htable.append_of_not (.inl (Ne.symm hp))⟩
    · rintro ⟨t, ht, heq⟩
      exact ⟨t, List.mem_append_left _ ht, heq⟩
    · rintro ⟨t, ht, heq⟩
      rcases List.mem_append.1 ht with ht | ht
      · exact ⟨t, ht, heq⟩
      · rw [List.mem_singleton.1 ht] at heq
        exact absurd heq.symm hp

theorem run (h : groups.Holds samples) (more : List (Sample α)) :
    (more.foldl Groups.push groups).Holds (samples ++ more) := by
  induction more generalizing groups samples with
  | nil =>
      rw [List.append_nil]
      exact h
  | cons s rest ih =>
      have hrest := ih (h.push s)
      rw [List.append_assoc] at hrest
      exact hrest

end Groups.Holds

theorem holds_groups (samples : List (Sample α)) :
    (samples.foldl Groups.push PerPrecision.empty).Holds samples :=
  Groups.Holds.empty.run samples

theorem isSome_get_aggregate (samples : List (Sample α)) (p : Precision) :
    ((aggregate samples).get p).isSome ↔ Occurs p samples := by
  rw [← (holds_groups samples p).1, aggregate, PerPrecision.get_filterMap]
  cases (samples.foldl Groups.push PerPrecision.empty).get p <;> rfl

theorem bind_mean?_ofValues? (values : List α) :
    (RunningMean.ofValues? values).bind RunningMean.mean? = mean values := by
  unfold mean
  rw [RunningMean.foldl_push_eq]
  cases values <;> rfl

/-- A table of means holds the means of a table of running means. -/
theorem exists_holds_of_aggregate {samples : List (Sample α)} {p : Precision}
    {table : ComparisonTable α} (h : (aggregate samples).get p = some table) :
    ∃ groups : ComparisonTable (RunningMean α),
      groups.Holds p samples ∧ table = groups.filterMap RunningMean.mean? := by
  have htable := (holds_groups samples p).2
  rw [aggregate, PerPrecision.get_filterMap] at h
  obtain ⟨groups, hp, hgroups⟩ := Option.bind_eq_some_iff.1 h
  rw [hp, Option.getD_some] at htable
  exact ⟨groups, htable, (Option.some.inj hgroups).symm⟩

/-- The cell of a kind of benchmark is the mean of its values. -/
theorem get_aggregate {samples : List (Sample α)} {p : Precision} {table : ComparisonTable α}
    (h : (aggregate samples).get p = some table) (e : UInt64) (v : Version) :
    table.get e v = mean (groupValues samples ⟨e, v, p⟩) := by
  obtain ⟨groups, hgroups, rfl⟩ := exists_holds_of_aggregate h
  have hrow : groups.row e = groupCells samples p e := by
    unfold ComparisonTable.row
    rw [hgroups e, Cells.present?_getD]
  rw [ComparisonTable.get_filterMap, ComparisonTable.get, hrow, get_groupCells,
    bind_mean?_ofValues?]

theorem RunningMean.mean?_ne_none {values : List α} {acc : RunningMean α}
    (h : ofValues? values = some acc) : acc.mean? ≠ none := by
  rcases List.eq_nil_or_concat values with rfl | ⟨init, x, rfl⟩
  · cases h
  · rw [List.concat_eq_append, ofValues?_append_singleton] at h
    cases h
    exact nofun

theorem mean_eq_none_iff {values : List α} : mean values = none ↔ values = [] := by
  rw [← bind_mean?_ofValues?]
  cases hvalues : RunningMean.ofValues? values with
  | none =>
      cases values with
      | nil => exact ⟨fun _ => rfl, fun _ => rfl⟩
      | cons x rest => cases hvalues
  | some acc =>
      refine ⟨fun h => absurd h (RunningMean.mean?_ne_none hvalues), ?_⟩
      rintro rfl
      cases hvalues

/-- Every row of a table of means has a cell. -/
theorem hasCells_aggregate {samples : List (Sample α)} {p : Precision} {table : ComparisonTable α}
    (h : (aggregate samples).get p = some table) : table.HasCells := by
  obtain ⟨groups, hgroups, rfl⟩ := exists_holds_of_aggregate h
  intro row hrow hempty
  obtain ⟨⟨e, cells⟩, hmem, rfl⟩ := List.mem_map.1 hrow
  -- a running mean that is held has taken a value in, so it has a mean
  have hempty : cells.filterMap RunningMean.mean? = .empty := hempty
  have hcells : (groupCells samples p e).present? = some cells :=
    (hgroups e).symm.trans (lookup_of_mem groups.ascending hmem)
  have hsame : cells = groupCells samples p e := by
    rw [← Cells.present?_getD (groupCells samples p e), hcells, Option.getD_some]
  have hnone : groupCells samples p e = .empty := by
    apply Cells.ext_get
    intro v
    have hget : (cells.filterMap RunningMean.mean?).get v = none := by
      rw [hempty, Cells.get_empty]
    rw [Cells.get_filterMap, hsame, get_groupCells] at hget
    rw [get_groupCells, Cells.get_empty]
    cases hvalues : RunningMean.ofValues? (groupValues samples ⟨e, v, p⟩) with
    | none => rfl
    | some acc =>
        rw [hvalues] at hget
        exact absurd hget (RunningMean.mean?_ne_none hvalues)
  rw [hnone] at hcells
  cases hcells

/-- The tables of the means are known from the precisions that occur and the mean of
each group. -/
theorem aggregate_eq_of_means {samples samples' : List (Sample α)}
    (hoccurs : ∀ p, Occurs p samples ↔ Occurs p samples')
    (hmeans : ∀ kind, mean (groupValues samples kind) = mean (groupValues samples' kind)) :
    aggregate samples = aggregate samples' := by
  apply PerPrecision.ext_get
  intro p
  have hiff : ((aggregate samples).get p).isSome ↔ ((aggregate samples').get p).isSome := by
    rw [isSome_get_aggregate, isSome_get_aggregate, hoccurs]
  cases hp : (aggregate samples).get p with
  | none =>
      rw [hp, ← not_iff_not, Option.not_isSome_iff_eq_none, Option.not_isSome_iff_eq_none] at hiff
      exact (hiff.1 rfl).symm
  | some table =>
      rw [hp] at hiff
      obtain ⟨table', hp'⟩ := Option.isSome_iff_exists.1 (hiff.1 rfl)
      rw [hp']
      apply congrArg some
      apply (hasCells_aggregate hp).ext_get (hasCells_aggregate hp')
      intro e v
      rw [get_aggregate hp, get_aggregate hp', hmeans]

theorem SameGroups.aggregate_eq {samples samples' : List (Sample α)}
    (h : SameGroups samples samples') : aggregate samples = aggregate samples' :=
  aggregate_eq_of_means h.occurs fun kind => congrArg mean (h.values kind)

namespace ComparisonTable

/-- The tables that come from averaging samples and from inserting cells. -/
inductive IsBuilt : ComparisonTable α → Prop
  | empty : IsBuilt .empty
  | aggregate {samples : List (Sample α)} {p : Precision} {t : ComparisonTable α}
      (h : (aggregate samples).get p = some t) : IsBuilt t
  | insert {t : ComparisonTable α} (h : IsBuilt t) (e : UInt64) (v : Version) (x : α) :
      IsBuilt (t.insert e v x)

theorem IsBuilt.hasCells {t : ComparisonTable α} (h : t.IsBuilt) : t.HasCells := by
  induction h with
  | empty => exact .empty
  | aggregate h => exact hasCells_aggregate h
  | insert _ e v x ih => exact ih.insert e v x

end ComparisonTable

end CycleComparison

import CycleComparison.Proofs.Measurement.MissingColumns

/-!
# The layout that a first row shows

A cell names a column if it is the label of the column or an alias, blanks aside.
`ShowsLayout` is the rule by which a first row decides how its table is read; it
is stated by what the cells name and where a column is named first, and it
relates every first row to exactly one layout or error.
-/

namespace CycleComparison

namespace Column

/-- The label of a column and its aliases. -/
def spellings : Column → List String
  | .id => ["id", "benchmark_number"]
  | .name => ["name"]
  | .iterations => ["iterations"]
  | .cycles => ["cycles", "cycles_per_tuple"]

/-- A cell spells a column, with blanks around it or without. -/
def IsNamedBy (column : Column) (cell : String) : Prop := trim cell ∈ column.spellings

/-- The first of the cells of a row that name a column. -/
structure IsFirstAt (column : Column) (row : List String) (i : Nat) : Prop where
  named : ∃ cell, row[i]? = some cell ∧ column.IsNamedBy cell
  first : ∀ j < i, ∀ cell, row[j]? = some cell → ¬ column.IsNamedBy cell

theorem ofLabel?_eq_some_iff {cell : String} {column : Column} :
    ofLabel? cell = some column ↔ column.IsNamedBy cell := by
  unfold ofLabel? IsNamedBy
  split <;> rename_i h
  case h_7 => cases column <;> simp_all [spellings]
  all_goals rw [h]; cases column <;> decide

variable {row : List String} {column : Column} {i : Nat}

theorem position?_eq_none_iff :
    position? row column = none ↔ ∀ cell ∈ row, ¬ column.IsNamedBy cell := by
  simp only [position?, List.findIdx?_eq_none_iff, beq_eq_false_iff_ne, ne_eq,
    ofLabel?_eq_some_iff]

theorem position?_eq_some_iff : position? row column = some i ↔ column.IsFirstAt row i := by
  simp only [position?, List.findIdx?_eq_some_iff_getElem, beq_iff_eq, ofLabel?_eq_some_iff]
  constructor
  · rintro ⟨hi, hnamed, hfirst⟩
    refine ⟨⟨row[i], List.getElem?_eq_getElem hi, hnamed⟩, ?_⟩
    intro j hj cell hcell
    obtain ⟨_, rfl⟩ := List.getElem?_eq_some_iff.1 hcell
    exact hfirst j hj
  · rintro ⟨⟨cell, hcell, hnamed⟩, hfirst⟩
    obtain ⟨hi, rfl⟩ := List.getElem?_eq_some_iff.1 hcell
    exact ⟨hi, hnamed, fun j hj => hfirst j hj _ (List.getElem?_eq_getElem _)⟩

/-- No cell names two columns. -/
theorem IsNamedBy.unique {other : Column} {cell : String} (h : column.IsNamedBy cell)
    (h' : other.IsNamedBy cell) : column = other :=
  Option.some.inj ((ofLabel?_eq_some_iff.2 h).symm.trans (ofLabel?_eq_some_iff.2 h'))

theorem IsFirstAt.lt_length (h : column.IsFirstAt row i) : i < row.length := by
  obtain ⟨cell, hcell, -⟩ := h.named
  exact (List.getElem?_eq_some_iff.1 hcell).1

/-- No two columns are at one position. -/
theorem IsFirstAt.unique {other : Column} (h : column.IsFirstAt row i)
    (h' : other.IsFirstAt row i) : column = other := by
  obtain ⟨cell, hcell, hnamed⟩ := h.named
  obtain ⟨cell', hcell', hnamed'⟩ := h'.named
  rw [hcell, Option.some.injEq] at hcell'
  exact hnamed.unique (hcell' ▸ hnamed')

/-- The columns that no cell of a row names. -/
def unnamed (row : List String) : List Column :=
  all.filter fun column => (position? row column).isNone

theorem mem_all (column : Column) : column ∈ all := by cases column <;> decide

theorem mem_unnamed_iff : column ∈ unnamed row ↔ ∀ cell ∈ row, ¬ column.IsNamedBy cell := by
  simp only [unnamed, List.mem_filter, mem_all, true_and, Option.isNone_iff_eq_none,
    position?_eq_none_iff]

/-- Either some column is not named, or each of them is named first somewhere. -/
theorem unnamed_eq_nil_iff :
    unnamed row = [] ↔ ∀ column : Column, ∃ i, column.IsFirstAt row i := by
  simp only [unnamed, List.filter_eq_nil_iff, mem_all, true_imp_iff, Option.isNone_iff_eq_none,
    ← Option.ne_none_iff_exists', ← position?_eq_some_iff, ne_eq]

end Column

/-- The position of a column. -/
def ColumnPositions.position (columns : ColumnPositions) : Column → Nat
  | .id => columns.id
  | .name => columns.name
  | .iterations => columns.iterations
  | .cycles => columns.cycles

/-- What the first row of a table, if there is one, shows. -/
inductive ShowsLayout : Option (List String) → Except LayoutError Layout → Prop
  | noRow :
      ShowsLayout none (.error (.missingColumns ["cycles", "id", "iterations", "name"]))
  | headless {row : List String} (hid : ∀ cell ∈ row, ¬ Column.id.IsNamedBy cell)
      (hwidth : row.length = 4) : ShowsLayout (some row) (.ok .headless)
  | width {row : List String} (hid : ∀ cell ∈ row, ¬ Column.id.IsNamedBy cell)
      (hwidth : row.length ≠ 4) : ShowsLayout (some row) (.error (.width row.length))
  | missing {row labels : List String} (hid : ∃ cell ∈ row, Column.id.IsNamedBy cell)
      (hne : labels ≠ []) (hascending : labels.Pairwise (· < ·))
      (hlabels : ∀ label, label ∈ labels ↔
        ∃ column ∈ [Column.cycles, Column.iterations, Column.name],
          column.label = label ∧ ∀ cell ∈ row, ¬ column.IsNamedBy cell) :
      ShowsLayout (some row) (.error (.missingColumns labels))
  | headed {row : List String} {columns : ColumnPositions}
      (hfirst : ∀ column : Column, column.IsFirstAt row (columns.position column)) :
      ShowsLayout (some row) (.ok (.headed columns))

namespace Layout

variable {row : List String} {columns : ColumnPositions}

theorem ofFirstRow_of_no_id (h : ∀ cell ∈ row, ¬ Column.id.IsNamedBy cell) :
    ofFirstRow (some row) =
      if row.length = 4 then .ok .headless else .error (.width row.length) := by
  unfold ofFirstRow
  simp only [Column.position?_eq_none_iff.2 h]

theorem ofFirstRow_of_isFirstAt
    (h : ∀ column : Column, column.IsFirstAt row (columns.position column)) :
    ofFirstRow (some row) = .ok (.headed columns) := by
  have hposition (column : Column) := Column.position?_eq_some_iff.2 (h column)
  unfold ofFirstRow
  simp only [hposition]
  rfl

theorem ofFirstRow_of_unnamed (hid : Column.id ∉ Column.unnamed row)
    (hne : Column.unnamed row ≠ []) :
    ofFirstRow (some row) = .error (.missing ((Column.unnamed row).map Column.label)) := by
  unfold ofFirstRow
  simp only
  split
  · rename_i hnone
    rw [Column.mem_unnamed_iff, ← Column.position?_eq_none_iff] at hid
    exact absurd hnone hid
  · rename_i hid hname hiterations hcycles
    refine absurd (Column.unnamed_eq_nil_iff.2 fun column => ?_) hne
    simp only [← Column.position?_eq_some_iff]
    cases column with
    | id => exact ⟨_, hid⟩
    | name => exact ⟨_, hname⟩
    | iterations => exact ⟨_, hiterations⟩
    | cycles => exact ⟨_, hcycles⟩
  · rfl

theorem ofFirstRow_none :
    ofFirstRow none = .error (.missingColumns ["cycles", "id", "iterations", "name"]) := by
  apply congrArg Except.error
  rw [LayoutError.missing_eq_iff]
  refine ⟨by decide, fun label => ?_⟩
  simp only [Column.all, List.map_cons, List.map_nil, Column.label, List.mem_cons,
    List.not_mem_nil, or_false]
  tauto

/-- The columns that are not named, where the id is. -/
theorem mem_labels_unnamed_iff (hid : Column.id ∉ Column.unnamed row) (label : String) :
    label ∈ (Column.unnamed row).map Column.label ↔
      ∃ column ∈ [Column.cycles, Column.iterations, Column.name],
        column.label = label ∧ ∀ cell ∈ row, ¬ column.IsNamedBy cell := by
  rw [List.mem_map]
  constructor
  · rintro ⟨column, hcolumn, rfl⟩
    refine ⟨column, ?_, rfl, Column.mem_unnamed_iff.1 hcolumn⟩
    cases column with
    | id => exact absurd hcolumn hid
    | _ => decide
  · rintro ⟨column, -, rfl, hcolumn⟩
    exact ⟨column, Column.mem_unnamed_iff.2 hcolumn, rfl⟩

theorem showsLayout_ofFirstRow (first : Option (List String)) :
    ShowsLayout first (ofFirstRow first) := by
  cases first with
  | none =>
      rw [ofFirstRow_none]
      exact .noRow
  | some row =>
      by_cases hid : Column.id ∈ Column.unnamed row
      · rw [Column.mem_unnamed_iff] at hid
        rw [ofFirstRow_of_no_id hid]
        split
        · exact .headless hid ‹_›
        · exact .width hid ‹_›
      by_cases hne : Column.unnamed row = []
      · choose position hfirst using Column.unnamed_eq_nil_iff.1 hne
        have hcolumns (column : Column) : column.IsFirstAt row
            (ColumnPositions.position ⟨position .id, position .name, position .iterations,
              position .cycles⟩ column) := by
          cases column <;> exact hfirst _
        rw [ofFirstRow_of_isFirstAt hcolumns]
        exact .headed hcolumns
      · obtain ⟨labels, hlabels⟩ : ∃ labels,
            LayoutError.missing ((Column.unnamed row).map Column.label) =
              .missingColumns labels := ⟨_, rfl⟩
        obtain ⟨hascending, hmem⟩ := LayoutError.missing_eq_iff.1 hlabels
        rw [ofFirstRow_of_unnamed hid hne, hlabels]
        refine .missing (by simpa [Column.mem_unnamed_iff] using hid) ?_ hascending
          fun label => (hmem label).trans (mem_labels_unnamed_iff hid label)
        obtain ⟨column, hcolumn⟩ := List.exists_mem_of_ne_nil _ hne
        exact List.ne_nil_of_mem ((hmem _).2 (List.mem_map_of_mem hcolumn))

theorem ofFirstRow_of_showsLayout {first : Option (List String)}
    {result : Except LayoutError Layout} (h : ShowsLayout first result) :
    ofFirstRow first = result := by
  cases h with
  | noRow => exact ofFirstRow_none
  | headless hid hwidth => rw [ofFirstRow_of_no_id hid, if_pos hwidth]
  | width hid hwidth => rw [ofFirstRow_of_no_id hid, if_neg hwidth]
  | @missing row labels hid hne hascending hlabels =>
      have hid : Column.id ∉ Column.unnamed row := by simpa [Column.mem_unnamed_iff] using hid
      have hmem (label : String) := (hlabels label).trans (mem_labels_unnamed_iff hid label).symm
      have hunnamed : Column.unnamed row ≠ [] := by
        obtain ⟨label, hlabel⟩ := List.exists_mem_of_ne_nil _ hne
        intro hnil
        exact List.ne_nil_of_mem ((hmem label).1 hlabel) (List.map_eq_nil_iff.2 hnil)
      rw [ofFirstRow_of_unnamed hid hunnamed, LayoutError.missing_eq_iff.2 ⟨hascending, hmem⟩]
  | headed hfirst => exact ofFirstRow_of_isFirstAt hfirst

/-- The layout of a table is what its first row shows, for rows of any width. Where
the row is a header, the four columns are at different positions in it. -/
theorem ofFirstRow_eq_iff_showsLayout :
    (∀ first result, ofFirstRow first = result ↔ ShowsLayout first result) ∧
      ∀ row columns, ofFirstRow (some row) = .ok (.headed columns) →
        Function.Injective columns.position ∧
          ∀ column, columns.position column < row.length := by
  have hrule (first : Option (List String)) (result : Except LayoutError Layout) :
      ofFirstRow first = result ↔ ShowsLayout first result :=
    ⟨fun h => h ▸ showsLayout_ofFirstRow first, ofFirstRow_of_showsLayout⟩
  refine ⟨hrule, fun row columns h => ?_⟩
  rw [hrule] at h
  cases h with
  | headed hfirst =>
      refine ⟨fun column other hsame => ?_, fun column => (hfirst column).lt_length⟩
      exact (hfirst column).unique (hsame ▸ hfirst other)

/-- A header with aliases, padding, a column that is named twice and another that
is none of the four. -/
theorem ofFirstRow_eq_iff_showsLayout_reordered :
    let row := ["cycles_per_tuple", "host", " benchmark_number", "name", "iterations", "id"]
    let columns : ColumnPositions := ⟨2, 3, 4, 0⟩
    ShowsLayout (some row) (.ok (.headed columns)) ∧ Function.Injective columns.position ∧
      ∀ column, columns.position column < row.length := by
  intro row columns
  obtain ⟨hrule, hpositions⟩ := ofFirstRow_eq_iff_showsLayout
  have hrow : ofFirstRow (some row) = .ok (.headed columns) := by decide
  exact ⟨(hrule _ _).1 hrow, hpositions row columns hrow⟩

end Layout

end CycleComparison

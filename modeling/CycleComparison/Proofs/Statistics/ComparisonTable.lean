import CycleComparison.Statistics.Summary
import Mathlib.Data.List.Sort

/-!
# Tables and their rows

Since the rows of a table are in ascending order, the table is known by what is
looked up in it. Its columns and speedups are made of its cells.
-/

namespace CycleComparison

variable {α β : Type}

theorem lookup_eq_none_of_lt {rows : List (UInt64 × Cells α)} {key : UInt64}
    (h : ∀ row ∈ rows, key < row.1) : rows.lookup key = none := by
  apply List.lookup_eq_none_iff.2
  intro row hrow
  have hne : key ≠ row.1 := UInt64.ne_of_lt (h row hrow)
  simpa using hne

theorem lookup_cons_of_ne {key k : UInt64} (h : key ≠ k) (cells : Cells α)
    (rest : List (UInt64 × Cells α)) : List.lookup key ((k, cells) :: rest) = rest.lookup key := by
  have hbeq : (key == k) = false := by simpa using h
  rw [List.lookup_cons, hbeq]

/-- The first key of one list of rows is not below all keys of another in which
the same rows are looked up. -/
theorem not_lt_head_of_lookup {k k' : UInt64} {cells cells' : Cells α}
    {rest rest' : List (UInt64 × Cells α)}
    (hrest' : ∀ row ∈ rest', k' < row.1)
    (h : List.lookup k ((k, cells) :: rest) = List.lookup k ((k', cells') :: rest')) :
    ¬ k < k' := by
  intro hlt
  have hbelow : ∀ row ∈ (k', cells') :: rest', k < row.1 := by
    intro row hrow
    rcases List.mem_cons.1 hrow with rfl | hrow
    · exact hlt
    · exact UInt64.lt_trans hlt (hrest' row hrow)
  rw [lookup_eq_none_of_lt hbelow, List.lookup_cons_self] at h
  cases h

theorem eq_of_lookup {rows rows' : List (UInt64 × Cells α)}
    (hrows : rows.Pairwise fun a b => a.1 < b.1) (hrows' : rows'.Pairwise fun a b => a.1 < b.1)
    (h : ∀ key, rows.lookup key = rows'.lookup key) : rows = rows' := by
  induction rows generalizing rows' with
  | nil =>
      cases rows' with
      | nil => rfl
      | cons row rest =>
          have hrow := h row.1
          rw [List.lookup_cons_self] at hrow
          cases hrow
  | cons row rest ih =>
      cases rows' with
      | nil =>
          have hrow := h row.1
          rw [List.lookup_cons_self] at hrow
          cases hrow
      | cons row' rest' =>
          obtain ⟨k, cells⟩ := row
          obtain ⟨k', cells'⟩ := row'
          obtain ⟨hhead, hrest⟩ := List.pairwise_cons.1 hrows
          obtain ⟨hhead', hrest'⟩ := List.pairwise_cons.1 hrows'
          have hkey : k = k' := UInt64.le_antisymm
            (UInt64.not_lt.1 (not_lt_head_of_lookup hhead (h k').symm))
            (UInt64.not_lt.1 (not_lt_head_of_lookup hhead' (h k)))
          subst hkey
          have hcells := h k
          rw [List.lookup_cons_self, List.lookup_cons_self] at hcells
          have htail : rest = rest' := by
            apply ih hrest hrest'
            intro key
            by_cases hkey : key = k
            · rw [hkey, lookup_eq_none_of_lt hhead, lookup_eq_none_of_lt hhead']
            · have hcons := h key
              rwa [lookup_cons_of_ne hkey, lookup_cons_of_ne hkey] at hcons
          rw [Option.some.inj hcells, htail]

theorem lookup_of_mem {rows : List (UInt64 × Cells α)} (hrows : rows.Pairwise fun a b => a.1 < b.1)
    {row : UInt64 × Cells α} (h : row ∈ rows) : rows.lookup row.1 = some row.2 := by
  induction rows with
  | nil => cases h
  | cons head rest ih =>
      obtain ⟨hhead, hrest⟩ := List.pairwise_cons.1 hrows
      rcases List.mem_cons.1 h with rfl | h
      · rw [List.lookup_cons_self]
      · rw [lookup_cons_of_ne (UInt64.ne_of_lt (hhead row h)).symm]
        exact ih hrest h

theorem lookup_map_cells (f : Cells α → Cells β) (rows : List (UInt64 × Cells α)) (key : UInt64) :
    (rows.map fun (e, cells) => (e, f cells)).lookup key = (rows.lookup key).map f := by
  induction rows with
  | nil => rfl
  | cons row rest ih =>
      obtain ⟨k, cells⟩ := row
      rw [List.map_cons]
      by_cases hkey : key = k
      · rw [hkey, List.lookup_cons_self, List.lookup_cons_self, Option.map_some]
      · rw [lookup_cons_of_ne hkey, lookup_cons_of_ne hkey, ih]

/-- The pairs are those of which a predicate holds, and ascend by their number of
exceptions. -/
structure Enumerates (pairs : List (UInt64 × α)) (P : UInt64 → α → Prop) : Prop where
  ascending : pairs.Pairwise fun a b => a.1 < b.1
  mem_iff : ∀ e x, (e, x) ∈ pairs ↔ P e x

theorem Enumerates.unique {pairs pairs' : List (UInt64 × α)} {P : UInt64 → α → Prop}
    (h : Enumerates pairs P) (h' : Enumerates pairs' P) : pairs = pairs' := by
  have : Std.Irrefl fun a b : UInt64 × α => a.1 < b.1 := ⟨fun a => UInt64.lt_irrefl a.1⟩
  have : Std.Antisymm fun a b : UInt64 × α => a.1 < b.1 :=
    ⟨fun _ _ hab hba => absurd hba (UInt64.lt_asymm hab)⟩
  exact h.ascending.eq_of_mem_iff h'.ascending fun ⟨e, x⟩ =>
    (h.mem_iff e x).trans (h'.mem_iff e x).symm

namespace Cells

theorem get_filterMap (f : α → Option β) (cells : Cells α) (v : Version) :
    (cells.filterMap f).get v = (cells.get v).bind f := by
  cases v <;> rfl

/-- The speedup of a row is a finite quotient of its two cells. -/
theorem speedup?_eq_some_iff [Scalar α] {cells : Cells α} {ratio : α} :
    cells.speedup? = some ratio ↔
      ∃ new old, cells.new = some new ∧ cells.old = some old ∧ Scalar.isZero new = false ∧
        Scalar.isFinite ratio ∧ ratio = old / new := by
  obtain ⟨new, old⟩ := cells
  cases new with
  | none => exact iff_of_false nofun (by rintro ⟨_, _, hnew, _⟩; cases hnew)
  | some new =>
      cases old with
      | none => exact iff_of_false nofun (by rintro ⟨_, _, _, hold, _⟩; cases hold)
      | some old =>
          simp only [speedup?, Option.ite_none_right_eq_some, Option.some.injEq, Bool.and_eq_true,
            Bool.not_eq_true']
          constructor
          · rintro ⟨⟨hzero, hfinite⟩, rfl⟩
            exact ⟨new, old, rfl, rfl, hzero, hfinite, rfl⟩
          · rintro ⟨_, _, rfl, rfl, hzero, hfinite, rfl⟩
            exact ⟨⟨hzero, hfinite⟩, rfl⟩

/-- A row, unless it has no cells. -/
def present? (cells : Cells α) : Option (Cells α) :=
  match cells.new, cells.old with
  | none, none => none
  | _, _ => some cells

theorem present?_getD (cells : Cells α) : cells.present?.getD .empty = cells := by
  obtain ⟨new, old⟩ := cells
  cases new <;> cases old <;> rfl

theorem present?_set_some (cells : Cells α) (v : Version) (x : α) :
    (cells.set v (some x)).present? = some (cells.set v (some x)) := by
  obtain ⟨new, old⟩ := cells
  cases v <;> cases new <;> cases old <;> rfl

theorem isSome_of_ne_empty {cells : Cells α} (h : cells ≠ .empty) :
    cells.new.isSome ∨ cells.old.isSome := by
  obtain ⟨new, old⟩ := cells
  cases new with
  | some x => exact .inl rfl
  | none =>
      cases old with
      | some y => exact .inr rfl
      | none => exact absurd rfl h

theorem present?_of_ne_empty {cells : Cells α} (h : cells ≠ .empty) :
    cells.present? = some cells := by
  obtain ⟨new, old⟩ := cells
  cases new with
  | some x => rfl
  | none =>
      cases old with
      | some y => rfl
      | none => exact absurd rfl h

theorem set_some_ne_empty (cells : Cells α) (v : Version) (x : α) :
    cells.set v (some x) ≠ .empty := by
  intro h
  have hget := congrArg (Cells.get · v) h
  rw [get_set_self, get_empty] at hget
  cases hget

theorem ext_get {cells cells' : Cells α} (h : ∀ v, cells.get v = cells'.get v) :
    cells = cells' := by
  obtain ⟨new, old⟩ := cells
  obtain ⟨new', old'⟩ := cells'
  have hnew : new = new' := h .new
  have hold : old = old' := h .old
  rw [hnew, hold]

end Cells

namespace ComparisonTable

/-- Two tables are equal if the same row, or none, is found in both under every
key. -/
theorem ext_lookup {s t : ComparisonTable α} (h : ∀ e, s.rows.lookup e = t.rows.lookup e) :
    s = t :=
  ext (eq_of_lookup s.ascending t.ascending h)

theorem get_filterMap (f : α → Option β) (t : ComparisonTable α) (e : UInt64) (v : Version) :
    (t.filterMap f).get e v = (t.get e v).bind f := by
  unfold get row filterMap
  rw [lookup_map_cells]
  cases t.rows.lookup e with
  | none => cases v <;> rfl
  | some cells => exact Cells.get_filterMap f cells v

theorem get_of_mem_rows {t : ComparisonTable α} {row : UInt64 × Cells α} (h : row ∈ t.rows)
    (v : Version) : t.get row.1 v = row.2.get v := by
  rw [get, ComparisonTable.row, lookup_of_mem t.ascending h]
  rfl

/-- The speedups are finite quotients of cells. -/
theorem exists_get_of_mem_speedups [Scalar α] {t : ComparisonTable α} {x : α}
    (h : x ∈ t.speedups.map (·.2)) :
    ∃ e new old, t.get e .new = some new ∧ t.get e .old = some old ∧ x = old / new ∧
      Scalar.isZero new = false ∧ Scalar.isFinite x := by
  obtain ⟨⟨e, y⟩, hy, rfl⟩ := List.mem_map.1 h
  obtain ⟨row, hrow, hcell⟩ := List.mem_filterMap.1 hy
  obtain ⟨z, hz, heq⟩ := Option.map_eq_some_iff.1 hcell
  cases heq
  obtain ⟨new, old, hnew, hold, hzero, hfinite, rfl⟩ := Cells.speedup?_eq_some_iff.1 hz
  exact ⟨row.1, new, old, (get_of_mem_rows hrow .new).trans hnew,
    (get_of_mem_rows hrow .old).trans hold, rfl, hzero, hfinite⟩

theorem mem_rows_of_lookup {t : ComparisonTable α} {e : UInt64} {cells : Cells α}
    (h : t.rows.lookup e = some cells) : (e, cells) ∈ t.rows := by
  obtain ⟨before, after, heq, _⟩ := List.lookup_eq_some_iff.1 h
  rw [heq]
  exact List.mem_append_right _ List.mem_cons_self

theorem mem_rows_of_get {t : ComparisonTable α} {e : UInt64} {v : Version} {x : α}
    (h : t.get e v = some x) : ∃ cells, (e, cells) ∈ t.rows := by
  cases hlookup : t.rows.lookup e with
  | none =>
      rw [get, row, hlookup, Option.getD_none, Cells.get_empty] at h
      cases h
  | some cells => exact ⟨cells, mem_rows_of_lookup hlookup⟩

/-- The cells of a table are those that are found in it. -/
theorem mem_cells_iff {t : ComparisonTable α} {e : UInt64} {v : Version} {x : α} :
    (e, v, x) ∈ t.cells ↔ t.get e v = some x := by
  unfold cells
  rw [List.mem_flatMap]
  constructor
  · rintro ⟨row, hrow, hcell⟩
    obtain ⟨w, _, hw⟩ := List.mem_filterMap.1 hcell
    obtain ⟨y, hy, heq⟩ := Option.map_eq_some_iff.1 hw
    cases heq
    rw [get_of_mem_rows hrow, hy]
  · intro h
    obtain ⟨cells, hrow⟩ := mem_rows_of_get h
    refine ⟨(e, cells), hrow, List.mem_filterMap.2 ⟨v, by cases v <;> decide, ?_⟩⟩
    rw [get_of_mem_rows hrow] at h
    rw [h, Option.map_some]

/-- What is read off the rows of a table is read off the row of each number. -/
theorem enumerates_filterMap {f : Cells α → Option β} (hf : f .empty = none)
    (t : ComparisonTable α) :
    Enumerates (t.rows.filterMap fun (e, cells) => (f cells).map (e, ·))
      fun e y => f (t.row e) = some y := by
  constructor
  · rw [List.pairwise_filterMap]
    refine t.ascending.imp ?_
    rintro ⟨e, cells⟩ ⟨e', cells'⟩ hlt a ha b hb
    obtain ⟨x, _, rfl⟩ := Option.map_eq_some_iff.1 ha
    obtain ⟨y, _, rfl⟩ := Option.map_eq_some_iff.1 hb
    exact hlt
  · intro e y
    rw [List.mem_filterMap]
    constructor
    · rintro ⟨row, hrow, hy⟩
      obtain ⟨z, hz, heq⟩ := Option.map_eq_some_iff.1 hy
      cases heq
      rw [ComparisonTable.row, lookup_of_mem t.ascending hrow, Option.getD_some, hz]
    · intro h
      cases hlookup : t.rows.lookup e with
      | none =>
          rw [row, hlookup, Option.getD_none, hf] at h
          cases h
      | some cells =>
          rw [row, hlookup, Option.getD_some] at h
          exact ⟨(e, cells), mem_rows_of_lookup hlookup, by simp only [h, Option.map_some]⟩

theorem enumerates_column (t : ComparisonTable α) (v : Version) :
    Enumerates (t.column v) fun e x => t.get e v = some x :=
  t.enumerates_filterMap (f := fun cells => cells.get v) (Cells.get_empty v)

/-- A column has the cells of its version. -/
theorem mem_column_iff {t : ComparisonTable α} {v : Version} {e : UInt64} {x : α} :
    (e, x) ∈ t.column v ↔ t.get e v = some x :=
  (t.enumerates_column v).mem_iff e x

/-- The values of a column are cells. -/
theorem exists_get_of_mem_column {t : ComparisonTable α} {v : Version} {x : α}
    (h : x ∈ (t.column v).map (·.2)) : ∃ e, t.get e v = some x := by
  obtain ⟨⟨e, y⟩, hy, rfl⟩ := List.mem_map.1 h
  exact ⟨e, mem_column_iff.1 hy⟩

/-- The numbers of exceptions ascend strictly. -/
theorem pairwise_exceptions (t : ComparisonTable α) : t.exceptions.Pairwise (· < ·) := by
  rw [exceptions, List.pairwise_map]
  exact t.ascending

theorem mem_exceptions_of_get {t : ComparisonTable α} {e : UInt64} {v : Version} {x : α}
    (h : t.get e v = some x) : e ∈ t.exceptions := by
  obtain ⟨cells, hrow⟩ := mem_rows_of_get h
  exact List.mem_map_of_mem hrow

/-- The versions are those of the cells. -/
theorem mem_versions_iff {t : ComparisonTable α} {v : Version} :
    v ∈ t.versions ↔ ∃ e x, t.get e v = some x := by
  have hall : v ∈ Version.all := by cases v <;> decide
  simp only [versions, List.mem_filter, hall, true_and, hasVersion, List.any_eq_true,
    Option.isSome_iff_exists]
  constructor
  · rintro ⟨row, hrow, x, hx⟩
    exact ⟨row.1, x, (get_of_mem_rows hrow v).trans hx⟩
  · rintro ⟨e, x, hx⟩
    obtain ⟨cells, hrow⟩ := mem_rows_of_get hx
    exact ⟨(e, cells), hrow, x, (get_of_mem_rows hrow v).symm.trans hx⟩

/-- Every row has a cell. -/
def HasCells (t : ComparisonTable α) : Prop := ∀ row ∈ t.rows, row.2 ≠ .empty

namespace HasCells

variable {s t : ComparisonTable α}

theorem empty : (ComparisonTable.empty : ComparisonTable α).HasCells := List.forall_mem_nil _

theorem insert (h : t.HasCells) (e : UInt64) (v : Version) (x : α) :
    (t.insert e v x).HasCells := by
  intro row hrow
  rcases mem_alterRow hrow with rfl | hold
  · have hlookup := lookup_of_mem (t.insert row.1 v x).ascending hrow
    unfold ComparisonTable.insert alter at hlookup
    rw [lookup_alterRow_self _ _ _ t.ascending] at hlookup
    rw [← Option.some.inj hlookup]
    exact Cells.set_some_ne_empty _ v x
  · exact h row hold

/-- A row is found exactly where there is a cell. -/
theorem lookup_eq (h : t.HasCells) (e : UInt64) : t.rows.lookup e = (t.row e).present? := by
  unfold row
  cases hlookup : t.rows.lookup e with
  | none => rfl
  | some cells => exact (Cells.present?_of_ne_empty (h _ (mem_rows_of_lookup hlookup))).symm

/-- The numbers of exceptions are those of the cells. -/
theorem mem_exceptions_iff (h : t.HasCells) {e : UInt64} :
    e ∈ t.exceptions ↔ ∃ v x, t.get e v = some x := by
  constructor
  · intro he
    obtain ⟨row, hrow, rfl⟩ := List.mem_map.1 he
    rcases Cells.isSome_of_ne_empty (h row hrow) with hsome | hsome
    · obtain ⟨x, hx⟩ := Option.isSome_iff_exists.1 hsome
      exact ⟨.new, x, (get_of_mem_rows hrow .new).trans hx⟩
    · obtain ⟨x, hx⟩ := Option.isSome_iff_exists.1 hsome
      exact ⟨.old, x, (get_of_mem_rows hrow .old).trans hx⟩
  · rintro ⟨v, x, hx⟩
    exact mem_exceptions_of_get hx

/-- Tables with a cell in every row are known by their cells. -/
theorem ext_get (hs : s.HasCells) (ht : t.HasCells) (h : ∀ e v, s.get e v = t.get e v) :
    s = t := by
  apply ext_lookup
  intro e
  rw [hs.lookup_eq, ht.lookup_eq, Cells.ext_get (h e)]

end HasCells

end ComparisonTable

namespace PerPrecision

theorem ext_get {per per' : PerPrecision α} (h : ∀ p, per.get p = per'.get p) : per = per' := by
  obtain ⟨float, dbl⟩ := per
  obtain ⟨float', dbl'⟩ := per'
  have hfloat : float = float' := h .float
  have hdbl : dbl = dbl' := h .dbl
  rw [hfloat, hdbl]

theorem get_filterMap (f : α → Option β) (per : PerPrecision α) (p : Precision) :
    (per.filterMap f).get p = (per.get p).bind f := by
  cases p <;> rfl

theorem mem_toList_iff {per : PerPrecision α} {p : Precision} {x : α} :
    (p, x) ∈ per.toList ↔ per.get p = some x := by
  unfold toList
  rw [List.mem_filterMap]
  constructor
  · rintro ⟨q, _, hq⟩
    obtain ⟨y, hy, heq⟩ := Option.map_eq_some_iff.1 hq
    cases heq
    exact hy
  · intro h
    exact ⟨p, by cases p <;> decide, by rw [h, Option.map_some]⟩

/-- What is made of the values that are present is made precision by precision. -/
theorem flatMap_toList (per : PerPrecision α) (f : Precision × α → List β) :
    per.toList.flatMap f = Precision.all.flatMap fun p =>
      ((per.get p).map fun x => f (p, x)).getD [] := by
  obtain ⟨float, dbl⟩ := per
  cases float <;> cases dbl <;> rfl

theorem map_fst_toList (per : PerPrecision α) :
    per.toList.map (·.1) = Precision.all.filter fun p => (per.get p).isSome := by
  obtain ⟨float, dbl⟩ := per
  cases float <;> cases dbl <;> rfl

theorem foldl_set_toList (per : PerPrecision α) :
    per.toList.foldl (fun found entry => found.set entry.1 (some entry.2)) .empty = per := by
  obtain ⟨float, dbl⟩ := per
  cases float <;> cases dbl <;> rfl

/-- Single precision comes before double precision, and each at most once. -/
theorem pairwise_toList (per : PerPrecision α) :
    per.toList.Pairwise fun a b => a.1 = .float ∧ b.1 = .dbl := by
  obtain ⟨float, dbl⟩ := per
  cases float <;> cases dbl <;> simp [toList, Precision.all, get]

end PerPrecision

end CycleComparison

import CycleComparison.Json.Reader
import CycleComparison.Proofs.Statistics.Grouping
import CycleComparison.Statistics.Json
import Mathlib.Data.Finset.Card

/-!
# Rows without cells

Averaging and inserting never leave a row without cells. Reading can: a document
may name a row and give it no cells, and the row is kept until a cell is inserted
into it. So a table has such a row exactly if the last member that names it in
the document is empty and nothing has been inserted there. These rows are counted
in the size of a table although they occur in none of its columns.
-/

namespace CycleComparison

namespace Cells

theorem addMember?_ne_empty {cells cells' : Cells Binary64} {member : List Json.Symbol × Json}
    (h : cells.addMember? member = some cells') : cells' ≠ .empty := by
  unfold addMember? at h
  simp only [Option.bind_eq_bind, Option.bind_eq_some_iff] at h
  obtain ⟨version, -, x, -, h⟩ := h
  cases h
  exact set_some_ne_empty cells version x

theorem foldlM_addMember?_ne_empty {cells cells' : Cells Binary64}
    {members : List (List Json.Symbol × Json)} (hcells : cells ≠ .empty)
    (h : members.foldlM addMember? cells = some cells') : cells' ≠ .empty := by
  induction members generalizing cells with
  | nil =>
      cases h
      exact hcells
  | cons member rest ih =>
      rw [List.foldlM_cons] at h
      obtain ⟨next, hnext, hrest⟩ := Option.bind_eq_some_iff.1 h
      exact ih (addMember?_ne_empty hnext) hrest

/-- A row is read without cells only from an object without members. -/
theorem ofJson?_eq_some_empty_iff {value : Json} :
    ofJson? value = some .empty ↔ value = .object [] := by
  constructor
  · intro h
    unfold ofJson? at h
    split at h
    · rename_i members
      cases members with
      | nil => rfl
      | cons member rest =>
          rw [List.foldlM_cons] at h
          obtain ⟨next, hnext, hrest⟩ := Option.bind_eq_some_iff.1 h
          exact absurd rfl (foldlM_addMember?_ne_empty (addMember?_ne_empty hnext) hrest)
    · cases h
  · rintro rfl
    rfl

end Cells

namespace ComparisonTable

section Reading

variable {t t' : ComparisonTable Binary64} {member : List Json.Symbol × Json}
  {members : List (List Json.Symbol × Json)} {e : UInt64}

/-- The last of the members that name a row. -/
def lastNaming? (members : List (List Json.Symbol × Json)) (e : UInt64) :
    Option (List Json.Symbol × Json) :=
  members.reverse.find? fun member => rowNumber? member.1 == some e

theorem lastNaming?_append_singleton (members : List (List Json.Symbol × Json))
    (member : List Json.Symbol × Json) (e : UInt64) :
    lastNaming? (members ++ [member]) e =
      if rowNumber? member.1 = some e then some member else lastNaming? members e := by
  unfold lastNaming?
  rw [List.reverse_append, List.reverse_singleton, List.singleton_append, List.find?_cons]
  by_cases h : rowNumber? member.1 = some e
  · rw [if_pos h, beq_iff_eq.2 h]
  · rw [if_neg h, beq_eq_false_iff_ne.2 h]

theorem lookup_addMember? (h : t.addMember? member = some t') (e : UInt64) :
    t'.rows.lookup e =
      if rowNumber? member.1 = some e then Cells.ofJson? member.2 else t.rows.lookup e := by
  unfold addMember? at h
  simp only [Option.bind_eq_bind, Option.bind_eq_some_iff] at h
  obtain ⟨number, hnumber, cells, hcells, h⟩ := h
  cases h
  rw [hnumber, hcells]
  by_cases he : number = e
  · subst he
    rw [if_pos rfl]
    exact lookup_alterRow_self number _ t.rows t.ascending
  · rw [if_neg (fun heq => he (Option.some.inj heq))]
    exact lookup_alterRow_of_ne (Ne.symm he) _ t.rows

/-- Of the members that name a row the last one counts. -/
theorem lookup_foldlM_addMember? (h : members.foldlM addMember? .empty = some t) (e : UInt64) :
    t.rows.lookup e = (lastNaming? members e).bind fun member => Cells.ofJson? member.2 := by
  induction members using List.reverseRecOn generalizing t with
  | nil =>
      cases h
      rfl
  | append_singleton members member ih =>
      rw [List.foldlM_append] at h
      obtain ⟨before, hbefore, h⟩ := Option.bind_eq_some_iff.1 h
      rw [List.foldlM_cons] at h
      obtain ⟨after, hafter, h⟩ := Option.bind_eq_some_iff.1 h
      cases h
      rw [lookup_addMember? hafter, lastNaming?_append_singleton, ih hbefore]
      split <;> rfl

/-- A document of a table names a row and gives it no cells. -/
def NamesBare (value : Json) (e : UInt64) : Prop :=
  ∃ members name, value.fields? ["rows"] = some [some (.object members)] ∧
    lastNaming? members e = some (name, .object [])

theorem lookup_ofJson?_eq_some_empty_iff {value : Json} (h : ofJson? value = some t) :
    t.rows.lookup e = some .empty ↔ NamesBare value e := by
  unfold ofJson? at h
  split at h
  · rename_i members hmembers
    unfold NamesBare
    rw [lookup_foldlM_addMember? h, hmembers]
    constructor
    · intro hbare
      obtain ⟨⟨name, cells⟩, hlast, hcells⟩ := Option.bind_eq_some_iff.1 hbare
      rw [Cells.ofJson?_eq_some_empty_iff] at hcells
      cases hcells
      exact ⟨members, name, rfl, hlast⟩
    · rintro ⟨_, name, heq, hlast⟩
      cases heq
      rw [hlast, Option.bind_some, Cells.ofJson?_eq_some_empty_iff]
  · cases h

end Reading

/-- The ways to come by a table. -/
inductive Construction where
  | new
  | aggregate (samples : List (Sample Binary64)) (precision : Precision)
  | read (text : String)
  | insert (before : Construction) (exceptions : UInt64) (version : Version) (x : Binary64)

namespace Construction

/-- The table that is come by. There is none if the precision does not occur or
the text is refused. -/
def table? : Construction → Option (ComparisonTable Binary64)
  | new => some .empty
  | aggregate samples precision => (CycleComparison.aggregate samples).get precision
  | read text => (Json.read? text).bind ofJson?
  | insert before exceptions version x =>
      before.table?.map fun t => t.insert exceptions version x

/-- A row is named without cells and no cell has been inserted into it. -/
def LeavesBare : Construction → UInt64 → Prop
  | new, _ => False
  | aggregate _ _, _ => False
  | read text, e => ∃ value, Json.read? text = some value ∧ NamesBare value e
  | insert before exceptions _ _, e => before.LeavesBare e ∧ e ≠ exceptions

/-- The text that a table was read from, before any insertions. -/
def text? : Construction → Option String
  | new => none
  | aggregate _ _ => none
  | read text => some text
  | insert before _ _ _ => before.text?

theorem not_leavesBare_of_text?_eq_none {c : Construction} (h : c.text? = none) (e : UInt64) :
    ¬ c.LeavesBare e := by
  induction c with
  | new => exact id
  | aggregate samples precision => exact id
  | read text => cases h
  | insert before number v x ih => exact fun hbare => ih h hbare.1

end Construction

theorem HasCells.lookup_ne_some_empty {α : Type} {t : ComparisonTable α} (h : t.HasCells)
    (e : UInt64) : t.rows.lookup e ≠ some .empty :=
  fun hlookup => h _ (mem_rows_of_lookup hlookup) rfl

theorem hasCells_iff {α : Type} {t : ComparisonTable α} :
    t.HasCells ↔ ∀ e, t.rows.lookup e ≠ some .empty := by
  refine ⟨HasCells.lookup_ne_some_empty, ?_⟩
  rintro h ⟨e, cells⟩ hrow rfl
  exact h e (lookup_of_mem t.ascending hrow)

/-- A row of a table is without cells exactly if its construction leaves it so. -/
theorem lookup_eq_some_empty_iff {c : Construction} {t : ComparisonTable Binary64}
    (h : c.table? = some t) (e : UInt64) : t.rows.lookup e = some .empty ↔ c.LeavesBare e := by
  induction c generalizing t with
  | new =>
      cases h
      exact ⟨nofun, nofun⟩
  | aggregate samples precision =>
      exact ⟨(hasCells_aggregate h).lookup_ne_some_empty e, nofun⟩
  | read text =>
      obtain ⟨value, hvalue, ht⟩ := Option.bind_eq_some_iff.1 h
      rw [lookup_ofJson?_eq_some_empty_iff ht, Construction.LeavesBare, hvalue]
      simp only [Option.some.injEq, exists_eq_left']
  | insert before number v x ih =>
      obtain ⟨t, ht, rfl⟩ := Option.map_eq_some_iff.1 h
      unfold Construction.LeavesBare insert alter
      by_cases he : e = number
      · subst he
        rw [lookup_alterRow_self _ _ _ t.ascending]
        refine ⟨fun hbare => ?_, fun hbare => absurd rfl hbare.2⟩
        exact absurd (Option.some.inj hbare) (Cells.set_some_ne_empty _ v x)
      · rw [lookup_alterRow_of_ne he, ih ht]
        exact ⟨fun hbare => ⟨hbare, he⟩, And.left⟩

section Counting

variable {α : Type} {t : ComparisonTable α}

/-- The numbers of exceptions that occur in a column. -/
def measured (t : ComparisonTable α) : Finset UInt64 :=
  ((t.column .new).map (·.1) ++ (t.column .old).map (·.1)).toFinset

theorem mem_measured_iff {e : UInt64} : e ∈ t.measured ↔ ∃ v x, t.get e v = some x := by
  have hcolumn (v : Version) : e ∈ (t.column v).map (·.1) ↔ ∃ x, t.get e v = some x := by
    simp only [List.mem_map, Prod.exists, mem_column_iff, exists_and_right, exists_eq_right]
  rw [measured, List.mem_toFinset, List.mem_append, hcolumn, hcolumn]
  constructor
  · rintro (⟨x, hx⟩ | ⟨x, hx⟩)
    · exact ⟨.new, x, hx⟩
    · exact ⟨.old, x, hx⟩
  · rintro ⟨v, x, hx⟩
    cases v with
    | new => exact .inl ⟨x, hx⟩
    | old => exact .inr ⟨x, hx⟩

theorem size_eq_card_exceptions (t : ComparisonTable α) : t.size = t.exceptions.toFinset.card := by
  have hnodup : t.exceptions.Nodup := t.pairwise_exceptions.imp UInt64.ne_of_lt
  rw [List.toFinset_card_of_nodup hnodup, exceptions, List.length_map, size]

/-- The size counts the measured rows exactly if there are no others. -/
theorem size_eq_card_measured_iff : t.size = t.measured.card ↔ t.HasCells := by
  have hsubset : t.measured ⊆ t.exceptions.toFinset := by
    intro e he
    obtain ⟨v, x, hx⟩ := mem_measured_iff.1 he
    exact List.mem_toFinset.2 (mem_exceptions_of_get hx)
  rw [size_eq_card_exceptions]
  constructor
  · intro hcard row hrow hempty
    have hmem : row.1 ∈ t.measured := by
      rw [Finset.eq_of_subset_of_card_le hsubset (Nat.le_of_eq hcard), List.mem_toFinset]
      exact List.mem_map_of_mem hrow
    obtain ⟨v, x, hx⟩ := mem_measured_iff.1 hmem
    rw [get_of_mem_rows hrow, hempty, Cells.get_empty] at hx
    cases hx
  · intro h
    congr 1
    ext e
    rw [List.mem_toFinset, h.mem_exceptions_iff, mem_measured_iff]

theorem isEmpty_iff : t.isEmpty ↔ t.rows = [] := List.isEmpty_iff

theorem versions_eq_nil_iff : t.versions = [] ↔ ∀ row ∈ t.rows, row.2 = .empty := by
  have hversion (v : Version) : t.hasVersion v ↔ ∃ row ∈ t.rows, (row.2.get v).isSome :=
    List.any_eq_true
  unfold versions
  simp only [List.filter_eq_nil_iff, hversion, not_exists, not_and, Bool.not_eq_true,
    Option.isSome_eq_false_iff, Option.isNone_iff_eq_none]
  constructor
  · intro h row hrow
    apply Cells.ext_get
    intro v
    rw [Cells.get_empty]
    exact h v (by cases v <;> decide) row hrow
  · intro h v _ row hrow
    rw [h row hrow, Cells.get_empty]

theorem isEmpty_iff_versions_iff :
    (t.isEmpty ↔ t.versions = []) ↔ (t.isEmpty ∨ ∃ row ∈ t.rows, row.2 ≠ .empty) := by
  rw [versions_eq_nil_iff, isEmpty_iff]
  constructor
  · intro h
    by_cases hrows : t.rows = []
    · exact .inl hrows
    · right
      by_contra hnone
      apply hrows
      refine h.2 fun row hrow => ?_
      by_contra hne
      exact hnone ⟨row, hrow, hne⟩
  · rintro (hrows | ⟨row, hrow, hne⟩)
    · rw [hrows]
      exact ⟨fun _ => List.forall_mem_nil _, fun _ => rfl⟩
    · constructor
      · intro hrows
        rw [hrows] at hrow
        cases hrow
      · intro h
        exact absurd (h row hrow) hne

end Counting

/-- Every row of a table has a cell exactly if its construction leaves no row
bare, which only reading can do. Then and only then is the size of the table the
number of exceptions that occur in its columns. A table is empty exactly if it
has no version, unless it has rows and all of them are bare. -/
theorem hasCells_iff_not_leavesBare {c : Construction} {t : ComparisonTable Binary64}
    (h : c.table? = some t) :
    (t.HasCells ↔ ∀ e, ¬ c.LeavesBare e) ∧
    (c.text? = none → t.HasCells) ∧
    (t.size = t.measured.card ↔ ∀ e, ¬ c.LeavesBare e) ∧
    ((t.isEmpty ↔ t.versions = []) ↔ (t.isEmpty ∨ ∃ e ∈ t.exceptions, ¬ c.LeavesBare e)) := by
  have hbare (e : UInt64) := lookup_eq_some_empty_iff h e
  have hcells : t.HasCells ↔ ∀ e, ¬ c.LeavesBare e :=
    hasCells_iff.trans (forall_congr' fun e => not_congr (hbare e))
  refine ⟨hcells, fun hnone => ?_, size_eq_card_measured_iff.trans hcells, ?_⟩
  · exact hcells.2 (Construction.not_leavesBare_of_text?_eq_none hnone)
  · rw [isEmpty_iff_versions_iff, exceptions]
    apply or_congr_right
    simp only [List.mem_map, Prod.exists, ← hbare]
    constructor
    · rintro ⟨e, cells, hrow, hne⟩
      refine ⟨e, ⟨e, cells, hrow, rfl⟩, ?_⟩
      rw [lookup_of_mem t.ascending hrow]
      exact fun heq => hne (Option.some.inj heq)
    · rintro ⟨_, ⟨e, cells, hrow, rfl⟩, hne⟩
      rw [lookup_of_mem t.ascending hrow] at hne
      exact ⟨e, cells, hrow, fun heq => hne (congrArg some heq)⟩

/-- Of two members that name a row the last one is empty, and another row that is
named without cells has one inserted. -/
theorem hasCells_iff_not_leavesBare_repeated :
    let text :=
      "\x7b\"rows\":\x7b\"1\":\x7b\"new\":2.5\x7d,\"3\":\x7b\x7d,\"1\":\x7b\x7d\x7d\x7d"
    let c := Construction.insert (.read text) 3 .old 0
    ∃ t, c.table? = some t ∧ t.exceptions = [1, 3] ∧ t.size ≠ t.measured.card ∧
      (¬ ∀ e, ¬ c.LeavesBare e) ∧ (t.isEmpty ↔ t.versions = []) := by
  intro text c
  have hrows : c.table?.map rows = some [(1, .empty), (3, ⟨none, some 0⟩)] := by decide +kernel
  obtain ⟨t, ht, hrows⟩ := Option.map_eq_some_iff.1 hrows
  obtain ⟨hcells, -, hsize, -⟩ := hasCells_iff_not_leavesBare ht
  have hnot : ¬ t.HasCells := by
    unfold HasCells
    rw [hrows]
    decide
  refine ⟨t, ht, ?_, mt hsize.1 (mt hcells.2 hnot), mt hcells.2 hnot, ?_⟩
  · rw [exceptions, hrows]
    rfl
  · rw [versions_eq_nil_iff, isEmpty_iff, hrows]
    decide

/-- A document that names a row without cells is a table with a row in none of
its columns, neither empty nor of any version. -/
theorem exists_not_hasCells_of_read :
    ∃ t, (Construction.read "\x7b\"rows\":\x7b\"1\":\x7b\x7d\x7d\x7d").table? = some t ∧
      ¬ t.HasCells ∧ ¬ (t.isEmpty ↔ t.versions = []) ∧ t.size = 1 ∧ t.measured = ∅ := by
  have hrows : ((Construction.read "\x7b\"rows\":\x7b\"1\":\x7b\x7d\x7d\x7d").table?.map rows) =
      some [(1, .empty)] := by
    decide +kernel
  obtain ⟨t, ht, hrows⟩ := Option.map_eq_some_iff.1 hrows
  refine ⟨t, ht, ?_, ?_, ?_, ?_⟩
  · unfold HasCells
    rw [hrows]
    decide
  · rw [versions_eq_nil_iff, isEmpty_iff, hrows]
    decide
  · rw [size, hrows]
    rfl
  · simp only [measured, column, hrows]
    rfl

end ComparisonTable

end CycleComparison

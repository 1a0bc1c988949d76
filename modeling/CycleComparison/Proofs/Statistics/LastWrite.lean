import CycleComparison.Proofs.Statistics.ComparisonTable
import CycleComparison.Statistics.Json
import CycleComparison.Json.Writer
import CycleComparison.Statistics.LongForm
import Mathlib.Data.List.Induction

/-!
# Tables of the last writes

A table that cells are inserted into, one after another, has in each place what
was written there last, and no row or version that nothing was written to. As a
table without bare rows is known by its cells, the order of the writes does not
matter beyond this: writes with the same last ones give the same table.
-/

namespace CycleComparison

namespace ComparisonTable

variable {α : Type}

/-- The table that writes give, each of a value to a row and a version. -/
def ofWrites (writes : List (UInt64 × Version × α)) : ComparisonTable α :=
  writes.foldl (fun t (e, v, x) => t.insert e v x) .empty

/-- A value was written to a place, and nothing was written there later. -/
def IsLastWrite (writes : List (UInt64 × Version × α)) (e : UInt64) (v : Version) (x : α) : Prop :=
  ∃ before after, writes = before ++ (e, v, x) :: after ∧ ∀ y, (e, v, y) ∉ after

variable {writes writes' : List (UInt64 × Version × α)} {e : UInt64} {v : Version} {x : α}

theorem ofWrites_append_singleton (writes : List (UInt64 × Version × α)) (e : UInt64)
    (v : Version) (x : α) : ofWrites (writes ++ [(e, v, x)]) = (ofWrites writes).insert e v x := by
  rw [ofWrites, List.foldl_append]
  rfl

theorem hasCells_ofWrites (writes : List (UInt64 × Version × α)) :
    (ofWrites writes).HasCells := by
  induction writes using List.reverseRecOn with
  | nil => exact .empty
  | append_singleton writes write ih =>
      rw [ofWrites_append_singleton]
      exact ih.insert _ _ _

/-- Of more writes the one at the end is the last, unless it is to another place. -/
theorem isLastWrite_append_singleton {write : UInt64 × Version × α} :
    IsLastWrite (writes ++ [write]) e v x ↔
      write = (e, v, x) ∨ (∀ y, write ≠ (e, v, y)) ∧ IsLastWrite writes e v x := by
  constructor
  · rintro ⟨before, after, heq, hafter⟩
    rcases List.eq_nil_or_concat after with rfl | ⟨init, last, rfl⟩
    · exact .inl (List.singleton_inj.1 (List.append_inj' heq rfl).2)
    · rw [List.concat_eq_append] at heq hafter
      rw [← List.cons_append, ← List.append_assoc] at heq
      obtain ⟨hwrites, hlast⟩ := List.append_inj' heq rfl
      rw [List.singleton_inj] at hlast
      refine .inr ⟨fun y hy => hafter y ?_, before, init, hwrites, fun y hy => hafter y ?_⟩
      · rw [← hy, hlast]
        exact List.mem_append_right _ List.mem_cons_self
      · exact List.mem_append_left _ hy
  · rintro (rfl | ⟨hne, before, after, rfl, hafter⟩)
    · exact ⟨writes, [], rfl, fun _ => List.not_mem_nil⟩
    · refine ⟨before, after ++ [write], by simp, fun y hy => ?_⟩
      rcases List.mem_append.1 hy with hy | hy
      · exact hafter y hy
      · exact hne y (List.mem_singleton.1 hy).symm

theorem not_isLastWrite_nil : ¬ IsLastWrite ([] : List (UInt64 × Version × α)) e v x := by
  rintro ⟨before, after, heq, -⟩
  exact List.append_ne_nil_of_right_ne_nil before (List.cons_ne_nil _ after) heq.symm

/-- A cell has what was written to it last. -/
theorem get_ofWrites_eq_some_iff :
    (ofWrites writes).get e v = some x ↔ IsLastWrite writes e v x := by
  induction writes using List.reverseRecOn with
  | nil => exact iff_of_false (by simp [ofWrites]) not_isLastWrite_nil
  | append_singleton writes write ih =>
      obtain ⟨other, w, y⟩ := write
      rw [ofWrites_append_singleton, isLastWrite_append_singleton, ← ih]
      by_cases hplace : e = other ∧ v = w
      · obtain ⟨rfl, rfl⟩ := hplace
        simp [get_insert_self]
      · have hne (z : α) : (other, w, y) ≠ (e, v, z) := by
          rintro ⟨⟩
          exact hplace ⟨rfl, rfl⟩
        rw [get_insert_of_ne _ (not_and_or.1 hplace), or_iff_right (hne x), and_iff_right hne]

/-- A place that something was written to has a last write. -/
theorem exists_isLastWrite_iff : (∃ x, IsLastWrite writes e v x) ↔ ∃ x, (e, v, x) ∈ writes := by
  constructor
  · rintro ⟨x, before, after, rfl, -⟩
    exact ⟨x, List.mem_append_right _ List.mem_cons_self⟩
  · induction writes using List.reverseRecOn with
    | nil => simp
    | append_singleton writes write ih =>
        simp only [isLastWrite_append_singleton, List.mem_append, List.mem_singleton]
        rintro ⟨x, hx⟩
        by_cases hwrite : ∃ y, write = (e, v, y)
        · exact hwrite.imp fun _ => .inl
        · rw [not_exists] at hwrite
          obtain ⟨y, hy⟩ := ih ⟨x, hx.resolve_right fun heq => hwrite x heq.symm⟩
          exact ⟨y, .inr ⟨hwrite, hy⟩⟩

theorem exists_get_ofWrites_iff : (∃ x, (ofWrites writes).get e v = some x) ↔
    ∃ x, (e, v, x) ∈ writes := by
  simp only [get_ofWrites_eq_some_iff, exists_isLastWrite_iff]

theorem get_ofWrites_eq_none_iff :
    (ofWrites writes).get e v = none ↔ ∀ x, (e, v, x) ∉ writes := by
  rw [← not_exists, ← exists_get_ofWrites_iff, ← Option.isSome_iff_exists,
    Option.not_isSome_iff_eq_none]

theorem mem_exceptions_ofWrites_iff :
    e ∈ (ofWrites writes).exceptions ↔ ∃ v x, (e, v, x) ∈ writes := by
  simp only [(hasCells_ofWrites writes).mem_exceptions_iff, exists_get_ofWrites_iff]

theorem mem_versions_ofWrites_iff :
    v ∈ (ofWrites writes).versions ↔ ∃ e x, (e, v, x) ∈ writes := by
  simp only [mem_versions_iff, exists_get_ofWrites_iff]

/-- Tables of writes are the same exactly if the last writes are. -/
theorem ofWrites_eq_iff :
    ofWrites writes = ofWrites writes' ↔
      ∀ e v x, IsLastWrite writes e v x ↔ IsLastWrite writes' e v x := by
  simp only [← get_ofWrites_eq_some_iff]
  constructor
  · intro h e v x
    rw [h]
  · intro h
    apply (hasCells_ofWrites writes).ext_get (hasCells_ofWrites writes')
    exact fun e v => Option.ext (h e v)

/-- Two tables are compared alike and written alike. -/
structure SameResults (s t : ComparisonTable Binary64) : Prop where
  summary : s.summary? = t.summary?
  speedups : s.speedups = t.speedups
  longForm : ∀ options (tables : PerPrecision (ComparisonTable Binary64)) p,
    LongForm.bytes options (tables.set p (some s)) = LongForm.bytes options (tables.set p (some t))
  json : s.toJson.toCompactText = t.toJson.toCompactText

theorem SameResults.refl (t : ComparisonTable Binary64) : t.SameResults t :=
  ⟨rfl, rfl, fun _ _ _ => rfl, rfl⟩

/-- A table that was written to cell by cell has in each place the last write to it
and nothing where there was none; its rows, columns and versions list what was
written in their order. The last writes decide the table, and with it everything
that is made of it. -/
theorem ofWrites_lists_lastWrites (writes : List (UInt64 × Version × Binary64)) :
    let t := ofWrites writes
    (∀ e v x, t.get e v = some x ↔ IsLastWrite writes e v x) ∧
    (∀ e v, t.get e v = none ↔ ∀ x, (e, v, x) ∉ writes) ∧
    t.exceptions.Pairwise (· < ·) ∧ (∀ e, e ∈ t.exceptions ↔ ∃ v x, (e, v, x) ∈ writes) ∧
    t.size = t.exceptions.length ∧
    (∀ v, Enumerates (t.column v) fun e x => t.get e v = some x) ∧
    t.versions.Sublist [.new, .old] ∧ (∀ v, v ∈ t.versions ↔ ∃ e x, (e, v, x) ∈ writes) ∧
    ∀ writes',
      (ofWrites writes' = t ↔ ∀ e v x, IsLastWrite writes' e v x ↔ IsLastWrite writes e v x) ∧
      ((∀ e v x, IsLastWrite writes' e v x ↔ IsLastWrite writes e v x) →
        (ofWrites writes').SameResults t) := by
  intro t
  refine ⟨fun _ _ _ => get_ofWrites_eq_some_iff, fun _ _ => get_ofWrites_eq_none_iff,
    t.pairwise_exceptions, fun _ => mem_exceptions_ofWrites_iff, ?_, t.enumerates_column,
    List.filter_sublist, fun _ => mem_versions_ofWrites_iff, fun writes' => ⟨ofWrites_eq_iff, ?_⟩⟩
  · rw [size, exceptions, List.length_map]
  · intro h
    rw [ofWrites_eq_iff.2 h]
    exact .refl t

/-- Keys out of order, a cell that is written twice and the second version of a row. -/
theorem ofWrites_lists_lastWrites_repeated :
    let writes : List (UInt64 × Version × Binary64) :=
      [(18446744073709551615, .old, .nan), (3, .new, 0), (3, .old, .zeroOf true),
        (3, .new, .ofNat 2)]
    let writes' : List (UInt64 × Version × Binary64) :=
      [(3, .old, .zeroOf true), (3, .new, .ofNat 2), (18446744073709551615, .old, .nan)]
    (ofWrites writes).exceptions = [3, 18446744073709551615] ∧
      (ofWrites writes).get 3 .new = some (.ofNat 2) ∧
      (ofWrites writes').SameResults (ofWrites writes) := by
  intro writes writes'
  obtain ⟨hlast, -, -, -, -, -, -, -, hsame⟩ := ofWrites_lists_lastWrites writes
  have heq : ofWrites writes' = ofWrites writes := ext (by decide +kernel)
  refine ⟨by decide +kernel, (hlast 3 .new _).2 ?_, (hsame writes').2 ((hsame writes').1.1 heq)⟩
  exact ⟨writes.take 3, [], rfl, fun _ => List.not_mem_nil⟩

end ComparisonTable

end CycleComparison

import CycleComparison.Benchmark.Name

/-!
# Comparison tables

A `ComparisonTable` has a row for each number of exceptions and a column for each
version; a cell may be absent. The rows are kept in ascending order, which is
part of the type. A table is built by changing one row at a time, `alter`, of
which setting a cell and setting a row are instances.
-/

namespace CycleComparison

/-- A row of a comparison table. -/
structure Cells (α : Type) where
  new : Option α
  old : Option α
  deriving DecidableEq

namespace Cells

variable {α β : Type}

def empty : Cells α := ⟨none, none⟩

def get (cells : Cells α) : Version → Option α
  | .new => cells.new
  | .old => cells.old

/-- The row with another cell for a version. -/
def set (cells : Cells α) (version : Version) (x : Option α) : Cells α :=
  match version with
  | .new => { cells with new := x }
  | .old => { cells with old := x }

@[simp] theorem get_empty (v : Version) : (empty : Cells α).get v = none := by
  cases v <;> rfl

@[simp] theorem get_set_self (cells : Cells α) (v : Version) (x : Option α) :
    (cells.set v x).get v = x := by
  cases v <;> rfl

theorem get_set_of_ne (cells : Cells α) {v w : Version} (h : w ≠ v) (x : Option α) :
    (cells.set v x).get w = cells.get w := by
  cases v <;> cases w <;> first | rfl | exact absurd rfl h

/-- The row with every cell changed. -/
def filterMap (f : α → Option β) (cells : Cells α) : Cells β :=
  ⟨cells.new.bind f, cells.old.bind f⟩

end Cells

/-- Changes the row of a key in a list of rows, where a missing row has no cells,
and keeps the list in ascending order. -/
def alterRow {α : Type} (key : UInt64) (f : Cells α → Cells α) :
    List (UInt64 × Cells α) → List (UInt64 × Cells α)
  | [] => [(key, f .empty)]
  | (k, cells) :: rest =>
      if key < k then (key, f .empty) :: (k, cells) :: rest
      else if key = k then (k, f cells) :: rest
      else (k, cells) :: alterRow key f rest

theorem mem_alterRow {α : Type} {key : UInt64} {f : Cells α → Cells α}
    {rows : List (UInt64 × Cells α)} {row : UInt64 × Cells α}
    (h : row ∈ alterRow key f rows) : row.1 = key ∨ row ∈ rows := by
  induction rows with
  | nil => simp [alterRow] at h; simp [h]
  | cons head rest ih =>
      obtain ⟨k, cells⟩ := head
      unfold alterRow at h
      split at h
      · rcases List.mem_cons.1 h with rfl | h
        · exact .inl rfl
        · exact .inr h
      · split at h
        · rename_i heq
          rcases List.mem_cons.1 h with rfl | h
          · exact .inl heq.symm
          · exact .inr (List.mem_cons_of_mem _ h)
        · rcases List.mem_cons.1 h with rfl | h
          · exact .inr List.mem_cons_self
          · exact (ih h).imp_right (List.mem_cons_of_mem _)

/-- A change keeps the ascending order. -/
theorem pairwise_alterRow {α : Type} (key : UInt64) (f : Cells α → Cells α)
    {rows : List (UInt64 × Cells α)} (h : rows.Pairwise fun a b => a.1 < b.1) :
    (alterRow key f rows).Pairwise fun a b => a.1 < b.1 := by
  induction rows with
  | nil => simp [alterRow]
  | cons head rest ih =>
      obtain ⟨k, cells⟩ := head
      obtain ⟨hhead, hrest⟩ := List.pairwise_cons.1 h
      unfold alterRow
      split
      · rename_i hlt
        refine List.pairwise_cons.2 ⟨fun row hrow => ?_, h⟩
        rcases List.mem_cons.1 hrow with rfl | hrow
        · exact hlt
        · exact UInt64.lt_trans hlt (hhead row hrow)
      · split
        · exact List.pairwise_cons.2 ⟨fun row hrow => hhead row hrow, hrest⟩
        · rename_i hnlt hne
          refine List.pairwise_cons.2 ⟨fun row hrow => ?_, ih hrest⟩
          rcases mem_alterRow hrow with hkey | hrow
          · exact hkey ▸ UInt64.lt_of_le_of_ne (UInt64.not_lt.1 hnlt) (Ne.symm hne)
          · exact hhead row hrow

theorem lookup_alterRow_self {α : Type} (key : UInt64) (f : Cells α → Cells α)
    (rows : List (UInt64 × Cells α)) (h : rows.Pairwise fun a b => a.1 < b.1) :
    (alterRow key f rows).lookup key = some (f ((rows.lookup key).getD .empty)) := by
  induction rows with
  | nil => simp [alterRow]
  | cons head rest ih =>
      obtain ⟨k, cells⟩ := head
      obtain ⟨hhead, hrest⟩ := List.pairwise_cons.1 h
      unfold alterRow
      split
      · rename_i hlt
        have hnone : List.lookup key ((k, cells) :: rest) = none := by
          refine List.lookup_eq_none_iff.2 fun row hrow => ?_
          have hle : key < row.1 := by
            rcases List.mem_cons.1 hrow with rfl | hrow
            · exact hlt
            · exact UInt64.lt_trans hlt (hhead row hrow)
          simpa using UInt64.ne_of_lt hle
        simp [hnone]
      · split
        · rename_i heq
          subst heq
          simp
        · rename_i hnlt hne
          have hbeq : (key == k) = false := by simpa using hne
          simp [List.lookup_cons, hbeq, ih hrest]

theorem lookup_alterRow_of_ne {α : Type} {key other : UInt64} (hne : other ≠ key)
    (f : Cells α → Cells α) (rows : List (UInt64 × Cells α)) :
    (alterRow key f rows).lookup other = rows.lookup other := by
  have hbeq : (other == key) = false := by simpa using hne
  induction rows with
  | nil => simp [alterRow, hne]
  | cons head rest ih =>
      obtain ⟨k, cells⟩ := head
      unfold alterRow
      split
      · simp [List.lookup_cons, hbeq]
      · split
        · rename_i heq
          subst heq
          simp [List.lookup_cons, hbeq]
        · simp [List.lookup_cons, ih]

/-- Rows in ascending order of their number of exceptions. -/
structure ComparisonTable (α : Type) where
  rows : List (UInt64 × Cells α)
  ascending : rows.Pairwise fun a b => a.1 < b.1

namespace ComparisonTable

variable {α β : Type}

@[ext] theorem ext {s t : ComparisonTable α} (h : s.rows = t.rows) : s = t := by
  cases s; cases t; simp_all

def empty : ComparisonTable α := ⟨[], .nil⟩

instance : Inhabited (ComparisonTable α) := ⟨empty⟩

/-- Changes the row of a number of exceptions. -/
def alter (t : ComparisonTable α) (exceptions : UInt64) (f : Cells α → Cells α) :
    ComparisonTable α :=
  ⟨alterRow exceptions f t.rows, pairwise_alterRow exceptions f t.ascending⟩

def insert (t : ComparisonTable α) (exceptions : UInt64) (version : Version) (x : α) :
    ComparisonTable α :=
  t.alter exceptions fun cells => cells.set version (some x)

def setRow (t : ComparisonTable α) (exceptions : UInt64) (cells : Cells α) :
    ComparisonTable α :=
  t.alter exceptions fun _ => cells

/-- The row of a number of exceptions; a missing row has no cells. -/
def row (t : ComparisonTable α) (exceptions : UInt64) : Cells α :=
  (t.rows.lookup exceptions).getD .empty

def get (t : ComparisonTable α) (exceptions : UInt64) (version : Version) : Option α :=
  (t.row exceptions).get version

@[simp] theorem row_empty (e : UInt64) : (empty : ComparisonTable α).row e = .empty := rfl

@[simp] theorem row_alter_self (t : ComparisonTable α) (e : UInt64) (f : Cells α → Cells α) :
    (t.alter e f).row e = f (t.row e) := by
  simp [row, alter, lookup_alterRow_self e f t.rows t.ascending]

theorem row_alter_of_ne (t : ComparisonTable α) {e other : UInt64} (h : other ≠ e)
    (f : Cells α → Cells α) : (t.alter e f).row other = t.row other := by
  simp [row, alter, lookup_alterRow_of_ne h]

@[simp] theorem get_empty (e : UInt64) (v : Version) :
    (empty : ComparisonTable α).get e v = none := by
  simp [get]

@[simp] theorem get_insert_self (t : ComparisonTable α) (e : UInt64) (v : Version) (x : α) :
    (t.insert e v x).get e v = some x := by
  simp [get, insert]

theorem get_insert_of_ne (t : ComparisonTable α) {e other : UInt64} {v w : Version}
    (h : other ≠ e ∨ w ≠ v) (x : α) : (t.insert e v x).get other w = t.get other w := by
  unfold get insert
  by_cases he : other = e
  · subst he
    have hw : w ≠ v := h.resolve_left fun hne => hne rfl
    simp [Cells.get_set_of_ne _ hw]
  · rw [row_alter_of_ne t he]

/-- The numbers of exceptions that have a row, ascending. -/
def exceptions (t : ComparisonTable α) : List UInt64 := t.rows.map (·.1)

/-- The cells of a version with their numbers of exceptions, ascending. -/
def column (t : ComparisonTable α) (version : Version) : List (UInt64 × α) :=
  t.rows.filterMap fun (e, cells) => (cells.get version).map (e, ·)

def hasVersion (t : ComparisonTable α) (version : Version) : Bool :=
  t.rows.any fun (_, cells) => (cells.get version).isSome

/-- The versions that have a cell. -/
def versions (t : ComparisonTable α) : List Version := Version.all.filter t.hasVersion

def size (t : ComparisonTable α) : Nat := t.rows.length

def isEmpty (t : ComparisonTable α) : Bool := t.rows.isEmpty

/-- The cells with their number of exceptions and version, row by row. -/
def cells (t : ComparisonTable α) : List (UInt64 × Version × α) :=
  t.rows.flatMap fun (e, cells) =>
    Version.all.filterMap fun v => (cells.get v).map (e, v, ·)

/-- The table with every cell changed; the rows stay. -/
def filterMap (f : α → Option β) (t : ComparisonTable α) : ComparisonTable β :=
  ⟨t.rows.map fun (e, cells) => (e, cells.filterMap f), by
    rw [List.pairwise_map]; exact t.ascending⟩

end ComparisonTable

/-- One value for each precision that is present. -/
structure PerPrecision (α : Type) where
  float : Option α
  dbl : Option α
  deriving DecidableEq

namespace PerPrecision

variable {α β : Type}

def empty : PerPrecision α := ⟨none, none⟩

def get (per : PerPrecision α) : Precision → Option α
  | .float => per.float
  | .dbl => per.dbl

def set (per : PerPrecision α) (precision : Precision) (x : Option α) : PerPrecision α :=
  match precision with
  | .float => { per with float := x }
  | .dbl => { per with dbl := x }

@[simp] theorem get_empty (p : Precision) : (empty : PerPrecision α).get p = none := by
  cases p <;> rfl

@[simp] theorem get_set_self (per : PerPrecision α) (p : Precision) (x : Option α) :
    (per.set p x).get p = x := by
  cases p <;> rfl

theorem get_set_of_ne (per : PerPrecision α) {p q : Precision} (h : q ≠ p) (x : Option α) :
    (per.set p x).get q = per.get q := by
  cases p <;> cases q <;> first | rfl | exact absurd rfl h

/-- The values present, in the order of the precisions. -/
def toList (per : PerPrecision α) : List (Precision × α) :=
  Precision.all.filterMap fun p => (per.get p).map (p, ·)

/-- The values changed; those that the change refuses are no longer present. -/
def filterMap (f : α → Option β) (per : PerPrecision α) : PerPrecision β :=
  ⟨per.float.bind f, per.dbl.bind f⟩

end PerPrecision

end CycleComparison

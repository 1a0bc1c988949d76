import CycleComparison.Proofs.Measurement.RoundTrip
import CycleComparison.Proofs.Statistics.Grouping
import CycleComparison.Statistics.LongForm

/-!
# The long form read back

The long form has one row for each cell of the tables. The rows are in strictly
ascending order of precision, number of exceptions and version, so no cell is
written twice, and the place and the value of a cell are read from its row. As
every row of a table has a cell, tables with the same long form are the same,
except that an empty table leaves no trace.
-/

namespace CycleComparison

open Decimal

/-- The word that a text spells: digits, which a plus sign may precede. -/
def Decimal.word? (text : List Char) : Option UInt64 :=
  match splitSign text with
  | (true, _) => none
  | (false, digits) => (natural? digits).bind uint64OfNat?

theorem Decimal.word?_digitsOf (w : UInt64) : word? (digitsOf w.toNat) = some w := by
  rw [word?, splitSign_of_isRun (isRun_digitsOf _)]
  simp

namespace Binary64

/-- Every number is read from its positional text. -/
theorem ofText?_positional_self (x : Binary64) : ofText? x.positional.toList = some x := by
  cases x with
  | nan => decide
  | infinite negative => cases negative <;> decide
  | finite negative step => exact ofText?_positional rfl

theorem trim_positional_self (x : Binary64) : trim x.positional = x.positional := by
  cases x with
  | nan => decide
  | infinite negative => cases negative <;> decide
  | finite negative step => exact trim_positional rfl

end Binary64

namespace LongForm

/-- A cell with its place in the tables. -/
structure Entry where
  precision : Precision
  exceptions : UInt64
  version : Version
  value : Binary64
  deriving DecidableEq

namespace Entry

def toRow (entry : Entry) : List String :=
  row entry.precision entry.exceptions entry.version entry.value

def ofRow? : List String → Option Entry
  | [precision, exceptions, version, value] => do
      return { precision := ← Precision.ofLabel? precision
               exceptions := ← word? exceptions.toList
               version := ← Version.ofLabel? version
               value := ← Binary64.ofText? value.toList }
  | _ => none

/-- The order of the places: by precision, then by the number of exceptions, then
by version. -/
def Precedes (a b : Entry) : Prop :=
  (a.precision = .float ∧ b.precision = .dbl) ∨
    a.precision = b.precision ∧ (a.exceptions < b.exceptions ∨
      a.exceptions = b.exceptions ∧ a.version = .new ∧ b.version = .old)

/-- An entry is found in the row that it is written as. -/
theorem ofRow?_toRow (entry : Entry) : ofRow? entry.toRow = some entry := by
  simp [ofRow?, toRow, row, naturalText, word?_digitsOf, Binary64.ofText?_positional_self]

theorem toRow_injective : Function.Injective toRow := by
  intro entry entry' h
  have hfound := congrArg ofRow? h
  rwa [ofRow?_toRow, ofRow?_toRow, Option.some.injEq] at hfound

/-- No field of a row has blanks at its ends. -/
theorem trim_of_mem_toRow {entry : Entry} {field : String} (h : field ∈ entry.toRow) :
    trim field = field := by
  obtain ⟨precision, exceptions, version, x⟩ := entry
  simp only [toRow, row, List.mem_cons, List.not_mem_nil, or_false] at h
  rcases h with rfl | rfl | rfl | rfl
  · cases precision <;> decide
  · apply trim_of_forall_not
    intro c hc
    rw [naturalText, String.toList_ofList] at hc
    exact not_isBlank_of_isDigit (isDigit_of_mem_digitsOf hc)
  · cases version <;> decide
  · exact x.trim_positional_self

theorem Precedes.irrefl (entry : Entry) : ¬ entry.Precedes entry := by
  rintro (⟨hfloat, hdbl⟩ | ⟨-, hlt | ⟨-, hnew, hold⟩⟩)
  · rw [hfloat] at hdbl
    cases hdbl
  · exact UInt64.lt_irrefl _ hlt
  · rw [hnew] at hold
    cases hold

end Entry

/-- The cells of tables with their places. -/
def entries (tables : PerPrecision (ComparisonTable Binary64)) : List Entry :=
  tables.toList.flatMap fun (precision, table) =>
    table.cells.map fun (exceptions, version, x) => ⟨precision, exceptions, version, x⟩

theorem rows_eq_map_toRow (tables : PerPrecision (ComparisonTable Binary64)) :
    rows tables = (entries tables).map Entry.toRow := by
  simp only [rows, entries, List.map_flatMap, List.map_map]
  rfl

section Entries

variable {tables tables' : PerPrecision (ComparisonTable Binary64)}

/-- The entries are the cells that are found in the tables. -/
theorem mem_entries_iff {entry : Entry} :
    entry ∈ entries tables ↔ ∃ table, tables.get entry.precision = some table ∧
      table.get entry.exceptions entry.version = some entry.value := by
  obtain ⟨p, e, v, x⟩ := entry
  simp only [entries, List.mem_flatMap, List.mem_map, PerPrecision.mem_toList_iff, Prod.exists]
  constructor
  · rintro ⟨q, table, htable, e', v', x', hcell, heq⟩
    cases heq
    exact ⟨table, htable, ComparisonTable.mem_cells_iff.1 hcell⟩
  · rintro ⟨table, htable, hcell⟩
    exact ⟨p, table, htable, e, v, x, ComparisonTable.mem_cells_iff.2 hcell, rfl⟩

/-- The cells of one table ascend. -/
theorem pairwise_cells (table : ComparisonTable Binary64) :
    table.cells.Pairwise fun a b => a.1 < b.1 ∨ a.1 = b.1 ∧ a.2.1 = .new ∧ b.2.1 = .old := by
  unfold ComparisonTable.cells
  rw [List.pairwise_flatMap]
  refine ⟨?_, table.ascending.imp ?_⟩
  · rintro ⟨e, new, old⟩ -
    cases new <;> cases old <;> simp [Version.all, Cells.get]
  · rintro ⟨e, cells⟩ ⟨e', cells'⟩ hlt a ha b hb
    obtain ⟨v, _, hv⟩ := List.mem_filterMap.1 ha
    obtain ⟨w, _, hw⟩ := List.mem_filterMap.1 hb
    obtain ⟨x, _, rfl⟩ := Option.map_eq_some_iff.1 hv
    obtain ⟨y, _, rfl⟩ := Option.map_eq_some_iff.1 hw
    exact .inl hlt

/-- The entries are in strictly ascending order. -/
theorem pairwise_entries (tables : PerPrecision (ComparisonTable Binary64)) :
    (entries tables).Pairwise Entry.Precedes := by
  unfold entries
  rw [List.pairwise_flatMap]
  constructor
  · rintro ⟨p, table⟩ -
    rw [List.pairwise_map]
    exact (pairwise_cells table).imp fun h => .inr ⟨rfl, h⟩
  · refine tables.pairwise_toList.imp ?_
    rintro ⟨p, table⟩ ⟨p', table'⟩ h a ha b hb
    obtain ⟨_, _, rfl⟩ := List.mem_map.1 ha
    obtain ⟨_, _, rfl⟩ := List.mem_map.1 hb
    exact .inl h

theorem nodup_entries (tables : PerPrecision (ComparisonTable Binary64)) :
    (entries tables).Nodup := by
  refine (pairwise_entries tables).imp ?_
  rintro entry _ h rfl
  exact Entry.Precedes.irrefl entry h

theorem hasCells_getD (h : ∀ p table, tables.get p = some table → table.IsBuilt)
    (p : Precision) : ((tables.get p).getD .empty).HasCells := by
  cases hp : tables.get p with
  | none => exact .empty
  | some table => exact (h p table hp).hasCells

/-- The entries say which cells the tables have. -/
theorem get_eq_of_entries (h : entries tables = entries tables') (p : Precision) (e : UInt64)
    (v : Version) :
    ((tables.get p).getD .empty).get e v = ((tables'.get p).getD .empty).get e v := by
  have hfound (tables : PerPrecision (ComparisonTable Binary64)) (x : Binary64) :
      ⟨p, e, v, x⟩ ∈ entries tables ↔ ((tables.get p).getD .empty).get e v = some x := by
    rw [mem_entries_iff]
    cases tables.get p with
    | none => simp
    | some table => simp
  apply Option.ext
  intro x
  rw [← hfound tables x, ← hfound tables' x, h]

end Entries

open Delimited

section Written

variable {tables : PerPrecision (ComparisonTable Binary64)} {write : WriteOptions}
  {read : ReadOptions}

theorem bytes_of_headers (hheaders : write.headers = true) :
    bytes write tables = (header :: rows tables).flatMap (recordBytes write) := by
  unfold bytes tableBytes
  rw [hheaders, if_pos rfl, List.singleton_append]

theorem isText_bytes (hascii : write.delimiter < 0x80) : IsText (bytes write tables) :=
  IsText.flatMap fun record _ => .recordBytes hascii record

theorem trim_of_mem_header {field : String} (h : field ∈ header) : trim field = field := by
  revert field
  decide

/-- The written header does not start like a byte order mark. -/
theorem head?_rows : ((header :: rows tables).flatMap (recordBytes write)).head? ≠ some 0xEF :=
  head?_flatMap_recordBytes write (show encodeUtf8 "type" = 0x74 :: [0x79, 0x70, 0x65] by decide)
    (by decide) ["exceptions", "version", "mean_cycles"] _

/-- The long form is read as its header and rows, whether or not the reader trims. -/
theorem load_bytes (hheaders : write.headers = true) (hstyle : write.quoting.IsFaithful)
    (hseparates : Separates write.delimiter) (hdelimiter : read.delimiter = write.delimiter)
    (hmax : (rows tables).length + 1 ≤ read.maxRows) :
    load read ⟨bytes write tables, none, none⟩ = .ok (header :: rows tables) := by
  have hwidth : ∀ row ∈ header :: rows tables, row.length = 4 := by
    rw [rows_eq_map_toRow, List.forall_mem_cons, List.forall_mem_map]
    exact ⟨rfl, fun _ _ => rfl⟩
  have hread : ∀ row ∈ header :: rows tables, row.map (cellRead read.trim) = row := by
    rw [rows_eq_map_toRow, List.forall_mem_cons, List.forall_mem_map]
    exact ⟨map_cellRead_of_trim (fun _ => trim_of_mem_header) _,
      fun _ _ => map_cellRead_of_trim (fun _ => Entry.trim_of_mem_toRow) _⟩
  rw [bytes_of_headers hheaders, load_records hdelimiter hseparates hstyle
    (List.cons_ne_nil _ _) (by decide) hwidth hmax head?_rows]
  exact congrArg Except.ok ((List.map_congr_left hread).trans (List.map_id _))

/-- What is read from the long form says which entries were written. -/
theorem entries_eq_of_bytes {tables' : PerPrecision (ComparisonTable Binary64)}
    (hheaders : write.headers = true) (hstyle : write.quoting.IsFaithful)
    (hseparates : Separates write.delimiter) (h : bytes write tables = bytes write tables') :
    entries tables = entries tables' := by
  let read : ReadOptions :=
    { delimiter := write.delimiter, trim := false, flexible := false
      maxRows := (rows tables).length + (rows tables').length + 1 }
  have hload : load read ⟨bytes write tables, none, none⟩ = .ok (header :: rows tables) :=
    load_bytes hheaders hstyle hseparates rfl (by simp only [read]; omega)
  have hload' : load read ⟨bytes write tables', none, none⟩ = .ok (header :: rows tables') :=
    load_bytes hheaders hstyle hseparates rfl (by simp only [read]; omega)
  rw [h, hload'] at hload
  have hrows := (List.cons.inj (Except.ok.inj hload)).2
  rw [rows_eq_map_toRow, rows_eq_map_toRow] at hrows
  exact (List.map_injective_iff.2 Entry.toRow_injective hrows).symm

/-- The long form of tables is a text from which every cell is read once, with
its place and its value and in ascending order. Tables with the same long form
differ only in which precisions have an empty table. -/
theorem load_bytes_entries (hbuilt : ∀ p table, tables.get p = some table → table.IsBuilt)
    (hheaders : write.headers = true) (hstyle : write.quoting.IsFaithful)
    (hascii : write.delimiter < 0x80) (hseparates : Separates write.delimiter)
    (hdelimiter : read.delimiter = write.delimiter)
    (hmax : (rows tables).length + 1 ≤ read.maxRows) :
    (∃ (text : String) (loaded : List (List String)) (found : List Entry),
      encodeUtf8 text = bytes write tables ∧
      load read (.ofText text) = .ok (header :: loaded) ∧
      loaded.map Entry.ofRow? = found.map some ∧
      found.Pairwise Entry.Precedes ∧ found.Nodup ∧
      ∀ entry, entry ∈ found ↔ ∃ table, tables.get entry.precision = some table ∧
        table.get entry.exceptions entry.version = some entry.value) ∧
    ∀ tables', (∀ p table, tables'.get p = some table → table.IsBuilt) →
      bytes write tables' = bytes write tables →
      ∀ p, (tables'.get p).getD .empty = (tables.get p).getD .empty := by
  constructor
  · obtain ⟨text, htext⟩ : IsText (bytes write tables) := isText_bytes hascii
    have hbytes : encodeUtf8 (String.ofList text) = bytes write tables := by
      rw [encodeUtf8, String.toList_ofList, htext]
    refine ⟨String.ofList text, rows tables, entries tables, hbytes, ?_, ?_,
      pairwise_entries tables, nodup_entries tables, fun _ => mem_entries_iff⟩
    · rw [Source.ofText, hbytes]
      exact load_bytes hheaders hstyle hseparates hdelimiter hmax
    · rw [rows_eq_map_toRow, List.map_map]
      exact List.map_congr_left fun entry _ => entry.ofRow?_toRow
  · intro tables' hbuilt' hbytes p
    have hentries := entries_eq_of_bytes hheaders hstyle hseparates hbytes
    apply (hasCells_getD hbuilt' p).ext_get (hasCells_getD hbuilt p)
    exact get_eq_of_entries hentries p

end Written

/-- Undefined, infinite and zero means, a number of exceptions with all digits, a
delimiter that occurs in the rows, and an empty table. -/
theorem load_bytes_entries_awkward :
    let table : ComparisonTable Binary64 :=
      ((ComparisonTable.empty.insert 18446744073709551615 .new (.infinite true)).insert 0 .old
        .nan).insert 0 .new (.zeroOf true)
    let tables : PerPrecision (ComparisonTable Binary64) := ⟨some table, some .empty⟩
    let write : WriteOptions := { delimiter := 0x30, headers := true, quoting := .necessary }
    let read : ReadOptions := { delimiter := 0x30, trim := true, maxRows := 4, flexible := true }
    ∃ (text : String) (loaded : List (List String)) (found : List Entry),
      encodeUtf8 text = bytes write tables ∧ load read (.ofText text) = .ok (header :: loaded) ∧
      loaded.map Entry.ofRow? = found.map some ∧
      ∀ entry ∈ [⟨.float, 0, .new, .zeroOf true⟩, ⟨.float, 0, .old, .nan⟩,
        ⟨.float, 18446744073709551615, .new, .infinite true⟩], entry ∈ found := by
  intro table tables write read
  have hbuilt : ∀ p t, tables.get p = some t → t.IsBuilt := by
    rintro (_ | _) t h
    · cases h
      exact .insert (.insert (.insert .empty _ _ _) _ _ _) _ _ _
    · cases h
      exact .empty
  have hseparates : Separates write.delimiter := by constructor <;> decide
  obtain ⟨⟨text, loaded, found, hbytes, hload, hfound, _, _, hmem⟩, _⟩ :=
    load_bytes_entries hbuilt rfl (.inl rfl) (by decide) hseparates
      (show read.delimiter = write.delimiter from rfl) (by decide)
  refine ⟨text, loaded, found, hbytes, hload, hfound, ?_⟩
  intro entry hentry
  rw [hmem]
  simp only [List.mem_cons, List.not_mem_nil, or_false] at hentry
  rcases hentry with rfl | rfl | rfl <;> exact ⟨table, rfl, by decide⟩

end LongForm

end CycleComparison

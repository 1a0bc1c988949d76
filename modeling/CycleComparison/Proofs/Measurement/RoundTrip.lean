import CycleComparison.Analysis.Delimited
import CycleComparison.Proofs.Decimal.Positional
import CycleComparison.Proofs.Delimited.RoundTrip
import CycleComparison.Proofs.Measurement.Normal

/-!
# Measurement tables read back

A normal measurement is found again in the row that it is written as, under a
header that shows the usual positions. With the round trip of delimited text, a
written table is read as the same measurements, with none dropped.
-/

namespace CycleComparison

open Decimal

theorem not_isBlank_of_mem_numeral {c : Char} (h : c.isDigit ∨ c = '-' ∨ c = '.') :
    ¬ isBlank c := by
  rcases h with h | rfl | rfl
  · exact not_isBlank_of_isDigit h
  · decide
  · decide

theorem Decimal.mem_wholeChars {n : Int} {c : Char} (h : c ∈ wholeChars n) :
    c.isDigit ∨ c = '-' := by
  unfold wholeChars at h
  split at h
  · rcases List.mem_cons.1 h with rfl | h
    · exact .inr rfl
    · exact .inl (isDigit_of_mem_digitsOf h)
  · exact .inl (isDigit_of_mem_digitsOf h)

theorem trim_wholeText (n : Int) : trim (wholeText n) = wholeText n := by
  apply trim_of_forall_not
  intro c hc
  rw [wholeText, String.toList_ofList] at hc
  exact not_isBlank_of_mem_numeral ((mem_wholeChars hc).imp_right .inl)

theorem trim_positional {x : Binary64} (h : x.isFinite) : trim x.positional = x.positional :=
  trim_of_forall_not fun _ hc => not_isBlank_of_mem_numeral (Binary64.mem_positional h hc)

theorem idOfText?_wholeText (id : Int64) : idOfText? (wholeText id.toInt) = some id := by
  unfold idOfText?
  rw [trim_wholeText, wholeText, String.toList_ofList]
  simp only [whole?_wholeChars, Option.bind_some, int64OfInt?_toInt]

theorem finiteOfText?_positional {x : Binary64} (h : x.isFinite) :
    finiteOfText? x.positional = some x := by
  rw [finiteOfText?, trim_positional h, Binary64.ofText?_positional h, Option.filter_some, if_pos h]

namespace Measurement

/-- A normal measurement is in the row that it is written as. -/
theorem ofRow?_toRow {m : Measurement} (h : m.IsNormal) : ofRow? .usual m.toRow = some m := by
  have hcycles : finiteOfText? ((m.cycles.map Binary64.positional).getD "") = m.cycles := by
    cases hm : m.cycles with
    | none => decide
    | some x => exact finiteOfText?_positional (h.finite x hm)
  unfold ofRow? toRow ColumnPositions.usual
  simp only [List.getElem?_cons_zero, List.getElem?_cons_succ, Option.bind_eq_bind,
    Option.bind_some, idOfText?_wholeText, h.trimmed, hcycles]
  rfl

theorem map_cellRead_toRow {m : Measurement} (h : m.IsNormal) {trimmed : Bool}
    (hname : trimmed = true → trim m.name = m.name) :
    m.toRow.map (Delimited.cellRead trimmed) = m.toRow := by
  unfold Delimited.cellRead
  cases trimmed with
  | false =>
      simp only [Bool.false_eq_true, if_false]
      exact List.map_id _
  | true =>
      have hcycles : trim ((m.cycles.map Binary64.positional).getD "") =
          (m.cycles.map Binary64.positional).getD "" := by
        cases hm : m.cycles with
        | none => decide
        | some x => exact trim_positional (h.finite x hm)
      simp only [toRow, if_true, List.map_cons, List.map_nil, trim_wholeText, hname rfl,
        h.trimmed, hcycles]

theorem map_cellRead_header (trimmed : Bool) :
    header.map (Delimited.cellRead trimmed) = header := by
  cases trimmed <;> decide

end Measurement

namespace MeasurementTable

/-- The rows that a table is written as. -/
def toRows (table : MeasurementTable) : List (List String) :=
  Measurement.header :: table.measurements.map Measurement.toRow

theorem length_of_mem_toRows {table : MeasurementTable} {row : List String}
    (h : row ∈ table.toRows) : row.length = 4 := by
  rcases List.mem_cons.1 h with rfl | h
  · rfl
  · obtain ⟨m, _, rfl⟩ := List.mem_map.1 h
    rfl

/-- The rows that normal measurements are written as are those of a table with
the usual header that holds the same measurements. -/
theorem ofRows_toRows {table : MeasurementTable} (h : ∀ m ∈ table.measurements, m.IsNormal) :
    ofRows table.toRows =
      .ok { layout := .headed .usual, measurements := table.measurements, dropped := 0 } := by
  have hlayout : Layout.ofFirstRow (some Measurement.header) = .ok (.headed .usual) := by decide
  have hfound : (table.measurements.map Measurement.toRow).filterMap (Measurement.ofRow? .usual) =
      table.measurements := by
    rw [List.filterMap_map]
    exact (List.filterMap_congr fun m hm => Measurement.ofRow?_toRow (h m hm)).trans
      List.filterMap_some
  unfold ofRows toRows
  rw [List.head?_cons, hlayout]
  simp only [Layout.dataRows, Layout.columns, List.drop_one, List.tail_cons, hfound,
    List.length_map, Nat.sub_self]

open Delimited

section Written

variable {rows : List (List String)} {table : MeasurementTable} {write : WriteOptions}
  {read : ReadOptions}

theorem isText_bytes (table : MeasurementTable) (hascii : write.delimiter < 0x80) :
    IsText (table.bytes write) :=
  IsText.flatMap fun record _ => .recordBytes hascii record

theorem bytes_of_headers (hheaders : write.headers = true) :
    table.bytes write = table.toRows.flatMap (recordBytes write) := by
  unfold bytes tableBytes toRows
  rw [hheaders, if_pos rfl, List.singleton_append]

/-- A written header does not start like a byte order mark. -/
theorem head?_toRows : (table.toRows.flatMap (recordBytes write)).head? ≠ some 0xEF :=
  head?_flatMap_recordBytes write (show encodeUtf8 "id" = 0x69 :: [0x64] by decide) (by decide)
    ["name", "iterations", "cycles"] _

theorem map_cellRead_toRows {trimmed : Bool} (h : ∀ m ∈ table.measurements, m.IsNormal)
    (hnames : trimmed = true → ∀ m ∈ table.measurements, trim m.name = m.name) :
    table.toRows.map (fun row => row.map (cellRead trimmed)) = table.toRows := by
  rw [toRows, List.map_cons, List.map_map, Measurement.map_cellRead_header]
  apply congrArg (Measurement.header :: ·)
  apply List.map_congr_left
  intro m hm
  exact Measurement.map_cellRead_toRow (h m hm) fun htrim => hnames htrim m hm

theorem measureSource_of_load {source : Source} (h : load read source = .ok rows) :
    measureSource read source = (ofRows rows).mapError fun cause => .analysis (.layout cause) := by
  unfold measureSource
  rw [h]
  rfl

/-- A table of measurements that is written with its header, and with quotes
where they are necessary or everywhere, is a text from which the same
measurements are read, if the reader takes enough rows and, where it trims, no
name is changed by trimming. -/
theorem measureSource_bytes (hrows : ofRows rows = .ok table) (hheaders : write.headers = true)
    (hstyle : write.quoting.IsFaithful) (hascii : write.delimiter < 0x80)
    (hseparates : Separates write.delimiter) (hdelimiter : read.delimiter = write.delimiter)
    (hmax : table.measurements.length + 1 ≤ read.maxRows)
    (hnames : read.trim = true → ∀ m ∈ table.measurements, trim m.name = m.name) :
    ∃ text, encodeUtf8 text = table.bytes write ∧
      measureSource read (.ofText text) =
        .ok { layout := .headed .usual, measurements := table.measurements, dropped := 0 } := by
  have hnormal := isNormal_of_ofRows hrows
  have hne : table.toRows ≠ [] := List.cons_ne_nil _ _
  have hlength : table.toRows.length ≤ read.maxRows := by
    rwa [toRows, List.length_cons, List.length_map]
  obtain ⟨text, htext⟩ := isText_bytes table hascii
  have hbytes : encodeUtf8 (String.ofList text) = table.bytes write := by
    rw [encodeUtf8, String.toList_ofList, htext]
  have hload : load read (.ofText (String.ofList text)) = .ok table.toRows := by
    rw [Source.ofText, hbytes, bytes_of_headers hheaders,
      load_records hdelimiter hseparates hstyle hne (by decide) (fun _ => length_of_mem_toRows)
        hlength head?_toRows,
      map_cellRead_toRows hnormal hnames]
  refine ⟨String.ofList text, hbytes, ?_⟩
  rw [measureSource_of_load hload, ofRows_toRows hnormal]
  rfl

end Written

/-- Names with the delimiter, quotes, an end of line and a label, a negative
zero, a number in another notation and undefined cycles; the delimiter occurs
in the header and in the numbers. -/
theorem measureSource_bytes_awkward :
    let rows := [["7", "a1b,\"c\"\r\nid", " 1 ", "-0e5"], ["1e1", "é id", "", "15e-1"],
      ["-11", "", "1", "n/a"]]
    let table : MeasurementTable :=
      { layout := .headless
        measurements := [⟨7, "a1b,\"c\"\r\nid", "1", some (.zeroOf true)⟩,
          ⟨10, "é id", "", some (.ofBits 0x3FF8000000000000)⟩, ⟨-11, "", "1", none⟩]
        dropped := 0 }
    let write : WriteOptions := { delimiter := 0x31, headers := true, quoting := .necessary }
    let read : ReadOptions := { delimiter := 0x31, trim := true, maxRows := 4, flexible := false }
    ofRows rows = .ok table ∧
      ∃ text, encodeUtf8 text = table.bytes write ∧
        measureSource read (.ofText text) =
          .ok { layout := .headed .usual, measurements := table.measurements, dropped := 0 } := by
  intro rows table write read
  have hrows : ofRows rows = .ok table := by decide +kernel
  refine ⟨hrows, measureSource_bytes hrows rfl (.inl rfl) (by decide) ?_ rfl (by decide) ?_⟩
  · constructor <;> decide
  · intro _
    decide

end MeasurementTable

end CycleComparison

import CycleComparison.Proofs.Measurement.ReadBack
import CycleComparison.Statistics.Json

/-!
# Reading a written comparison table

The rows of a comparison table are written in ascending order under the digits of
their numbers of exceptions. Every number is read from its digits again, and a row
whose number is greater than those before it is put behind them, so the rows are
read in the order in which they are written. With the table of the measurements
themselves this covers all that is written of a comparison but its report.
-/

namespace CycleComparison

open Binary64 (reread)

namespace Cells

variable {cells : Cells Binary64}

def numbers (cells : Cells Binary64) : List Binary64 := cells.new.toList ++ cells.old.toList

def mapNumbers (f : Binary64 → Binary64) (cells : Cells Binary64) : Cells Binary64 :=
  cells.filterMap fun x => some (f x)

theorem mapNumbers_eq_self_iff {f : Binary64 → Binary64} :
    cells.mapNumbers f = cells ↔ ∀ x ∈ cells.numbers, f x = x := by
  rcases cells with ⟨_ | new, _ | old⟩ <;> simp [mapNumbers, filterMap, numbers]

theorem addMember?_symbolsOf_label (cells : Cells Binary64) (v : Version) {x : Binary64}
    (h : x.isFinite) :
    cells.addMember? (Json.symbolsOf v.label, x.toJson) = some (cells.set v (some x.reread)) := by
  simp [addMember?, Binary64.binary64?_toJson h]

/-- A row is read from its object, also if it has no cells. -/
theorem ofJson?_toJson (h : ∀ x ∈ cells.numbers, x.isFinite) :
    ofJson? cells.toJson = some (cells.mapNumbers reread) := by
  rcases cells with ⟨_ | new, _ | old⟩ <;>
    simp [numbers] at h <;>
    simp [toJson, ofJson?, Json.ofMembers, Version.all, get, addMember?_symbolsOf_label, h] <;>
    rfl

theorem isWritable_toJson (cells : Cells Binary64) : cells.toJson.isWritable := by
  apply Json.isWritable_ofMembers
  intro member hmember
  obtain ⟨v, -, hv⟩ := List.mem_filterMap.1 hmember
  obtain ⟨x, -, rfl⟩ := Option.map_eq_some_iff.1 hv
  exact x.isWritable_toJson

end Cells

namespace Json

theorem symbolOf_of_isDigit {c : Char} (h : c.isDigit) : symbolOf c = .plain c := by
  have hlow : 48 ≤ c.toNat := (Char.isDigit_iff_toNat.1 h).1
  have hcontrol : ¬ c < ' ' := fun hlt => absurd (show c.toNat < 32 from hlt) (by omega)
  have hquote : c ≠ '"' := by
    rintro rfl
    exact absurd h (by decide)
  have hbackslash : c ≠ '\\' := by
    rintro rfl
    exact absurd h (by decide)
  simp [symbolOf, hcontrol, hquote, hbackslash]

/-- Digits are written as they are. -/
theorem symbolsOf_naturalText (n : Nat) :
    symbolsOf (Decimal.naturalText n) = (Decimal.digitsOf n).map .plain := by
  rw [symbolsOf, Decimal.naturalText, String.toList_ofList]
  exact List.map_congr_left fun c hc => symbolOf_of_isDigit (Decimal.isDigit_of_mem_digitsOf hc)

end Json

/-- A row is put behind the rows with smaller numbers. -/
theorem alterRow_of_forall_lt {α : Type} {key : UInt64} {rows : List (UInt64 × Cells α)}
    (f : Cells α → Cells α) (h : ∀ row ∈ rows, row.1 < key) :
    alterRow key f rows = rows ++ [(key, f .empty)] := by
  induction rows with
  | nil => rfl
  | cons row rows ih =>
      obtain ⟨hrow, hrows⟩ := List.forall_mem_cons.1 h
      rw [alterRow, if_neg (UInt64.lt_asymm hrow), if_neg (UInt64.ne_of_lt hrow).symm, ih hrows,
        List.cons_append]

namespace ComparisonTable

theorem rowNumber?_map_plain (digits : List Char) :
    rowNumber? (digits.map .plain) = (Decimal.natural? digits).bind fun n =>
      if digits.length = 1 ∨ digits.head? ≠ some '0' then uint64OfNat? n else none := by
  have hdigits : digits.mapM some = some (digits.map id) :=
    Json.mapM_eq_some_map fun c _ => rfl
  rw [rowNumber?, List.mapM_map]
  change (digits.mapM some).bind _ = _
  rw [hdigits, List.map_id]
  rfl

/-- The number of a row is read from the text that names the row. -/
theorem rowNumber?_symbolsOf (e : UInt64) :
    rowNumber? (Json.symbolsOf (Decimal.naturalText e.toNat)) = some e := by
  have hzero : (Decimal.digitsOf e.toNat).length = 1 ∨
      (Decimal.digitsOf e.toNat).head? ≠ some '0' := by
    by_contra h
    obtain ⟨hlength, hhead⟩ := not_or.1 h
    rw [Decimal.digitsOf_of_head? (not_not.1 hhead)] at hlength
    exact hlength rfl
  rw [Json.symbolsOf_naturalText, rowNumber?_map_plain, Decimal.natural?_digitsOf,
    Option.bind_some, if_pos hzero, uint64OfNat?_toNat]

def numbers (t : ComparisonTable Binary64) : List Binary64 :=
  t.rows.flatMap fun row => row.2.numbers

def mapNumbers (f : Binary64 → Binary64) (t : ComparisonTable Binary64) :
    ComparisonTable Binary64 :=
  t.filterMap fun x => some (f x)

theorem mapNumbers_eq_self_iff {f : Binary64 → Binary64} {t : ComparisonTable Binary64} :
    t.mapNumbers f = t ↔ ∀ x ∈ t.numbers, f x = x := by
  rw [numbers, List.forall_mem_flatMap, ComparisonTable.ext_iff]
  change t.rows.map (fun row => (row.1, row.2.mapNumbers f)) = t.rows ↔ _
  rw [listMap_eq_self_iff]
  simp only [← Cells.mapNumbers_eq_self_iff, Prod.ext_iff, true_and]

/-- The member that a row is written as. -/
def member (row : UInt64 × Cells Binary64) : List Json.Symbol × Json :=
  (Json.symbolsOf (Decimal.naturalText row.1.toNat), row.2.toJson)

theorem addMember?_member (t : ComparisonTable Binary64) {row : UInt64 × Cells Binary64}
    (h : ∀ x ∈ row.2.numbers, x.isFinite) :
    t.addMember? (member row) = some (t.setRow row.1 (row.2.mapNumbers reread)) := by
  simp [addMember?, member, rowNumber?_symbolsOf, Cells.ofJson?_toJson h]

/-- Written rows are read in their order and put behind the rows of a table whose
numbers are smaller. -/
theorem foldlM_addMember?_members {rows : List (UInt64 × Cells Binary64)}
    (h : ∀ row ∈ rows, ∀ x ∈ row.2.numbers, x.isFinite) {t : ComparisonTable Binary64}
    (horder : ((t.rows ++ rows).map (·.1)).Pairwise (· < ·)) :
    ∃ t', (rows.map member).foldlM addMember? t = some t' ∧
      t'.rows = t.rows ++ rows.map fun row => (row.1, row.2.mapNumbers reread) := by
  induction rows generalizing t with
  | nil => exact ⟨t, rfl, (List.append_nil _).symm⟩
  | cons row rows ih =>
      obtain ⟨hrow, hrows⟩ := List.forall_mem_cons.1 h
      have hlt : ∀ other ∈ t.rows, other.1 < row.1 := by
        intro other hother
        rw [List.map_append] at horder
        exact (List.pairwise_append.1 horder).2.2 _ (List.mem_map_of_mem hother) _
          List.mem_cons_self
      -- the numbers still to come stay greater, because only the cells have changed
      have hnext : (t.setRow row.1 (row.2.mapNumbers reread)).rows =
          t.rows ++ [(row.1, row.2.mapNumbers reread)] := alterRow_of_forall_lt _ hlt
      obtain ⟨t', ht', hread⟩ := ih (t := t.setRow row.1 (row.2.mapNumbers reread)) hrows
        (by simpa [hnext] using horder)
      refine ⟨t', ?_, ?_⟩
      · rw [List.map_cons, List.foldlM_cons, addMember?_member t hrow]
        exact ht'
      · rw [hread, hnext, List.append_assoc]
        rfl

variable {t : ComparisonTable Binary64}

theorem ofJson?_toJson (h : ∀ x ∈ t.numbers, x.isFinite) :
    ofJson? t.toJson = some (t.mapNumbers reread) := by
  rw [numbers, List.forall_mem_flatMap] at h
  obtain ⟨t', hfold, hrows⟩ := foldlM_addMember?_members h (t := .empty)
    (by simpa [empty, List.pairwise_map] using t.ascending)
  have hfields : t.toJson.fields? ["rows"] = some [some (.object (t.rows.map member))] := by
    exact (Json.fields?_ofMembers (by simp)).trans
      (by simp [Json.ofMembers, member, Function.comp_def])
  rw [ofJson?, hfields]
  change (t.rows.map member).foldlM addMember? .empty = _
  rw [hfold, Option.some.injEq]
  exact ComparisonTable.ext hrows

theorem isWritable_toJson (t : ComparisonTable Binary64) : t.toJson.isWritable := by
  apply Json.isWritable_ofMembers
  refine List.forall_mem_singleton.2 (Json.isWritable_ofMembers fun member hmember => ?_)
  obtain ⟨row, -, rfl⟩ := List.mem_map.1 hmember
  exact row.2.isWritable_toJson

/-- A comparison table is read from its text as the table with its numbers read
again, so it is read back exactly if all of them are. -/
theorem readTable_eq_iff (h : ∀ x ∈ t.numbers, x.isFinite) :
    (Json.read? t.toJson.toCompactText).bind ofJson? = some (t.mapNumbers reread) ∧
      ((Json.read? t.toJson.toCompactText).bind ofJson? = some t ↔
        ∀ x ∈ t.numbers, x.IsReadBack) := by
  have hread : (Json.read? t.toJson.toCompactText).bind ofJson? = some (t.mapNumbers reread) := by
    rw [Json.read?_toCompactText t.isWritable_toJson, Option.bind_some, ofJson?_toJson h]
  refine ⟨hread, ?_⟩
  rw [hread, Option.some.injEq, mapNumbers_eq_self_iff]
  exact forall₂_congr fun x hx => Binary64.reread_eq_self_iff (h x hx)

end ComparisonTable

section Tables

open ClassifiedMeasurement (tableNumbers tableToJson tableOfJson?)

/-- Tables with finite numbers are always read from their texts, as the tables with
their numbers read again, so they are read back exactly if every number is. No two
fields of a measurement share a name, no number is taken for absent cycles, and
every number of exceptions is read from its name. -/
theorem readTables_eq_iff (ms : List ClassifiedMeasurement) (t : ComparisonTable Binary64)
    (hms : ∀ x ∈ tableNumbers ms, x.isFinite) (ht : ∀ x ∈ t.numbers, x.isFinite) :
    ((Json.read? (tableToJson ms).toCompactText).bind tableOfJson? =
          some (ms.map (ClassifiedMeasurement.mapNumbers reread)) ∧
        ((Json.read? (tableToJson ms).toCompactText).bind tableOfJson? = some ms ↔
          ∀ x ∈ tableNumbers ms, x.IsReadBack)) ∧
      ((Json.read? t.toJson.toCompactText).bind ComparisonTable.ofJson? =
          some (t.mapNumbers reread) ∧
        ((Json.read? t.toJson.toCompactText).bind ComparisonTable.ofJson? = some t ↔
          ∀ x ∈ t.numbers, x.IsReadBack)) ∧
      (∀ m ∈ ms, m.toJson = .ofMembers m.members ∧ (m.members.map (·.1)).Nodup ∧
        (m.toJson.fields? ["cycles"] = some [some .null] ↔ m.measurement.cycles = none)) ∧
      ∀ e : UInt64, ComparisonTable.rowNumber?
        (Json.symbolsOf (Decimal.naturalText e.toNat)) = some e := by
  refine ⟨ClassifiedMeasurement.readTable_eq_iff hms, ComparisonTable.readTable_eq_iff ht, ?_,
    ComparisonTable.rowNumber?_symbolsOf⟩
  rw [tableNumbers, List.forall_mem_flatMap] at hms
  exact fun m hm =>
    ⟨rfl, m.nodup_names, ClassifiedMeasurement.cycles_toJson_eq_null_iff (hms m hm)⟩

/-- Quotes, controls and letters beyond the basic plane, the least and the greatest
id and number of exceptions, absent cycles, a negative zero, the least and the
greatest number, and a row without cells. -/
theorem readTables_eq_awkward :
    let ms : List ClassifiedMeasurement :=
      [⟨⟨Int64.minValue, "a\"\\b/\n\x01é😀", "", none⟩, ⟨18446744073709551615, .new, .dbl⟩⟩,
        ⟨⟨Int64.maxValue, "", "\x00\x7f", some (.zeroOf true)⟩, ⟨0, .old, .float⟩⟩,
        ⟨⟨-1, "null", "10", some (.ofBits 0x7FEFFFFFFFFFFFFF)⟩, ⟨7, .old, .dbl⟩⟩]
    let t : ComparisonTable Binary64 :=
      ⟨[(0, ⟨some (.ofBits 1), none⟩), (9, .empty),
        (18446744073709551615, ⟨some (.zeroOf true), some (.ofBits 0x3FB999999999999A)⟩)],
        by decide⟩
    (Json.read? (tableToJson ms).toCompactText).bind tableOfJson? = some ms ∧
      (Json.read? t.toJson.toCompactText).bind ComparisonTable.ofJson? = some t := by
  intro ms t
  have hms : ∀ x ∈ tableNumbers ms, x.isFinite := by decide +kernel
  have ht : ∀ x ∈ t.numbers, x.isFinite := by decide +kernel
  obtain ⟨⟨-, hreadMs⟩, ⟨-, hreadT⟩, -⟩ := readTables_eq_iff ms t hms ht
  rw [hreadMs, hreadT]
  simp only [Binary64.isReadBack_iff]
  decide +kernel

end Tables

end CycleComparison

import CycleComparison.Proofs.Delimited.Reading
import CycleComparison.Proofs.Delimited.Scan
import Mathlib.Data.List.Basic

/-!
# Written tables are read back

A table of records with at least two fields each, written with quotes where they
are necessary or everywhere, is split into the same records and loaded as the
same rows, with each cell trimmed if the reader trims. The bytes are a text
whenever the delimiter is an ASCII character.
-/

namespace CycleComparison

namespace Delimited

/-- A style that quotes every field that needs it. -/
def QuoteStyle.IsFaithful (style : QuoteStyle) : Prop := style = .necessary ∨ style = .always

theorem QuoteStyle.IsFaithful.plain {style : QuoteStyle} (h : style.IsFaithful) {d : UInt8}
    {field : String} (hplain : style.quotes d field = false) :
    ∀ b ∈ encodeUtf8 field, isSpecial d b = false := by
  rcases h with rfl | rfl
  · intro b hb
    unfold QuoteStyle.quotes at hplain
    exact Bool.eq_false_iff.2 fun hspecial =>
      Bool.eq_false_iff.1 hplain (List.any_eq_true.2 ⟨b, hb, hspecial⟩)
  · cases hplain

section Records

variable {options : WriteOptions}

theorem recordBytes_singleton (field : String) :
    recordBytes options [field] = fieldBytes options field ++ [0xA] := by
  simp [recordBytes]

theorem recordBytes_cons_cons (field next : String) (rest : List String) :
    recordBytes options (field :: next :: rest) =
      fieldBytes options field ++ options.delimiter :: recordBytes options (next :: rest) := by
  simp [recordBytes]

namespace Scan

variable {s : Scan} {m : Mode} {fs : List (List UInt8)} {rs : List (List (List UInt8))}

/-- A written field is scanned to its bytes. Only an empty field without quotes
leaves the scan where it was. -/
theorem Holds.run_field (hstyle : options.quoting.IsFaithful) (field : String)
    (h : s.Holds m [] fs rs) (hm : m = .between ∨ m = .fieldStart) :
    ∃ m', m' ≠ .quoted ∧ (m' = .between → m = .between) ∧
      ((fieldBytes options field).foldl (step options.delimiter) s).Holds m'
        (encodeUtf8 field).reverse fs rs := by
  unfold fieldBytes
  by_cases hquotes : options.quoting.quotes options.delimiter field
  · rw [if_pos hquotes, List.foldl_cons, List.foldl_append]
    have hopen := h.step_openingQuote (d := options.delimiter) hm
    have hinside := hopen.run_quoted (d := options.delimiter) (encodeUtf8 field)
    have hclose := hinside.step_quoteInside (d := options.delimiter)
    rw [List.append_nil] at hclose
    exact ⟨.quoteSeen, nofun, nofun, hclose⟩
  · rw [if_neg hquotes]
    have hplain := hstyle.plain (Bool.eq_false_iff.2 hquotes)
    cases hbytes : encodeUtf8 field with
    | nil =>
        refine ⟨m, ?_, id, h⟩
        rcases hm with rfl | rfl <;> nofun
    | cons b rest =>
        rw [hbytes] at hplain
        have hm' : m = .between ∨ m = .fieldStart ∨ m = .plain := by
          rcases hm with hm | hm
          · exact .inl hm
          · exact .inr (.inl hm)
        have hfirst := h.step_plain hm' (hplain b List.mem_cons_self)
        have hrest := hfirst.run_plain fun x hx => hplain x (List.mem_cons_of_mem _ hx)
        rw [List.foldl_cons, List.reverse_cons]
        exact ⟨.plain, nofun, nofun, hrest⟩

/-- A written record is scanned to its fields. Between records a record must have
two fields, as a lone empty one would pass for an empty line. -/
theorem Holds.run_record (hd : Separates options.delimiter) (hstyle : options.quoting.IsFaithful)
    {fields : List String} (hne : fields ≠ []) (h : s.Holds m [] fs rs)
    (hm : m = .between ∨ m = .fieldStart) (hlength : m = .between → 2 ≤ fields.length) :
    ((recordBytes options fields).foldl (step options.delimiter) s).Holds .between [] []
      ((fs.reverse ++ fields.map encodeUtf8) :: rs) := by
  induction fields generalizing s m fs with
  | nil => exact absurd rfl hne
  | cons field rest ih =>
      obtain ⟨m', hquoted, hbetween, hfield⟩ := h.run_field hstyle field hm
      cases rest with
      | nil =>
          have hm' : m' ≠ .between := by
            intro heq
            have htwo := hlength (hbetween heq)
            simp at htwo
          have hend := hfield.step_lineFeed hquoted hm' hd
          rw [List.reverse_reverse, List.reverse_cons] at hend
          rw [recordBytes_singleton, List.foldl_append]
          exact hend
      | cons next rest =>
          have hnext := hfield.step_delimiter hquoted hd
          rw [List.reverse_reverse] at hnext
          have hrecord := ih (List.cons_ne_nil _ _) hnext (.inr rfl) nofun
          rw [List.reverse_cons, List.append_assoc] at hrecord
          rw [recordBytes_cons_cons, List.foldl_append, List.foldl_cons]
          exact hrecord

/-- Written records are scanned to their fields, record by record. -/
theorem Holds.run_records (hd : Separates options.delimiter)
    (hstyle : options.quoting.IsFaithful) {records : List (List String)}
    (hwidth : ∀ r ∈ records, 2 ≤ r.length) (h : s.Holds .between [] [] rs) :
    ((records.flatMap (recordBytes options)).foldl (step options.delimiter) s).Holds .between
      [] [] ((records.map fun r => r.map encodeUtf8).reverse ++ rs) := by
  induction records generalizing s rs with
  | nil => exact h
  | cons r rest ih =>
      have htwo := hwidth r List.mem_cons_self
      have hne : r ≠ [] := by
        rintro rfl
        simp at htwo
      have hrecord := h.run_record hd hstyle hne (.inl rfl) fun _ => htwo
      have hrest := ih (fun r hr => hwidth r (List.mem_cons_of_mem _ hr)) hrecord
      rw [List.flatMap_cons, List.foldl_append, List.map_cons, List.reverse_cons,
        List.append_assoc]
      exact hrest

end Scan

theorem split_records (hd : Separates options.delimiter) (hstyle : options.quoting.IsFaithful)
    {records : List (List String)} (hwidth : ∀ r ∈ records, 2 ≤ r.length) :
    (split false options.delimiter (records.flatMap (recordBytes options))).records.map
      RawRecord.fields = records.map fun r => r.map encodeUtf8 := by
  have hscan := (Scan.Holds.begin Position.first).run_records hd hstyle hwidth
  unfold split Split.records
  simp only [Bool.false_eq_true, if_false, Position.first, List.drop_zero] at hscan ⊢
  rw [hscan.mode, if_pos rfl, Option.toList_none, List.append_nil, List.map_reverse,
    hscan.records, List.append_nil, List.reverse_reverse]

/-- The text of a cell as a reader returns it. -/
def cellRead (trimmed : Bool) (cell : String) : String := if trimmed then trim cell else cell

theorem map_cellRead_of_trim {cells : List String} (h : ∀ cell ∈ cells, trim cell = cell)
    (trimmed : Bool) : cells.map (cellRead trimmed) = cells := by
  unfold cellRead
  cases trimmed with
  | false =>
      simp only [Bool.false_eq_true, if_false]
      exact List.map_id _
  | true =>
      simp only [if_true]
      exact (List.map_congr_left h).trans (List.map_id _)

theorem reads_of_fields {read : ReadOptions} {expected : Nat} {raw : RawRecord}
    {cells : List String} (hraw : raw.fields = cells.map encodeUtf8)
    (hwidth : cells.length = expected) :
    Reads read expected raw (cells.map (cellRead read.trim)) := by
  constructor
  · exact .inr (by rw [hraw, List.length_map, hwidth])
  · rw [hraw, List.forall₂_map_left_iff, List.forall₂_map_right_iff]
    exact List.forall₂_same.2 fun cell _ => decodeField_encodeUtf8 read.trim cell

section Fields

variable {read : ReadOptions} {raws : List RawRecord} {records : List (List String)}

theorem forall₂_reads_of_fields {expected : Nat}
    (hraws : raws.map RawRecord.fields = records.map fun r => r.map encodeUtf8)
    (hwidth : ∀ r ∈ records, r.length = expected) :
    List.Forall₂ (Reads read expected) raws
      (records.map fun r => r.map (cellRead read.trim)) := by
  induction raws generalizing records with
  | nil =>
      cases records with
      | nil => exact .nil
      | cons r rest => cases hraws
  | cons raw raws ih =>
      cases records with
      | nil => cases hraws
      | cons r rest =>
          obtain ⟨hraw, hraws⟩ := List.cons.inj hraws
          rw [List.forall_mem_cons] at hwidth
          exact .cons (reads_of_fields hraw hwidth.1) (ih hraws hwidth.2)

/-- Records of one width are of the width of the first one. -/
theorem length_eq_firstWidth {width : Nat}
    (hraws : raws.map RawRecord.fields = records.map fun r => r.map encodeUtf8)
    (hwidth : ∀ r ∈ records, r.length = width) : ∀ r ∈ records, r.length = firstWidth raws := by
  have hfirst : firstWidth raws = ((records.head?).map List.length).getD 0 := by
    have hheads := congrArg List.head? hraws
    rw [List.head?_map, List.head?_map] at hheads
    have hlengths := congrArg (Option.map List.length) hheads
    rw [Option.map_map, Option.map_map] at hlengths
    simp only [Function.comp_def, List.length_map] at hlengths
    rw [firstWidth, hlengths]
  intro r hr
  obtain ⟨first, rest, rfl⟩ := List.exists_cons_of_ne_nil (List.ne_nil_of_mem hr)
  rw [hfirst, hwidth r hr, List.head?_cons, Option.map_some, Option.getD_some,
    hwidth first List.mem_cons_self]

end Fields

/-- Bytes that do not start with the first byte of a byte order mark show none. -/
theorem not_isPrefixOf_byteOrderMark {bytes : List UInt8} (h : bytes.head? ≠ some 0xEF) :
    byteOrderMark.isPrefixOf bytes = false ∧ (bytes == byteOrderMark) = false := by
  cases bytes with
  | nil => exact ⟨rfl, rfl⟩
  | cons b rest =>
      have hb : (0xEF == b) = false ∧ (b == 0xEF) = false := by
        rw [List.head?_cons, ne_eq, Option.some.injEq] at h
        exact ⟨beq_false_of_ne (Ne.symm h), beq_false_of_ne h⟩
      constructor
      · rw [byteOrderMark, List.isPrefixOf, hb.1, Bool.false_and]
      · rw [byteOrderMark, List.cons_beq_cons, hb.2, Bool.false_and]

/-- Rows of one width, two or more, are loaded as they were written, with their
cells trimmed if the reader trims. -/
theorem load_records {read : ReadOptions} {width : Nat} {records : List (List String)}
    (hdelimiter : read.delimiter = options.delimiter) (hd : Separates options.delimiter)
    (hstyle : options.quoting.IsFaithful) (hne : records ≠ []) (htwo : 2 ≤ width)
    (hwidth : ∀ r ∈ records, r.length = width) (hmax : records.length ≤ read.maxRows)
    (hmark : (records.flatMap (recordBytes options)).head? ≠ some 0xEF) :
    load read ⟨records.flatMap (recordBytes options), none, none⟩ =
      .ok (records.map fun r => r.map (cellRead read.trim)) := by
  obtain ⟨hshows, hends⟩ := not_isPrefixOf_byteOrderMark hmark
  have hsplit : (Source.split ⟨records.flatMap (recordBytes options), none, none⟩
      read.delimiter).records.map RawRecord.fields = records.map fun r => r.map encodeUtf8 := by
    unfold Source.split Source.showsMark Source.firstRead
    simp only
    rw [hshows, hdelimiter]
    exact split_records hd hstyle fun r hr => (hwidth r hr).symm ▸ htwo
  exact load_eq_ok_iff_reads.2
    ⟨⟨hends, rfl⟩, ⟨mt List.map_eq_nil_iff.1 hne, by rwa [List.length_map]⟩,
      forall₂_reads_of_fields hsplit (length_eq_firstWidth hsplit hwidth)⟩

end Records

/-- Quotes can be doubled among characters as well as among bytes. -/
theorem IsText.doubleQuotes (text : String) : IsText (doubleQuotes (encodeUtf8 text)) := by
  unfold Delimited.doubleQuotes encodeUtf8 Utf8.encode
  rw [List.flatMap_assoc]
  apply IsText.flatMap
  intro c _
  by_cases hc : c = '"'
  · subst hc
    exact ⟨['"', '"'], rfl⟩
  · have hquote : ∀ b ∈ String.utf8EncodeChar c, b ≠ quote := by
      rintro b hb rfl
      by_cases hlt : c.toNat < 0x80
      · rw [Utf8.encodeChar_of_lt hlt, List.mem_singleton, ← UInt8.toNat_inj,
          UInt8.toNat_ofNat'] at hb
        apply hc
        rw [← Char.toNat_inj]
        have h22 : quote.toNat = 0x22 := rfl
        have hval : ('"' : Char).toNat = 0x22 := rfl
        omega
      · have hle := Utf8.le_of_mem_encodeChar (Nat.le_of_not_lt hlt) hb
        exact absurd hle (by decide)
    have hid : (String.utf8EncodeChar c).flatMap (fun b => if b = quote then [quote, quote]
        else [b]) = (String.utf8EncodeChar c).flatMap fun b => [b] :=
      List.flatMap_congr fun b hb => if_neg (hquote b hb)
    rw [hid]
    exact ⟨[c], by simp [Utf8.encode]⟩

theorem IsText.fieldBytes (options : WriteOptions) (field : String) :
    IsText (fieldBytes options field) := by
  have hquote : IsText [quote] := .ascii (by decide)
  unfold Delimited.fieldBytes
  by_cases hquotes : options.quoting.quotes options.delimiter field
  · rw [if_pos hquotes]
    exact hquote.append ((IsText.doubleQuotes field).append hquote)
  · rw [if_neg hquotes]
    exact ⟨field.toList, rfl⟩

theorem IsText.recordBytes {options : WriteOptions} (hascii : options.delimiter < 0x80)
    (fields : List String) : IsText (recordBytes options fields) := by
  have hend : IsText [0xA] := .ascii (by decide)
  induction fields with
  | nil => exact hend
  | cons field rest ih =>
      cases rest with
      | nil =>
          rw [recordBytes_singleton]
          exact (IsText.fieldBytes options field).append hend
      | cons next rest =>
          rw [recordBytes_cons_cons]
          exact (IsText.fieldBytes options field).append ((IsText.ascii hascii).append ih)

/-- A record starts with a quote or with the first byte of its first field. -/
theorem head?_recordBytes (options : WriteOptions) {field : String} {b : UInt8}
    {bytes : List UInt8} (hfield : encodeUtf8 field = b :: bytes) (rest : List String) :
    (recordBytes options (field :: rest)).head? = some quote ∨
      (recordBytes options (field :: rest)).head? = some b := by
  have hstart : ∃ c tail, fieldBytes options field = c :: tail ∧ (c = quote ∨ c = b) := by
    unfold fieldBytes
    by_cases hquotes : options.quoting.quotes options.delimiter field
    · rw [if_pos hquotes]
      exact ⟨quote, _, rfl, .inl rfl⟩
    · rw [if_neg hquotes]
      exact ⟨b, bytes, hfield, .inr rfl⟩
  obtain ⟨c, tail, hc, hstart⟩ := hstart
  have hhead : (recordBytes options (field :: rest)).head? = some c := by
    cases rest with
    | nil =>
        rw [recordBytes_singleton, hc]
        rfl
    | cons next rest =>
        rw [recordBytes_cons_cons, hc]
        rfl
  rw [hhead]
  rcases hstart with rfl | rfl
  · exact .inl rfl
  · exact .inr rfl

/-- Records whose first field starts with another byte do not start like a byte
order mark. -/
theorem head?_flatMap_recordBytes (options : WriteOptions) {field : String} {b : UInt8}
    {bytes : List UInt8} (hfield : encodeUtf8 field = b :: bytes) (hb : b ≠ 0xEF)
    (rest : List String) (records : List (List String)) :
    (((field :: rest) :: records).flatMap (recordBytes options)).head? ≠ some 0xEF := by
  have hne : recordBytes options (field :: rest) ≠ [] :=
    List.append_ne_nil_of_right_ne_nil _ (List.cons_ne_nil _ _)
  rw [List.flatMap_cons, List.head?_append_of_ne_nil _ hne]
  rcases head?_recordBytes options hfield rest with h | h
  · exact fun hmark => absurd (h.symm.trans hmark) (by decide)
  · exact fun hmark => hb (Option.some.inj (h.symm.trans hmark))

end Delimited

end CycleComparison

import CycleComparison.Proofs.Delimited.Loading
import CycleComparison.Proofs.Delimited.Scan
import Mathlib.Data.List.Induction
import Mathlib.Data.List.Infix

/-!
# Where records start

A record starts where the one before it stopped: after the shortest beginning of
the text that holds all records before it with their terminators. The line of
that place counts the line feeds in this beginning, not the records. The two
numbers differ as soon as a record ends with a carriage return, an empty line is
skipped, or a line feed stands inside quotes; where they do, the line that is
reported for a bad record is not the number of the record.
-/

namespace CycleComparison

namespace Delimited

namespace Position

/-- The place after some bytes of a text. -/
def atEnd (before : List UInt8) : Position := ⟨before.count 0xA + 1, before.length⟩

theorem atEnd_append_singleton (before : List UInt8) (b : UInt8) :
    atEnd (before ++ [b]) = (atEnd before).after b := by
  unfold atEnd after
  rw [List.count_append, List.length_append, List.count_singleton]
  by_cases hb : b = 0xA
  · subst hb
    simp
  · simp [hb]

end Position

open Position

/-- The bytes that are left out at the start of a text. -/
def markBytes (skipsMark : Bool) : List UInt8 := if skipsMark then byteOrderMark else []

/-- The shortest beginning of a text that holds a number of records together with
their terminators. -/
structure Completes (skipsMark : Bool) (delimiter : UInt8) (n : Nat) (before : List UInt8) :
    Prop where
  length_terminated : (split skipsMark delimiter before).terminated.length = n
  shortest : ∀ shorter, shorter <+: before →
    (split skipsMark delimiter shorter).terminated.length = n → shorter = before

/-- A text has only one such beginning. -/
theorem Completes.unique {skipsMark : Bool} {d : UInt8} {n : Nat}
    {before before' bytes : List UInt8} (h : Completes skipsMark d n before)
    (h' : Completes skipsMark d n before') (hbytes : before <+: bytes)
    (hbytes' : before' <+: bytes) : before = before' := by
  rcases List.prefix_or_prefix_of_prefix hbytes hbytes' with hprefix | hprefix
  · exact h'.shortest before hprefix h.length_terminated
  · exact (h.shortest before' hprefix h'.length_terminated).symm

namespace Scan

/-- What a byte does to the records of a scan that has gone on to it: it leaves
them and the start alone, or it ends a record, and the next one starts here. -/
structure Follows (s s' : Scan) : Prop where
  here : s'.here = s.here
  records : (s'.records = s.records ∧ s'.start = s.start) ∨
    (s'.records = s.record :: s.records ∧ s'.start = s.here)

variable (d : UInt8) (s : Scan) (b : UInt8)

theorem follows_outside : s.Follows (s.outside d b) := by
  unfold outside
  split
  · exact ⟨rfl, .inl ⟨rfl, rfl⟩⟩
  · split
    · exact ⟨rfl, .inr ⟨rfl, rfl⟩⟩
    · exact ⟨rfl, .inl ⟨rfl, rfl⟩⟩

theorem follows_opening : s.Follows (s.opening d b) := by
  unfold opening
  split
  · exact ⟨rfl, .inl ⟨rfl, rfl⟩⟩
  · exact follows_outside d s b

theorem follows_step : ({ s with here := s.here.after b } : Scan).Follows (step d s b) := by
  unfold step
  cases hmode : s.mode with
  | between =>
      simp only
      split
      · exact ⟨rfl, .inl ⟨rfl, rfl⟩⟩
      · exact follows_opening d _ b
  | fieldStart => exact follows_opening d _ b
  | plain => exact follows_outside d _ b
  | quoted =>
      simp only
      split
      · exact ⟨rfl, .inl ⟨rfl, rfl⟩⟩
      · exact ⟨rfl, .inl ⟨rfl, rfl⟩⟩
  | quoteSeen =>
      simp only
      split
      · exact ⟨rfl, .inl ⟨rfl, rfl⟩⟩
      · exact follows_outside d _ b

variable {d s b}

theorem length_records_le_foldl (bytes : List UInt8) :
    s.records.length ≤ (bytes.foldl (step d) s).records.length := by
  induction bytes generalizing s with
  | nil => exact Nat.le_refl _
  | cons b rest ih =>
      refine Nat.le_trans ?_ (ih (s := step d s b))
      rcases (follows_step d s b).records with ⟨hrecords, _⟩ | ⟨hrecords, _⟩
      · rw [hrecords]
      · rw [hrecords]
        exact Nat.le_succ _

end Scan

section Split

variable {skipsMark : Bool} {d : UInt8}

/-- The scan of a text, from the end of its mark on. -/
def scanned (skipsMark : Bool) (d : UInt8) (bytes : List UInt8) : Scan :=
  (bytes.drop (markBytes skipsMark).length).foldl (Scan.step d)
    (Scan.begin (atEnd (markBytes skipsMark)))

theorem split_eq (skipsMark : Bool) (d : UInt8) (bytes : List UInt8) :
    split skipsMark d bytes =
      { terminated := (scanned skipsMark d bytes).records.reverse
        last := if (scanned skipsMark d bytes).mode = .between then none
          else some (scanned skipsMark d bytes).record } := by
  cases skipsMark <;> rfl

theorem length_terminated (skipsMark : Bool) (d : UInt8) (bytes : List UInt8) :
    (split skipsMark d bytes).terminated.length = (scanned skipsMark d bytes).records.length := by
  rw [split_eq, List.length_reverse]

/-- A longer beginning holds no fewer records. -/
theorem length_terminated_le (skipsMark : Bool) (d : UInt8) {shorter bytes : List UInt8}
    (h : shorter <+: bytes) :
    (split skipsMark d shorter).terminated.length ≤
      (split skipsMark d bytes).terminated.length := by
  obtain ⟨rest, hrest⟩ := h.drop (markBytes skipsMark).length
  rw [length_terminated, length_terminated, scanned, scanned, ← hrest, List.foldl_append]
  exact Scan.length_records_le_foldl rest

theorem scanned_append_singleton (body : List UInt8) (b : UInt8) :
    scanned skipsMark d (markBytes skipsMark ++ (body ++ [b])) =
      (scanned skipsMark d (markBytes skipsMark ++ body)).step d b := by
  unfold scanned
  rw [List.drop_left, List.drop_left, List.foldl_append]
  rfl

/-- A place is the start of the record with a number, counted from zero, in a
text. -/
def StartsAt (skipsMark : Bool) (d : UInt8) (bytes : List UInt8) (i : Nat) (start : Position) :
    Prop :=
  ∃ before, before <+: bytes ∧ Completes skipsMark d i before ∧ start = atEnd before

theorem StartsAt.append {bytes : List UInt8} {i : Nat} {start : Position}
    (h : StartsAt skipsMark d bytes i start) (more : List UInt8) :
    StartsAt skipsMark d (bytes ++ more) i start := by
  obtain ⟨before, hprefix, hcompletes, hstart⟩ := h
  exact ⟨before, hprefix.trans (List.prefix_append _ _), hcompletes, hstart⟩

/-- What a scan knows of the places in the text that it has read. -/
structure Scan.Places (s : Scan) (skipsMark : Bool) (d : UInt8) (bytes : List UInt8) : Prop where
  here : s.here = atEnd bytes
  start : StartsAt skipsMark d bytes s.records.length s.start
  records : ∀ i r, s.records.reverse[i]? = some r → StartsAt skipsMark d bytes i r.start

theorem places_begin (skipsMark : Bool) (d : UInt8) :
    (scanned skipsMark d (markBytes skipsMark)).Places skipsMark d (markBytes skipsMark) := by
  have hscanned : scanned skipsMark d (markBytes skipsMark) =
      Scan.begin (atEnd (markBytes skipsMark)) := by
    rw [scanned, List.drop_length, List.foldl_nil]
  have hnil : (split skipsMark d []).terminated.length = 0 := by
    rw [length_terminated, scanned, List.drop_nil, List.foldl_nil]
    rfl
  rw [hscanned]
  refine ⟨rfl, ⟨[], List.nil_prefix, ⟨hnil, ?_⟩, rfl⟩, nofun⟩
  intro shorter hshorter _
  exact List.prefix_nil.1 hshorter

theorem Scan.Places.step {body : List UInt8} (b : UInt8)
    (h : (scanned skipsMark d (markBytes skipsMark ++ body)).Places skipsMark d
      (markBytes skipsMark ++ body)) :
    (scanned skipsMark d (markBytes skipsMark ++ (body ++ [b]))).Places skipsMark d
      (markBytes skipsMark ++ (body ++ [b])) := by
  have hterminated := length_terminated skipsMark d (markBytes skipsMark ++ body)
  have hterminated' := length_terminated skipsMark d (markBytes skipsMark ++ (body ++ [b]))
  rw [scanned_append_singleton] at hterminated' ⊢
  rw [← List.append_assoc] at hterminated' ⊢
  generalize markBytes skipsMark ++ body = bytes at *
  generalize scanned skipsMark d bytes = s at *
  obtain ⟨hhere, hrecords⟩ := Scan.follows_step d s b
  have hhere' : (s.step d b).here = atEnd (bytes ++ [b]) := by
    rw [hhere, atEnd_append_singleton, ← h.here]
  rcases hrecords with ⟨hrecords, hstart⟩ | ⟨hrecords, hstart⟩
  · refine ⟨hhere', ?_, fun i r hr => ?_⟩
    · rw [hrecords, hstart]
      exact h.start.append [b]
    · rw [hrecords] at hr
      exact (h.records i r hr).append [b]
  · refine ⟨hhere', ⟨bytes ++ [b], List.prefix_rfl, ⟨hterminated', ?_⟩, ?_⟩, fun i r hr => ?_⟩
    · -- a proper beginning is one of the text before, which holds a record less
      intro shorter hshorter hlength
      rcases List.prefix_concat_iff.1 hshorter with heq | hbefore
      · exact heq
      · have hle := length_terminated_le skipsMark d hbefore
        rw [hlength, hterminated, hrecords, List.length_cons] at hle
        exact absurd hle (Nat.not_succ_le_self _)
    · rw [hstart, ← hhere, hhere']
    · rw [hrecords, List.reverse_cons] at hr
      rcases Nat.lt_or_ge i s.records.reverse.length with hlt | hle
      · rw [List.getElem?_append_left hlt] at hr
        exact (h.records i r hr).append [b]
      · rw [List.getElem?_append_right hle, List.getElem?_singleton] at hr
        split at hr
        · rename_i hi
          rw [List.length_reverse] at hle hi
          obtain rfl : i = s.records.length := by omega
          cases hr
          exact h.start.append [b]
        · cases hr

theorem places_scanned (skipsMark : Bool) (d : UInt8) (body : List UInt8) :
    (scanned skipsMark d (markBytes skipsMark ++ body)).Places skipsMark d
      (markBytes skipsMark ++ body) := by
  induction body using List.reverseRecOn with
  | nil =>
      rw [List.append_nil]
      exact places_begin skipsMark d
  | append_singleton body b ih => exact ih.step b

/-- The start of each record is the place after the records before it. -/
theorem startsAt_of_records {bytes : List UInt8} (hmark : markBytes skipsMark <+: bytes) {i : Nat}
    {r : RawRecord} (h : (split skipsMark d bytes).records[i]? = some r) :
    StartsAt skipsMark d bytes i r.start := by
  obtain ⟨body, rfl⟩ := hmark
  obtain ⟨-, hstart, hrecords⟩ := places_scanned skipsMark d body
  rw [split_eq, Split.records] at h
  rcases Nat.lt_or_ge i (scanned skipsMark d (markBytes skipsMark ++ body)).records.reverse.length
    with hlt | hle
  · rw [List.getElem?_append_left hlt] at h
    exact hrecords i r h
  · rw [List.getElem?_append_right hle] at h
    simp only at h
    split at h
    · cases h
    · rw [Option.toList_some, List.getElem?_singleton] at h
      split at h
      · rename_i hi
        rw [List.length_reverse] at hle hi
        obtain rfl : i = (scanned skipsMark d (markBytes skipsMark ++ body)).records.length := by
          omega
        cases h
        exact hstart
      · cases h

/-- So is the place where the terminated records end. -/
theorem exists_startsAt_length_terminated {bytes : List UInt8}
    (hmark : markBytes skipsMark <+: bytes) :
    ∃ start, StartsAt skipsMark d bytes (split skipsMark d bytes).terminated.length start := by
  obtain ⟨body, rfl⟩ := hmark
  rw [length_terminated]
  exact ⟨_, (places_scanned skipsMark d body).start⟩

end Split

/-- A line that is one record on its own: it has a byte, and none that quotes or
ends a record. -/
structure IsRecordLine (line : List UInt8) : Prop where
  ne_nil : line ≠ []
  plain : ∀ b ∈ line, b ≠ quote ∧ ¬ isTerminator b

/-- Lines with a line feed after each. -/
def linesBytes (lines : List (List UInt8)) : List UInt8 := lines.flatMap (· ++ [0xA])

namespace Scan

variable {d b : UInt8} {s : Scan} {m : Mode} {f : List UInt8} {fs : List (List UInt8)}
  {rs : List (List (List UInt8))}

/-- A byte of a line goes into the record. -/
theorem Holds.step_inLine (h : s.Holds m f fs rs) (hd : Separates d)
    (hm : m = .between ∨ m = .fieldStart ∨ m = .plain) (hb : b ≠ quote ∧ ¬ isTerminator b) :
    ∃ m' f' fs', (m' = .fieldStart ∨ m' = .plain) ∧ (step d s b).Holds m' f' fs' rs := by
  by_cases hdelimiter : b = d
  · subst hdelimiter
    have hquoted : m ≠ .quoted := by rcases hm with rfl | rfl | rfl <;> nofun
    exact ⟨_, _, _, .inl rfl, h.step_delimiter hquoted hd⟩
  · have hspecial : isSpecial d b = false := by
      simp [isSpecial, hdelimiter, hb.1, hb.2]
    exact ⟨_, _, _, .inr rfl, h.step_plain hm hspecial⟩

theorem Holds.run_inLine {line : List UInt8} (h : s.Holds m f fs rs) (hd : Separates d)
    (hm : m = .fieldStart ∨ m = .plain) (hline : ∀ b ∈ line, b ≠ quote ∧ ¬ isTerminator b) :
    ∃ m' f' fs', (m' = .fieldStart ∨ m' = .plain) ∧
      (line.foldl (step d) s).Holds m' f' fs' rs := by
  induction line generalizing s m f fs with
  | nil => exact ⟨m, f, fs, hm, h⟩
  | cons b rest ih =>
      obtain ⟨m', f', fs', hm', hstep⟩ := h.step_inLine hd (.inr hm) (hline b List.mem_cons_self)
      exact ih hstep hm' fun x hx => hline x (List.mem_cons_of_mem _ hx)

/-- A line ends one record more. -/
theorem Holds.run_lines {lines : List (List UInt8)} (h : s.Holds .between [] [] rs)
    (hd : Separates d) (hlines : ∀ l ∈ lines, IsRecordLine l) :
    ∃ rs', rs'.length = lines.length + rs.length ∧
      ((linesBytes lines).foldl (step d) s).Holds .between [] [] rs' := by
  induction lines generalizing s rs with
  | nil => exact ⟨rs, (Nat.zero_add _).symm, h⟩
  | cons line rest ih =>
      obtain ⟨hne, hplain⟩ := hlines line List.mem_cons_self
      obtain ⟨b, bytes, rfl⟩ := List.exists_cons_of_ne_nil hne
      obtain ⟨_, _, _, hm, hfirst⟩ := h.step_inLine hd (.inl rfl) (hplain b List.mem_cons_self)
      obtain ⟨m, _, _, hm, hline⟩ := hfirst.run_inLine hd hm fun x hx =>
        hplain x (List.mem_cons_of_mem _ hx)
      have hend := hline.step_lineFeed (by rcases hm with rfl | rfl <;> nofun)
        (by rcases hm with rfl | rfl <;> nofun) hd
      obtain ⟨rs', hlength, hrest⟩ := ih hend fun l hl => hlines l (List.mem_cons_of_mem _ hl)
      refine ⟨rs', by rw [hlength, List.length_cons, List.length_cons]; omega, ?_⟩
      rw [linesBytes, List.flatMap_cons, List.foldl_append, List.foldl_append]
      exact hrest

end Scan

/-- Lines that are one record each are as many records as line feeds. -/
theorem length_terminated_lines {skipsMark : Bool} {d : UInt8} {lines : List (List UInt8)}
    (hd : Separates d) (h : ∀ l ∈ lines, IsRecordLine l) :
    (split skipsMark d (markBytes skipsMark ++ linesBytes lines)).terminated.length =
      (markBytes skipsMark ++ linesBytes lines).count 0xA := by
  obtain ⟨rs, hlength, hscan⟩ :=
    (Scan.Holds.begin (atEnd (markBytes skipsMark))).run_lines hd h
  have hmark : (markBytes skipsMark).count 0xA = 0 := by cases skipsMark <;> decide
  have hcount : (linesBytes lines).count 0xA = lines.length := by
    have hone : ∀ l ∈ lines, (List.count 0xA ∘ (· ++ [0xA])) l = 1 := by
      intro l hl
      have hnone : (0xA : UInt8) ∉ l := fun hmem => ((h l hl).plain _ hmem).2 (by decide)
      rw [Function.comp_apply, List.count_append, List.count_eq_zero_of_not_mem hnone]
      rfl
    rw [linesBytes, List.count_flatMap, List.map_congr_left hone, List.map_const',
      List.sum_replicate_nat, Nat.mul_one]
  rw [length_terminated, scanned, List.drop_left, List.count_append, hmark, hcount,
    ← List.length_map RawRecord.fields, hscan.records, hlength, List.length_nil, Nat.zero_add]
  rfl

section Lines

variable {options : ReadOptions} {source : Source}

theorem Source.markBytes_prefix (source : Source) :
    markBytes source.showsMark <+: source.bytes := by
  unfold markBytes
  split
  · rename_i hmark
    have hfirst : byteOrderMark <+: source.firstRead := List.isPrefixOf_iff_prefix.1 hmark
    unfold firstRead at hfirst
    split at hfirst
    · exact hfirst
    · exact hfirst.trans (List.take_prefix _ _)
  · exact List.nil_prefix

/-- An error of a record knows the line on which the record starts. -/
theorem line?_of_readRecord {expected index : Nat} {raw : RawRecord} {cause : RecordError}
    (h : readRecord options expected index raw = .error cause) :
    cause.line? = some raw.start.line := by
  unfold readRecord at h
  split at h
  · split at h
    · cases h
      rfl
    · cases h
  · cases h
    rfl

/-- A bad record of a source knows the line on which it starts, unless the source
has failed. -/
theorem exists_startsAt_of_outcome {i : Nat} {cause : RecordError}
    (h : (outcomes options source)[i]? = some (.error cause)) :
    ∃ start, StartsAt source.showsMark options.delimiter source.bytes i start ∧
      ((∃ message, cause = .sourceFailed message) ∨ cause.line? = some start.line) := by
  have hread {raws : List RawRecord} {expected : Nat}
      (h : (raws.mapIdx (readRecord options expected))[i]? = some (.error cause)) :
      ∃ raw, raws[i]? = some raw ∧ cause.line? = some raw.start.line := by
    rw [List.getElem?_mapIdx] at h
    obtain ⟨raw, hraw, hbad⟩ := Option.map_eq_some_iff.1 h
    exact ⟨raw, hraw, line?_of_readRecord hbad⟩
  have hmark := source.markBytes_prefix
  unfold outcomes at h
  split at h
  · cases h
  · unfold recordOutcomes at h
    simp only at h
    split at h
    · obtain ⟨raw, hraw, hline⟩ := hread h
      exact ⟨raw.start, startsAt_of_records hmark hraw, .inr hline⟩
    · rcases Nat.lt_or_ge i (source.split options.delimiter).terminated.length with hlt | hle
      · rw [List.getElem?_append_left (by simpa using hlt)] at h
        obtain ⟨raw, hraw, hline⟩ := hread h
        have hraw' : (source.split options.delimiter).records[i]? = some raw := by
          rw [Split.records, List.getElem?_append_left hlt, hraw]
        exact ⟨raw.start, startsAt_of_records hmark hraw', .inr hline⟩
      · rw [List.getElem?_append_right (by simpa using hle), List.length_mapIdx,
          List.getElem?_singleton] at h
        split at h
        · rename_i hi
          obtain rfl : i = (source.split options.delimiter).terminated.length := by omega
          cases h
          obtain ⟨start, hstart⟩ := exists_startsAt_length_terminated hmark
          exact ⟨start, hstart, .inl ⟨_, rfl⟩⟩
        · cases h

/-- The line of a bad record is its number, counted from one, if the source has
failed, and otherwise exactly if there are as many line feeds as records before it:
it is one more than their number in the shortest beginning of the text that holds
these records. So it is right after lines that are one record each. -/
theorem line_eq_number_iff {line : Nat} {cause : RecordError}
    (h : load options source = .error (.badRecord line cause)) :
    ∃ i before, FirstBad (outcomes options source) i cause ∧ before <+: source.bytes ∧
      Completes source.showsMark options.delimiter i before ∧
      (line = i + 1 ↔ (∃ message, cause = .sourceFailed message) ∨ before.count 0xA = i) ∧
      ((¬ ∃ message, cause = .sourceFailed message) → line = before.count 0xA + 1) ∧
      (Separates options.delimiter →
        ∀ lines, before = markBytes source.showsMark ++ linesBytes lines →
          (∀ l ∈ lines, IsRecordLine l) → line = i + 1) := by
  obtain ⟨-, i, hbad, rfl⟩ := load_eq_badRecord_iff.1 h
  obtain ⟨start, ⟨before, hprefix, hcompletes, rfl⟩, hline⟩ := exists_startsAt_of_outcome hbad.2
  have hlines (hd : Separates options.delimiter) (lines : List (List UInt8))
      (hbefore : before = markBytes source.showsMark ++ linesBytes lines)
      (hl : ∀ l ∈ lines, IsRecordLine l) : before.count 0xA = i := by
    rw [← hcompletes.length_terminated, hbefore]
    exact (length_terminated_lines hd hl).symm
  refine ⟨i, before, hbad, hprefix, hcompletes, ?_⟩
  by_cases hfailed : ∃ message, cause = .sourceFailed message
  · obtain ⟨message, rfl⟩ := hfailed
    exact ⟨iff_of_true rfl (.inl ⟨message, rfl⟩), fun hnot => absurd ⟨message, rfl⟩ hnot,
      fun _ _ _ _ => rfl⟩
  · rw [hline.resolve_left hfailed, Option.getD_some]
    refine ⟨?_, fun _ => rfl, fun hd lines hbefore hl => ?_⟩
    · rw [or_iff_right hfailed, atEnd, Nat.add_right_cancel_iff]
    · rw [atEnd, hlines hd lines hbefore hl]

end Lines

/-- A line feed inside quotes makes up for a record that ends with a carriage
return, so the third record is reported on line three. -/
theorem line_eq_number_iff_of_compensated :
    let options : ReadOptions := { ReadOptions.default with flexible := false }
    let source := Source.ofText "a,b\n\"c\nd\",e\r\nf\n"
    ∃ cause before, load options source = .error (.badRecord 3 cause) ∧
      FirstBad (outcomes options source) 2 cause ∧ before <+: source.bytes ∧
        Completes false 0x2C 2 before ∧ before.count 0xA = 2 := by
  intro options source
  have hload : load options source = .error (.badRecord 3 (.unequalWidth 2 ⟨3, 12⟩ 1 2)) := by
    rfl
  obtain ⟨i, before, hbad, hprefix, hcompletes, -, hline, -⟩ := line_eq_number_iff hload
  have hbad' : FirstBad (outcomes options source) 2 (.unequalWidth 2 ⟨3, 12⟩ 1 2) :=
    firstBad_append [["a", "b"], ["c\nd", "e"]] []
  obtain ⟨rfl, -⟩ := hbad.unique hbad'
  have hcount := hline (by rintro ⟨_, hfailed⟩; cases hfailed)
  exact ⟨_, before, hload, hbad, hprefix, hcompletes, by omega⟩

/-- Of each of these texts the second record is bad. It is reported on line one
where the record before it ends with a carriage return and a line feed, on line
three where that has a line feed inside quotes, and on line four after two empty
lines. -/
theorem exists_line_ne_number :
    let options : ReadOptions := { ReadOptions.default with flexible := false }
    (∃ cause, load options (.ofText "a,b\r\nc\r\n") = .error (.badRecord 1 cause) ∧
      FirstBad (outcomes options (.ofText "a,b\r\nc\r\n")) 1 cause) ∧
    (∃ cause, load options (.ofText "\"a\nb\",c\nd\n") = .error (.badRecord 3 cause) ∧
      FirstBad (outcomes options (.ofText "\"a\nb\",c\nd\n")) 1 cause) ∧
    ∃ cause, load options ⟨[0xA, 0xA, 0x61, 0xA, 0xFF], none, none⟩ =
        .error (.badRecord 4 cause) ∧
      FirstBad (outcomes options ⟨[0xA, 0xA, 0x61, 0xA, 0xFF], none, none⟩) 1 cause :=
  ⟨⟨.unequalWidth 1 ⟨1, 4⟩ 1 2, rfl, firstBad_append [["a", "b"]] []⟩,
    ⟨.unequalWidth 1 ⟨3, 8⟩ 1 2, rfl, firstBad_append [["a\nb", "c"]] []⟩,
    ⟨.notUtf8 1 ⟨4, 4⟩ 0 0, rfl, firstBad_append [["a"]] []⟩⟩

end Delimited

end CycleComparison

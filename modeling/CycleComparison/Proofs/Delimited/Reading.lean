import CycleComparison.Proofs.Delimited.Loading
import CycleComparison.Proofs.Text.Decoding
import Mathlib.Data.List.Forall2

/-!
# What a load reads

A load that succeeds reads each record on its own: the rows are related to the
records one by one, and their cells to the fields. So what an option changes can be
said of a single record. A demand for one width leaves the rows as they are and
refuses those of another width than the first. Trimming is done cell by cell, after
all boundaries are fixed, and never decides whether a text can be read.
-/

namespace CycleComparison

namespace Delimited

section Lists

variable {α β γ : Type} {R : α → γ → Prop} {S : α → β → Prop}

/-- Lists are related by a relation and a function after it if the first list is
related to one with this image. -/
theorem forall₂_iff_exists_map {f : β → γ} (h : ∀ a c, R a c ↔ ∃ b, S a b ∧ c = f b)
    {l : List α} {l' : List γ} :
    List.Forall₂ R l l' ↔ ∃ k, List.Forall₂ S l k ∧ l' = k.map f := by
  constructor
  · intro hl
    induction hl with
    | nil => exact ⟨[], .nil, rfl⟩
    | cons hhead _ ih =>
        obtain ⟨b, hb, rfl⟩ := (h _ _).1 hhead
        obtain ⟨k, hk, rfl⟩ := ih
        exact ⟨b :: k, .cons hb hk, rfl⟩
  · rintro ⟨k, hk, rfl⟩
    rw [List.forall₂_map_right_iff]
    exact hk.imp fun a b hb => (h a (f b)).2 ⟨b, hb, rfl⟩

theorem map_eq_map_of_forall₂ {δ : Type} {f : α → δ} {g : β → δ} {l : List α} {l' : List β}
    (h : List.Forall₂ S l l') (hfg : ∀ a b, S a b → f a = g b) : l.map f = l'.map g := by
  rw [← List.forall₂_eq_eq_eq, List.forall₂_map_left_iff, List.forall₂_map_right_iff]
  exact h.imp hfg

/-- A list is read element by element if the reading of one does not depend on its
place. -/
theorem mapIdx_eq_map_ok_iff {ε : Type} {f : Nat → α → Except ε β}
    (h : ∀ i a b, f i a = .ok b ↔ S a b) {l : List α} {l' : List β} :
    l.mapIdx f = l'.map .ok ↔ List.Forall₂ S l l' := by
  induction l generalizing f l' with
  | nil => cases l' <;> simp
  | cons a l ih =>
      cases l' with
      | nil => simp
      | cons b l' =>
          rw [List.mapIdx_cons, List.map_cons, List.cons.injEq, h, ih fun i => h (i + 1),
            List.forall₂_cons]

end Lists

/-- All rows are as wide as the first one. -/
def OneWidth (rows : List (List String)) : Prop :=
  ∀ row ∈ rows, ∀ first ∈ rows.head?, row.length = first.length

/-- The width of the first record. -/
def firstWidth (records : List RawRecord) : Nat :=
  ((records.head?).map (·.fields.length)).getD 0

/-- A record is of a width that is allowed, and its fields are read as the cells. -/
structure Reads (options : ReadOptions) (expected : Nat) (raw : RawRecord) (row : List String) :
    Prop where
  width : options.flexible = true ∨ raw.fields.length = expected
  cells : List.Forall₂ (fun field cell => decodeField options.trim field = .ok cell)
    raw.fields row

variable {options : ReadOptions} {source : Source} {expected : Nat} {raw : RawRecord}
  {row : List String} {rows : List (List String)} {records : List RawRecord}

theorem decodeFields_eq_ok_iff {trimmed : Bool} {n : Nat} {fields : List (List UInt8)} :
    decodeFields trimmed n fields = .ok row ↔
      List.Forall₂ (fun field cell => decodeField trimmed field = .ok cell) fields row := by
  induction fields generalizing n row with
  | nil =>
      rw [List.forall₂_nil_left_iff, decodeFields, Except.ok.injEq, eq_comm]
  | cons field rest ih =>
      rw [List.forall₂_cons_left_iff, decodeFields]
      constructor
      · intro h
        split at h
        · cases h
        · rename_i cell hcell
          split at h
          · cases h
          · rename_i cells hcells
            cases h
            exact ⟨cell, cells, hcell, ih.1 hcells, rfl⟩
      · rintro ⟨cell, cells, hcell, hcells, rfl⟩
        rw [hcell, ih.2 hcells]

theorem readRecord_eq_ok_iff (index : Nat) (raw : RawRecord) (row : List String) :
    readRecord options expected index raw = .ok row ↔ Reads options expected raw row := by
  unfold readRecord
  constructor
  · intro h
    split at h
    · rename_i hwidth
      split at h
      · cases h
      · rename_i cells hcells
        cases h
        exact ⟨by simpa using hwidth, decodeFields_eq_ok_iff.1 hcells⟩
    · cases h
  · rintro ⟨hwidth, hcells⟩
    rw [if_pos (by simpa using hwidth), decodeFields_eq_ok_iff.2 hcells]

theorem outcomes_eq_map_ok_iff (hne : rows ≠ []) :
    outcomes options source = rows.map .ok ↔
      (source.endsWithMark = false ∧ source.failure = none) ∧
        List.Forall₂ (Reads options (firstWidth (source.split options.delimiter).records))
          (source.split options.delimiter).records rows := by
  unfold outcomes recordOutcomes
  cases source.endsWithMark with
  | true =>
      rw [if_pos rfl]
      simp [hne, eq_comm]
  | false =>
      rw [if_neg Bool.false_ne_true]
      cases source.failure with
      | none =>
          simp only [and_self, true_and]
          exact mapIdx_eq_map_ok_iff readRecord_eq_ok_iff
      | some message =>
          simp only [reduceCtorEq, and_false, false_and, iff_false]
          intro h
          have hmem : Except.error (RecordError.sourceFailed message) ∈ rows.map Except.ok :=
            h ▸ List.mem_append_right _ List.mem_cons_self
          obtain ⟨_, _, hrow⟩ := List.mem_map.1 hmem
          cases hrow

/-- A load succeeds if the source does not fail or stop after a byte order mark, and
its records, some but not too many, are read as the rows. -/
theorem load_eq_ok_iff_reads :
    load options source = .ok rows ↔
      (source.endsWithMark = false ∧ source.failure = none) ∧
        (rows ≠ [] ∧ rows.length ≤ options.maxRows) ∧
          List.Forall₂ (Reads options (firstWidth (source.split options.delimiter).records))
            (source.split options.delimiter).records rows := by
  rw [load_eq_ok_iff]
  constructor
  · rintro ⟨houtcomes, hrows⟩
    obtain ⟨hsource, hreads⟩ := (outcomes_eq_map_ok_iff hrows.1).1 houtcomes
    exact ⟨hsource, hrows, hreads⟩
  · rintro ⟨hsource, hrows, hreads⟩
    exact ⟨(outcomes_eq_map_ok_iff hrows.1).2 ⟨hsource, hreads⟩, hrows⟩

theorem reads_flexible_false_iff (raw : RawRecord) (row : List String) :
    Reads { options with flexible := false } expected raw row ↔
      raw.fields.length = expected ∧ Reads { options with flexible := true } expected raw row := by
  constructor
  · rintro ⟨hwidth, hcells⟩
    exact ⟨hwidth.resolve_left Bool.false_ne_true, .inl rfl, hcells⟩
  · rintro ⟨hwidth, -, hcells⟩
    exact ⟨.inr hwidth, hcells⟩

theorem reads_trim_true_iff (raw : RawRecord) (row : List String) :
    Reads { options with trim := true } expected raw row ↔
      ∃ bare, Reads { options with trim := false } expected raw bare ∧ row = bare.map trim := by
  have hcells : List.Forall₂ (fun field cell => decodeField true field = .ok cell) raw.fields row ↔
      ∃ bare, List.Forall₂ (fun field cell => decodeField false field = .ok cell) raw.fields bare ∧
        row = bare.map trim :=
    forall₂_iff_exists_map decodeField_true_eq_ok_iff
  constructor
  · rintro ⟨hwidth, h⟩
    obtain ⟨bare, hbare, rfl⟩ := hcells.1 h
    exact ⟨bare, ⟨hwidth, hbare⟩, rfl⟩
  · rintro ⟨bare, ⟨hwidth, hbare⟩, hrow⟩
    exact ⟨hwidth, hcells.2 ⟨bare, hbare, hrow⟩⟩

/-- Records are of the width of the first one if their rows are. -/
theorem forall_length_eq_firstWidth_iff (h : List.Forall₂ (Reads options expected) records rows) :
    (∀ raw ∈ records, raw.fields.length = firstWidth records) ↔ OneWidth rows := by
  have hwidths : records.map (·.fields.length) = rows.map List.length :=
    map_eq_map_of_forall₂ h fun _ _ hreads => hreads.cells.length_eq
  have hfirst : firstWidth records = ((rows.head?).map List.length).getD 0 := by
    rw [firstWidth, ← List.head?_map, hwidths, List.head?_map]
  have hall : (∀ raw ∈ records, raw.fields.length = firstWidth records) ↔
      ∀ row ∈ rows, row.length = firstWidth records := by
    rw [← List.forall_mem_map (f := fun raw : RawRecord => raw.fields.length)
      (P := (· = firstWidth records)), hwidths, List.forall_mem_map]
  rw [hall, hfirst]
  unfold OneWidth
  cases rows with
  | nil => simp
  | cons first rest => simp

/-- With a demand for one width, the tables that are read are those of one width. -/
theorem load_flexible_false_iff :
    load { options with flexible := false } source = .ok rows ↔
      load { options with flexible := true } source = .ok rows ∧ OneWidth rows := by
  -- the demand is made of records, but a record is as wide as its row
  have hwidths (records : List RawRecord) :
      List.Forall₂ (Reads { options with flexible := false } (firstWidth records)) records rows ↔
        List.Forall₂ (Reads { options with flexible := true } (firstWidth records)) records rows ∧
          OneWidth rows := by
    constructor
    · intro h
      obtain ⟨hwidth, hreads⟩ := (List.forall₂_and_left _ _).1
        (h.imp fun raw row => (reads_flexible_false_iff raw row).1)
      exact ⟨hreads, (forall_length_eq_firstWidth_iff hreads).1 hwidth⟩
    · rintro ⟨hreads, hone⟩
      have hwidth := (forall_length_eq_firstWidth_iff hreads).2 hone
      exact ((List.forall₂_and_left _ _).2 ⟨hwidth, hreads⟩).imp
        fun raw row => (reads_flexible_false_iff raw row).2
  rw [load_eq_ok_iff_reads, load_eq_ok_iff_reads, hwidths]
  simp only [and_assoc]

/-- With trimming, the same tables are read, with every cell trimmed. -/
theorem load_trim_true_iff :
    load { options with trim := true } source = .ok rows ↔
      ∃ bare, load { options with trim := false } source = .ok bare ∧
        rows = bare.map (List.map trim) := by
  simp only [load_eq_ok_iff_reads]
  constructor
  · rintro ⟨hsource, ⟨hne, hmax⟩, hreads⟩
    obtain ⟨bare, hbare, rfl⟩ := (forall₂_iff_exists_map reads_trim_true_iff).1 hreads
    rw [List.length_map] at hmax
    exact ⟨bare, ⟨hsource, ⟨mt (List.map_eq_nil_iff.2) hne, hmax⟩, hbare⟩, rfl⟩
  · rintro ⟨bare, ⟨hsource, ⟨hne, hmax⟩, hbare⟩, rfl⟩
    refine ⟨hsource, ⟨mt List.map_eq_nil_iff.1 hne, by rwa [List.length_map]⟩, ?_⟩
    exact (forall₂_iff_exists_map reads_trim_true_iff).2 ⟨bare, hbare, rfl⟩

end Delimited

end CycleComparison

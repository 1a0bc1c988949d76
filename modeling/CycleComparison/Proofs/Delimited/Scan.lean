import CycleComparison.Delimited.Writer
import CycleComparison.Proofs.Text.Utf8

/-!
# Scanning what was written

A written record is scanned back to the bytes of its fields. The scan is
followed through `Scan.Holds`, which says what a scan holds and leaves out the
places it keeps: one lemma for each kind of byte, from them one for a field in
either form, then one for a record and one for a table, each by induction.
-/

namespace CycleComparison

namespace Delimited

/-- A byte that can separate fields: it neither quotes nor ends a record. -/
structure Separates (delimiter : UInt8) : Prop where
  ne_quote : delimiter ≠ quote
  not_terminator : ¬ isTerminator delimiter

/-- What a scan holds, places aside; the finished records are in reverse. -/
structure Scan.Holds (s : Scan) (mode : Mode) (field : List UInt8) (fields : List (List UInt8))
    (records : List (List (List UInt8))) : Prop where
  mode : s.mode = mode
  field : s.field = field
  fields : s.fields = fields
  records : s.records.map RawRecord.fields = records

namespace Scan

variable {s : Scan} {d b : UInt8} {m : Mode} {f : List UInt8} {fs : List (List UInt8)}
  {rs : List (List (List UInt8))}

theorem Holds.begin (here : Position) : (Scan.begin here).Holds .between [] [] [] :=
  ⟨rfl, rfl, rfl, rfl⟩

theorem Holds.outside_delimiter (h : s.Holds m f fs rs) :
    (s.outside d d).Holds .fieldStart [] (f.reverse :: fs) rs := by
  unfold outside
  rw [if_pos rfl]
  exact ⟨rfl, rfl, by rw [endField, h.field, h.fields], h.records⟩

theorem Holds.outside_terminator (h : s.Holds m f fs rs) (hd : b ≠ d) (hb : isTerminator b) :
    (s.outside d b).Holds .between [] [] ((f.reverse :: fs).reverse :: rs) := by
  unfold outside
  rw [if_neg hd, if_pos hb]
  refine ⟨rfl, rfl, rfl, ?_⟩
  rw [endRecord, List.map_cons, h.records, record, h.field, h.fields]

theorem Holds.outside_plain (h : s.Holds m f fs rs) (hb : isSpecial d b = false) :
    (s.outside d b).Holds .plain (b :: f) fs rs := by
  have hne : b ≠ d ∧ ¬ isTerminator b := by
    simp only [isSpecial, Bool.or_eq_false_iff, beq_eq_false_iff_ne] at hb
    exact ⟨hb.1.1, by simp [hb.2]⟩
  unfold outside
  rw [if_neg hne.1, if_neg hne.2]
  exact ⟨rfl, by rw [push, h.field], h.fields, h.records⟩

/-- Moving on does not change what a scan holds. -/
theorem Holds.moved (h : s.Holds m f fs rs) (here : Position) :
    ({ s with here } : Scan).Holds m f fs rs :=
  ⟨h.mode, h.field, h.fields, h.records⟩

/-- A delimiter outside quotes ends the field, wherever the scan stands. -/
theorem Holds.step_delimiter (h : s.Holds m f fs rs) (hm : m ≠ .quoted) (hd : Separates d) :
    (step d s d).Holds .fieldStart [] (f.reverse :: fs) rs := by
  have hend := (h.moved (s.here.after d)).outside_delimiter (d := d)
  unfold step
  cases m with
  | between =>
      simp only [h.mode, if_neg hd.not_terminator, opening, if_neg hd.ne_quote]
      exact hend
  | fieldStart =>
      simp only [h.mode, opening, if_neg hd.ne_quote]
      exact hend
  | plain =>
      simp only [h.mode]
      exact hend
  | quoted => exact absurd rfl hm
  | quoteSeen =>
      simp only [h.mode, if_neg hd.ne_quote]
      exact hend

/-- A line feed outside quotes ends the record, if there is one. -/
theorem Holds.step_lineFeed (h : s.Holds m f fs rs) (hm : m ≠ .quoted) (hm' : m ≠ .between)
    (hd : Separates d) :
    (step d s 0xA).Holds .between [] [] ((f.reverse :: fs).reverse :: rs) := by
  have hne : (0xA : UInt8) ≠ d := by
    intro heq
    exact hd.not_terminator (heq ▸ by decide)
  have hquote : (0xA : UInt8) ≠ quote := by decide
  have hend := (h.moved (s.here.after 0xA)).outside_terminator hne (by decide)
  unfold step
  cases m with
  | between => exact absurd rfl hm'
  | fieldStart =>
      simp only [h.mode, opening, if_neg hquote]
      exact hend
  | plain =>
      simp only [h.mode]
      exact hend
  | quoted => exact absurd rfl hm
  | quoteSeen =>
      simp only [h.mode, if_neg hquote]
      exact hend

/-- A quote at the start of a field opens it. -/
theorem Holds.step_openingQuote (h : s.Holds m f fs rs) (hm : m = .between ∨ m = .fieldStart) :
    (step d s quote).Holds .quoted f fs rs := by
  unfold step
  rcases hm with rfl | rfl
  · have hterm : ¬ isTerminator quote := by decide
    simp only [h.mode, if_neg hterm, opening, if_true]
    exact ⟨rfl, h.field, h.fields, h.records⟩
  · simp only [h.mode, opening, if_true]
    exact ⟨rfl, h.field, h.fields, h.records⟩

/-- A byte without a meaning goes into the field. -/
theorem Holds.step_plain (h : s.Holds m f fs rs)
    (hm : m = .between ∨ m = .fieldStart ∨ m = .plain) (hb : isSpecial d b = false) :
    (step d s b).Holds .plain (b :: f) fs rs := by
  have hne : b ≠ quote ∧ ¬ isTerminator b := by
    simp only [isSpecial, Bool.or_eq_false_iff, beq_eq_false_iff_ne] at hb
    exact ⟨hb.1.2, by simp [hb.2]⟩
  have hpush := (h.moved (s.here.after b)).outside_plain hb
  unfold step
  rcases hm with rfl | rfl | rfl
  · simp only [h.mode, if_neg hne.2, opening, if_neg hne.1]
    exact hpush
  · simp only [h.mode, opening, if_neg hne.1]
    exact hpush
  · simp only [h.mode]
    exact hpush

theorem Holds.step_quoted (h : s.Holds .quoted f fs rs) (hb : b ≠ quote) :
    (step d s b).Holds .quoted (b :: f) fs rs := by
  unfold step
  simp only [h.mode, if_neg hb]
  exact ⟨rfl, by rw [push, h.field], h.fields, h.records⟩

theorem Holds.step_quoteInside (h : s.Holds .quoted f fs rs) :
    (step d s quote).Holds .quoteSeen f fs rs := by
  unfold step
  simp only [h.mode, if_true]
  exact ⟨rfl, h.field, h.fields, h.records⟩

theorem Holds.step_secondQuote (h : s.Holds .quoteSeen f fs rs) :
    (step d s quote).Holds .quoted (quote :: f) fs rs := by
  unfold step
  simp only [h.mode, if_true]
  exact ⟨rfl, by rw [push, h.field], h.fields, h.records⟩

/-- Bytes without a meaning are the field. -/
theorem Holds.run_plain {bytes : List UInt8} (h : s.Holds .plain f fs rs)
    (hb : ∀ b ∈ bytes, isSpecial d b = false) :
    (bytes.foldl (step d) s).Holds .plain (bytes.reverse ++ f) fs rs := by
  induction bytes generalizing s f with
  | nil => exact h
  | cons b rest ih =>
      have hstep := h.step_plain (.inr (.inr rfl)) (hb b List.mem_cons_self)
      have hrest := ih hstep fun x hx => hb x (List.mem_cons_of_mem _ hx)
      rw [List.foldl_cons, List.reverse_cons, List.append_assoc]
      exact hrest

/-- Bytes inside quotes are the field once doubled quotes are undone. -/
theorem Holds.run_quoted (bytes : List UInt8) (h : s.Holds .quoted f fs rs) :
    ((doubleQuotes bytes).foldl (step d) s).Holds .quoted (bytes.reverse ++ f) fs rs := by
  induction bytes generalizing s f with
  | nil => exact h
  | cons b rest ih =>
      have hcons : doubleQuotes (b :: rest) =
          (if b = quote then [quote, quote] else [b]) ++ doubleQuotes rest := rfl
      rw [hcons, List.foldl_append, List.reverse_cons, List.append_assoc]
      by_cases hb : b = quote
      · subst hb
        rw [if_pos rfl]
        exact ih h.step_quoteInside.step_secondQuote
      · rw [if_neg hb]
        exact ih (h.step_quoted hb)

end Scan

end Delimited

end CycleComparison

import CycleComparison.Measurement.Layout
import CycleComparison.Proofs.Text.ByteOrder
import Mathlib.Data.List.Sort

/-!
# The columns that an error lists

An error lists the labels of the missing columns sorted and then without the
repetitions, which stand side by side in a sorted list. What is listed is strictly
ascending, and there is only one such list of a set of texts. So the error and its
message depend on nothing but the set of the labels, whatever order they are found in
and however often.
-/

namespace CycleComparison

section Repetitions

theorem eraseReps_loop {α : Type} [BEq α] (a : α) (l acc : List α) :
    List.eraseRepsBy.loop (· == ·) a l acc =
      acc.reverse ++ List.eraseRepsBy.loop (· == ·) a l [] := by
  induction l generalizing a acc with
  | nil => simp [List.eraseRepsBy.loop]
  | cons b l ih =>
      unfold List.eraseRepsBy.loop
      split
      · exact ih a acc
      · rw [ih b (a :: acc), ih b [a], List.reverse_cons, List.append_assoc,
          List.reverse_singleton]

variable {α : Type} [BEq α] [LawfulBEq α]

theorem eraseReps_cons_cons (a b : α) (l : List α) :
    (a :: b :: l).eraseReps = if a == b then (b :: l).eraseReps else a :: (b :: l).eraseReps := by
  simp only [List.eraseReps, List.eraseRepsBy]
  rw [List.eraseRepsBy.loop]
  by_cases h : a == b
  · rw [h, if_pos rfl, eq_of_beq h]
  · rw [Bool.not_eq_true] at h
    rw [h, eraseReps_loop b l [a]]
    rfl

theorem mem_eraseReps {a : α} {l : List α} : a ∈ l.eraseReps ↔ a ∈ l := by
  induction l with
  | nil => rfl
  | cons b l ih =>
      cases l with
      | nil => rfl
      | cons c l =>
          rw [eraseReps_cons_cons]
          split
          · rename_i h
            rw [ih, eq_of_beq h, List.mem_cons (b := c) (l := c :: l), or_iff_right_of_imp]
            rintro rfl
            exact List.mem_cons_self
          · rw [List.mem_cons, ih, ← List.mem_cons]

/-- Of a sorted list every element is kept once. -/
theorem pairwise_eraseReps [LinearOrder α] {l : List α} (h : l.Pairwise (· ≤ ·)) :
    l.eraseReps.Pairwise (· < ·) := by
  induction l with
  | nil => exact .nil
  | cons a l ih =>
      cases l with
      | nil => exact List.pairwise_singleton _ a
      | cons b l =>
          obtain ⟨hhead, htail⟩ := List.pairwise_cons.1 h
          rw [eraseReps_cons_cons]
          split
          · exact ih htail
          · rename_i hne
            have hlt : a < b := lt_of_le_of_ne (hhead b List.mem_cons_self) (by simpa using hne)
            refine List.pairwise_cons.2 ⟨fun c hc => ?_, ih htail⟩
            rcases List.mem_cons.1 (mem_eraseReps.1 hc) with rfl | hc
            · exact hlt
            · exact lt_of_lt_of_le hlt ((List.pairwise_cons.1 htail).1 c hc)

end Repetitions

namespace LayoutError

/-- The error lists the labels of the missing columns in ascending order, each once. -/
theorem missing_eq_iff {labels listed : List String} :
    missing labels = .missingColumns listed ↔
      listed.Pairwise (· < ·) ∧ ∀ label, label ∈ listed ↔ label ∈ labels := by
  have hsorted : (labels.mergeSort fun a b => decide (a ≤ b)).eraseReps.Pairwise (· < ·) := by
    have hle : (labels.mergeSort fun a b => decide (a ≤ b)).Pairwise fun a b => decide (a ≤ b) :=
      List.pairwise_mergeSort (by simpa using fun a b c => le_trans) (by simpa using le_total)
        labels
    apply pairwise_eraseReps
    simpa using hle
  have hmem (label : String) :
      label ∈ (labels.mergeSort fun a b => decide (a ≤ b)).eraseReps ↔ label ∈ labels := by
    rw [mem_eraseReps, List.mem_mergeSort]
  rw [missing, missingColumns.injEq]
  constructor
  · rintro rfl
    exact ⟨hsorted, hmem⟩
  · rintro ⟨hlisted, hsame⟩
    exact hsorted.eq_of_mem_iff hlisted fun label => (hmem label).trans (hsame label).symm

/-- The error tells the set of the missing columns and nothing else. -/
theorem missing_eq_missing_iff {labels others : List String} :
    missing labels = missing others ↔ ∀ label, label ∈ labels ↔ label ∈ others := by
  obtain ⟨listed, hlisted⟩ : ∃ listed, missing others = .missingColumns listed := ⟨_, rfl⟩
  obtain ⟨hascending, hmem⟩ := missing_eq_iff.1 hlisted
  rw [hlisted, missing_eq_iff]
  constructor
  · rintro ⟨-, hlabels⟩ label
    exact (hlabels label).symm.trans (hmem label)
  · intro hsame
    exact ⟨hascending, fun label => (hmem label).trans (hsame label).symm⟩

/-- The error lists the labels that it is given and no others, in strictly ascending
order of their bytes. It is the same error, with the same message, for every list of the
same labels, in whatever order and however often, and another one for every other list. -/
theorem missing_lists_labels (labels : List String) :
    (∃ listed, missing labels = .missingColumns listed ∧
        (missing labels).message = "Missing required columns: " ++ ", ".intercalate listed ∧
        listed.Pairwise (fun a b => encodeUtf8 a < encodeUtf8 b) ∧
        ∀ label, label ∈ listed ↔ label ∈ labels) ∧
      ∀ others : List String,
        (missing others = missing labels ↔ ∀ label, label ∈ others ↔ label ∈ labels) ∧
          ((∀ label, label ∈ others ↔ label ∈ labels) →
            (missing others).message = (missing labels).message) := by
  constructor
  · obtain ⟨listed, hlisted⟩ : ∃ listed, missing labels = .missingColumns listed := ⟨_, rfl⟩
    obtain ⟨hascending, hmem⟩ := missing_eq_iff.1 hlisted
    refine ⟨listed, hlisted, by rw [hlisted]; rfl, ?_, hmem⟩
    exact hascending.imp encodeUtf8_lt_encodeUtf8_iff.2
  · intro others
    refine ⟨missing_eq_missing_iff, fun hsame => ?_⟩
    rw [missing_eq_missing_iff.2 hsame]

/-- Labels that are ordered by bytes in another way than by units of 16 bits, in two
orders and with repetitions. -/
theorem missing_lists_labels_beyond_plane :
    let labels := ["～", "cycles", "😀", "cycles"]
    let others := ["😀", "～", "😀", "cycles"]
    (∀ label, label ∈ others ↔ label ∈ labels) ∧ missing others = missing labels ∧
      (missing others).message = (missing labels).message ∧
      missing labels = .missingColumns ["cycles", "～", "😀"] := by
  intro labels others
  have hsame (label : String) : label ∈ others ↔ label ∈ labels := by
    simp only [labels, others, List.mem_cons, List.not_mem_nil, or_false]
    tauto
  have hlisted (label : String) : label ∈ ["cycles", "～", "😀"] ↔ label ∈ labels := by
    simp only [labels, List.mem_cons, List.not_mem_nil, or_false]
    tauto
  obtain ⟨herror, hmessage⟩ := (missing_lists_labels labels).2 others
  exact ⟨hsame, herror.2 hsame, hmessage hsame, missing_eq_iff.2 ⟨by decide, hlisted⟩⟩

end LayoutError

end CycleComparison

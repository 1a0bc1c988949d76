import CycleComparison.Text.Blank
import Mathlib.Data.List.TakeWhile

/-!
# Trimming

`stripEnds` cuts a list into three parts of which the outer two hold removed
elements only. Removing such elements first, at either end, therefore changes
nothing: stripping is idempotent, and a coarser predicate absorbs a finer one.
-/

namespace CycleComparison

section Strip

variable {α : Type} {p q : α → Bool}

theorem exists_stripEnds (p : α → Bool) (l : List α) :
    ∃ a b, l = a ++ stripEnds p l ++ b ∧ (∀ x ∈ a, p x) ∧ ∀ x ∈ b, p x := by
  refine ⟨l.takeWhile p, ((l.dropWhile p).reverse.takeWhile p).reverse, ?_, ?_, ?_⟩
  · unfold stripEnds
    rw [List.append_assoc, ← List.reverse_append, List.takeWhile_append_dropWhile,
      List.reverse_reverse, List.takeWhile_append_dropWhile]
  · intro x hx
    exact List.mem_takeWhile_imp hx
  · intro x hx
    exact List.mem_takeWhile_imp (List.mem_reverse.1 hx)

theorem stripEnds_append_left {a : List α} (l : List α) (ha : ∀ x ∈ a, p x) :
    stripEnds p (a ++ l) = stripEnds p l := by
  unfold stripEnds
  rw [List.dropWhile_append_of_pos ha]

theorem stripEnds_append_right (l : List α) {b : List α} (hb : ∀ x ∈ b, p x) :
    stripEnds p (l ++ b) = stripEnds p l := by
  unfold stripEnds
  rw [List.dropWhile_append]
  by_cases hl : l.dropWhile p = []
  · have hnil : b.dropWhile p = [] := List.dropWhile_eq_nil_iff.2 hb
    simp [hl, hnil]
  · have hne : (l.dropWhile p).isEmpty = false := by simpa using hl
    have hrev : ∀ x ∈ b.reverse, p x := fun x hx => hb x (List.mem_reverse.1 hx)
    rw [hne, if_neg Bool.false_ne_true, List.reverse_append, List.dropWhile_append_of_pos hrev]

/-- Removing some of the elements first makes no difference. -/
theorem stripEnds_stripEnds_of_imp (h : ∀ x, q x → p x) (l : List α) :
    stripEnds p (stripEnds q l) = stripEnds p l := by
  obtain ⟨a, b, hl, ha, hb⟩ := exists_stripEnds q l
  calc stripEnds p (stripEnds q l)
      = stripEnds p (a ++ stripEnds q l ++ b) := by
        rw [stripEnds_append_right _ fun x hx => h x (hb x hx),
          stripEnds_append_left _ fun x hx => h x (ha x hx)]
    _ = stripEnds p l := by rw [← hl]

theorem stripEnds_of_forall_not {l : List α} (h : ∀ x ∈ l, ¬ p x) : stripEnds p l = l := by
  have hdrop {l : List α} (h : ∀ x ∈ l, ¬ p x) : l.dropWhile p = l :=
    List.dropWhile_eq_self_iff.2 fun _ => h _ (List.getElem_mem _)
  unfold stripEnds
  rw [hdrop h, hdrop fun x hx => h x (List.mem_reverse.1 hx), List.reverse_reverse]

/-- If the images of an element all satisfy the predicate or all fail it, they
are removed together. -/
theorem dropWhile_flatMap {β : Type} {f : β → List α} {r : β → Bool} (hne : ∀ b, f b ≠ [])
    (h : ∀ b, ∀ x ∈ f b, p x = r b) (l : List β) :
    (l.flatMap f).dropWhile p = (l.dropWhile r).flatMap f := by
  induction l with
  | nil => rfl
  | cons b rest ih =>
      rw [List.flatMap_cons]
      by_cases hb : r b
      · rw [List.dropWhile_append_of_pos fun x hx => (h b x hx).trans hb, ih,
          List.dropWhile_cons_of_pos hb]
      · obtain ⟨x, xs, hx⟩ := List.exists_cons_of_ne_nil (hne b)
        have hnot : ¬ p x := by
          rw [h b x (by rw [hx]; exact List.mem_cons_self)]
          exact hb
        rw [hx, List.cons_append, List.dropWhile_cons_of_neg hnot, List.dropWhile_cons_of_neg hb,
          List.flatMap_cons, hx, List.cons_append]

theorem stripEnds_flatMap {β : Type} {f : β → List α} {r : β → Bool} (hne : ∀ b, f b ≠ [])
    (h : ∀ b, ∀ x ∈ f b, p x = r b) (l : List β) :
    stripEnds p (l.flatMap f) = (stripEnds r l).flatMap f := by
  have hne' : ∀ b, (List.reverse ∘ f) b ≠ [] := fun b => by simpa using hne b
  have h' : ∀ b, ∀ x ∈ (List.reverse ∘ f) b, p x = r b :=
    fun b x hx => h b x (List.mem_reverse.1 hx)
  unfold stripEnds
  rw [dropWhile_flatMap hne h, List.reverse_flatMap, dropWhile_flatMap hne' h',
    List.reverse_flatMap]
  simp [Function.comp_def]

end Strip

@[simp] theorem trim_trim (text : String) : trim (trim text) = trim text := by
  unfold trim
  rw [String.toList_ofList, stripEnds_stripEnds_of_imp fun _ h => h]

theorem trim_of_forall_not {text : String} (h : ∀ c ∈ text.toList, ¬ isBlank c) :
    trim text = text := by
  unfold trim
  rw [stripEnds_of_forall_not h, String.ofList_toList]

theorem not_isBlank_of_isDigit {c : Char} (h : c.isDigit) : ¬ isBlank c := by
  have hrange : 0x30 ≤ c.toNat ∧ c.toNat ≤ 0x39 := Char.isDigit_iff_toNat.1 h
  unfold isBlank
  simp only [Bool.or_eq_true, Bool.and_eq_true, beq_iff_eq, decide_eq_true_eq]
  omega

end CycleComparison

import CycleComparison.Proofs.Benchmark.Rules
import Mathlib.Data.List.Infix

/-!
# The shape of names

The rules on names look at the same text independently of each other, so nothing
in them keeps the parts of a name apart. Still the parts hardly meet: a word that
stands for a precision has no digits, so it ends before the digits at the end of
the name, and it starts after the version unless the two share letters. The only
letter they can share is the `d` of `oldbl`. Hence a name that classifies is cut
into its parts one after the other, or it starts with `oldbl`.
-/

namespace CycleComparison

open Decimal

/-- A name is cut into a version, a precision and a run of digits at the end, in
this order and with anything between them. -/
def IsShaped (name : String) : Prop :=
  ∃ (v : Version) (p : Precision) (x y digits : List Char), IsRun digits ∧
    name.toList = v.label.toList ++ x ++ p.label.toList ++ y ++ digits

/-- A name starts with `old` and `dbl` in one, and ends with a run of digits. -/
def SharesLetter (name : String) : Prop :=
  ∃ y digits : List Char, IsRun digits ∧ name.toList = "oldbl".toList ++ y ++ digits

/-- What is at the end of a version and goes on as a precision. -/
theorem label_overlap {v : Version} {p : Precision} {before shared : List Char}
    (hlabel : v.label.toList = before ++ shared) (hne : shared ≠ [])
    (h : shared <+: p.label.toList ∨ p.label.toList <+: shared) :
    v = .old ∧ p = .dbl ∧ before = ['o', 'l'] := by
  have htails : ∀ shared ∈ v.label.toList.tails, shared ≠ [] →
      (shared <+: p.label.toList ∨ p.label.toList <+: shared) →
        v = .old ∧ p = .dbl ∧ shared = ['d'] := by
    cases v <;> cases p <;> decide
  obtain ⟨rfl, rfl, rfl⟩ := htails shared ((List.mem_tails _ _).2 ⟨before, hlabel.symm⟩) hne h
  exact ⟨rfl, rfl, List.append_cancel_right (hlabel.symm.trans (by decide))⟩

/-- A precision stands after the version that a text starts with, or shares its first
letter with it. -/
theorem label_prefix_before {v : Version} {p : Precision} {before after : List Char}
    (h : v.label.toList <+: before ++ p.label.toList ++ after) :
    v.label.toList <+: before ∨ v = .old ∧ p = .dbl ∧ before = ['o', 'l'] := by
  rw [List.append_assoc] at h
  rcases List.prefix_or_prefix_of_prefix h (List.prefix_append before _) with hv | ⟨shared, hv⟩
  · exact .inl hv
  · by_cases hne : shared = []
    · rw [hne, List.append_nil] at hv
      exact .inl (hv ▸ List.prefix_refl _)
    · right
      apply label_overlap hv.symm hne
      rw [← hv, List.prefix_append_right_inj] at h
      exact List.prefix_or_prefix_of_prefix h (List.prefix_append _ after)

theorem noDigitLast_append_label (before : List Char) (p : Precision) :
    NoDigitLast (before ++ p.label.toList) := by
  intro c hc
  rw [List.getLast?_append_of_ne_nil _ (by cases p <;> decide)] at hc
  cases p <;> cases hc <;> rfl

/-- The digits at the end stand after a precision. -/
theorem exists_append_trailingDigits_of_label (before : List Char) (p : Precision)
    (after : List Char) :
    ∃ y, after = y ++ trailingDigits (before ++ p.label.toList ++ after) := by
  obtain ⟨y, hafter, hy⟩ := exists_append_trailingDigits after
  have hbefore := (noDigitLast_append_label before p).append hy
  refine ⟨y, ?_⟩
  conv_rhs => rw [hafter, ← List.append_assoc, trailingDigits_append_of_noDigitLast hbefore
    fun c hc => isDigit_of_mem_trailingDigits hc]
  exact hafter

theorem isRun_trailingDigits_append {digits : List Char} (text : List Char) (h : IsRun digits) :
    IsRun (trailingDigits (text ++ digits)) := by
  refine ⟨?_, fun c hc => isDigit_of_mem_trailingDigits hc⟩
  rw [trailingDigits_append text h.2]
  exact List.append_ne_nil_of_right_ne_nil _ h.1

theorem isSome_exceptionCount?_iff {text : List Char} :
    (exceptionCount? text).isSome ↔
      IsRun (trailingDigits text) ∧ valueOf (trailingDigits text) < UInt64.size := by
  rw [Option.isSome_iff_exists]
  simp only [exceptionCount?_eq_some_iff_trailingDigits, exists_and_left]
  refine and_congr_right fun _ => ⟨?_, fun hlt => ?_⟩
  · rintro ⟨e, he⟩
    exact he ▸ e.toNat_lt
  · exact ⟨UInt64.ofNat _, (UInt64.toNat_ofNat_of_lt' hlt).symm⟩

theorem isSome_inside?_iff {text : List Char} :
    (Precision.inside? text).isSome ↔ ∃ p : Precision, p.label.toList <:+: text := by
  rw [Option.isSome_iff_exists]
  constructor
  · rintro ⟨p, hp⟩
    exact ⟨p, (Precision.inside?_eq_some_iff.1 hp).1⟩
  · rintro ⟨p, hp⟩
    by_cases hfloat : Precision.float.label.toList <:+: text
    · exact ⟨.float, Precision.inside?_eq_some_iff.2 ⟨hfloat, fun _ => rfl⟩⟩
    · exact ⟨p, Precision.inside?_eq_some_iff.2 ⟨hp, fun h => absurd h hfloat⟩⟩

theorem isSome_classify_iff {name : String} :
    (classify name).isSome ↔
      (∃ v : Version, v.label.toList <+: name.toList) ∧
        (∃ p : Precision, p.label.toList <:+: name.toList) ∧
          IsRun (trailingDigits name.toList) ∧
            valueOf (trailingDigits name.toList) < UInt64.size := by
  simp only [← isSome_inside?_iff, ← isSome_exceptionCount?_iff, ← Version.ofStart?_eq_some_iff,
    Option.isSome_iff_exists, classify_eq_some_iff]
  constructor
  · rintro ⟨kind, he, hv, hp⟩
    exact ⟨⟨_, hv⟩, ⟨_, hp⟩, ⟨_, he⟩⟩
  · rintro ⟨⟨v, hv⟩, ⟨p, hp⟩, ⟨e, he⟩⟩
    exact ⟨⟨e, v, p⟩, he, hv, hp⟩

section Parts

variable {name : String}

theorem isShaped_or_sharesLetter {v : Version} {p : Precision}
    (hv : v.label.toList <+: name.toList) (hp : p.label.toList <:+: name.toList)
    (hrun : IsRun (trailingDigits name.toList)) : IsShaped name ∨ SharesLetter name := by
  obtain ⟨before, after, hname⟩ := hp
  obtain ⟨y, hafter⟩ := exists_append_trailingDigits_of_label before p after
  rw [hname] at hafter
  rw [← hname] at hv
  rcases label_prefix_before hv with ⟨x, hbefore⟩ | ⟨rfl, rfl, rfl⟩
  · left
    refine ⟨v, p, x, y, _, hrun, ?_⟩
    rw [hbefore, List.append_assoc _ y, ← hafter, hname]
  · right
    refine ⟨y, _, hrun, ?_⟩
    rw [List.append_assoc, ← hafter, ← hname]
    rfl

/-- The names of either kind end with digits and have a version and a precision. -/
theorem labels_of_isShaped (h : IsShaped name ∨ SharesLetter name) :
    (∃ v : Version, v.label.toList <+: name.toList) ∧
      (∃ p : Precision, p.label.toList <:+: name.toList) ∧ IsRun (trailingDigits name.toList) := by
  rcases h with ⟨v, p, x, y, digits, hrun, hname⟩ | ⟨y, digits, hrun, hname⟩
  · rw [hname]
    refine ⟨⟨v, ?_⟩, ⟨p, ?_⟩, isRun_trailingDigits_append _ hrun⟩
    · simp only [List.append_assoc, List.prefix_append]
    · exact ⟨v.label.toList ++ x, y ++ digits, by simp only [List.append_assoc]⟩
  · rw [hname]
    refine ⟨⟨.old, ?_⟩, ⟨.dbl, ?_⟩, isRun_trailingDigits_append _ hrun⟩
    · exact ⟨"bl".toList ++ y ++ digits, rfl⟩
    · exact ⟨"ol".toList, y ++ digits, rfl⟩

/-- The names that classify are those in which a version, a precision and digits
follow each other, and those that start with `oldbl` and end with digits, if the
number at the end fits a word. -/
theorem isSome_classify_iff_isShaped (name : String) :
    (classify name).isSome ↔
      (IsShaped name ∨ SharesLetter name) ∧ valueOf (trailingDigits name.toList) < UInt64.size := by
  rw [isSome_classify_iff]
  constructor
  · rintro ⟨⟨v, hv⟩, ⟨p, hp⟩, hrun, hvalue⟩
    exact ⟨isShaped_or_sharesLetter hv hp hrun, hvalue⟩
  · rintro ⟨hshape, hvalue⟩
    obtain ⟨hv, hp, hrun⟩ := labels_of_isShaped hshape
    exact ⟨hv, hp, hrun, hvalue⟩

end Parts

/-- The shared letter is enough: there is no precision after the version. -/
theorem isSome_classify_oldbl : (classify "oldbl3").isSome ∧ ¬ IsShaped "oldbl3" := by
  refine ⟨by decide +kernel, ?_⟩
  rintro ⟨v, p, x, y, digits, -, hname⟩
  have hafter : p.label.toList <:+: "oldbl3".toList.drop v.label.toList.length := by
    rw [hname]
    simp only [List.append_assoc, List.drop_left]
    exact ⟨x, y ++ digits, by simp only [List.append_assoc]⟩
  rw [← occursIn_iff] at hafter
  cases v <;> cases p <;> exact absurd hafter (by decide)

end CycleComparison

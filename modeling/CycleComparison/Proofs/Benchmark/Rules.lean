import CycleComparison.Benchmark.Name
import CycleComparison.Proofs.Decimal.Literal
import Mathlib.Data.List.DropRight

/-!
# The rules that names follow

A name classifies exactly if it follows three rules, each of which is about the
name as a whole: how it starts, which words occur in it, and which number the
digits at its end are. The digits are the longest run that the name ends with, so
what stands before them does not end in a digit. A name follows the rules for at
most one classification, and for none if the number does not fit a word.
-/

namespace CycleComparison

open Decimal

variable {text : List Char}

theorem occursIn_iff {word : List Char} : occursIn word text ↔ word <:+: text := by
  induction text with
  | nil => rw [occursIn, List.isEmpty_iff, List.infix_nil]
  | cons c rest ih =>
      rw [occursIn, Bool.or_eq_true, ih, List.isPrefixOf_iff_prefix, List.infix_cons_iff]

namespace Version

/-- No label is the beginning of the other. -/
theorem label_unique {v w : Version} (hv : v.label.toList <+: text)
    (hw : w.label.toList <+: text) : v = w := by
  have hlabel := List.prefix_of_prefix_length_le hv hw (by cases v <;> cases w <;> decide)
  cases v <;> cases w <;> first | rfl | exact absurd hlabel (by decide)

theorem label_prefix_of_ofStart? {v : Version} (h : ofStart? text = some v) :
    v.label.toList <+: text := by
  have hprefix := List.find?_some h
  exact List.isPrefixOf_iff_prefix.1 hprefix

theorem ofStart?_eq_some_iff {v : Version} : ofStart? text = some v ↔ v.label.toList <+: text := by
  refine ⟨label_prefix_of_ofStart?, fun h => ?_⟩
  cases hstart : ofStart? text with
  | none =>
      have hnot := List.find?_eq_none.1 hstart v (by cases v <;> decide)
      exact absurd (List.isPrefixOf_iff_prefix.2 h) hnot
  | some w => rw [label_unique (label_prefix_of_ofStart? hstart) h]

end Version

/-- Single precision is found first, and double precision where it is not. -/
theorem Precision.inside?_eq_some_iff {p : Precision} :
    inside? text = some p ↔
      p.label.toList <:+: text ∧ (float.label.toList <:+: text → p = float) := by
  unfold inside? all
  rw [List.find?_cons, List.find?_cons, List.find?_nil]
  simp only [← occursIn_iff]
  cases p <;> cases occursIn float.label.toList text <;> cases occursIn dbl.label.toList text <;>
    decide

/-- Empty, or the last character is no digit. -/
def NoDigitLast (text : List Char) : Prop := ∀ c ∈ text.getLast?, c.isDigit = false

theorem trailingDigits_eq_rtakeWhile (text : List Char) :
    trailingDigits text = text.rtakeWhile Char.isDigit := rfl

theorem isDigit_of_mem_trailingDigits {c : Char} (h : c ∈ trailingDigits text) : c.isDigit :=
  List.mem_rtakeWhile_imp h

/-- What stands before the trailing digits does not end in a digit. -/
theorem exists_append_trailingDigits (text : List Char) :
    ∃ before, text = before ++ trailingDigits text ∧ NoDigitLast before := by
  refine ⟨text.rdropWhile Char.isDigit, List.rdropWhile_append_rtakeWhile.symm, ?_⟩
  intro c hc
  obtain ⟨hne, rfl⟩ := List.mem_getLast?_eq_getLast hc
  exact Bool.eq_false_iff.2 (List.rdropWhile_last_not _ text hne)

theorem NoDigitLast.append {before after : List Char} (h : NoDigitLast before)
    (h' : NoDigitLast after) : NoDigitLast (before ++ after) := by
  intro c hc
  rw [List.getLast?_append, Option.mem_def, Option.or_eq_some_iff] at hc
  rcases hc with hc | ⟨-, hc⟩
  · exact h' c hc
  · exact h c hc

theorem NoDigitLast.trailingDigits_eq_nil {before : List Char} (h : NoDigitLast before) :
    trailingDigits before = [] := by
  rw [trailingDigits_eq_rtakeWhile, List.rtakeWhile_eq_nil_iff]
  intro hne
  rw [h _ (List.getLast_mem_getLast? hne)]
  exact Bool.false_ne_true

/-- Digits that are added at the end go on with the trailing digits. -/
theorem trailingDigits_append {digits : List Char} (text : List Char)
    (hdigits : ∀ c ∈ digits, c.isDigit) :
    trailingDigits (text ++ digits) = trailingDigits text ++ digits := by
  have hreverse : ∀ c ∈ digits.reverse, c.isDigit := fun c hc => hdigits c (List.mem_reverse.1 hc)
  unfold trailingDigits
  rw [List.reverse_append, List.takeWhile_append_of_pos hreverse, List.reverse_append,
    List.reverse_reverse]

theorem trailingDigits_append_of_noDigitLast {before digits : List Char}
    (hbefore : NoDigitLast before) (hdigits : ∀ c ∈ digits, c.isDigit) :
    trailingDigits (before ++ digits) = digits := by
  rw [trailingDigits_append before hdigits, hbefore.trailingDigits_eq_nil, List.nil_append]

theorem uint64OfNat?_eq_some_iff {n : Nat} {w : UInt64} :
    uint64OfNat? n = some w ↔ n = w.toNat := by
  constructor
  · exact fun h => (toNat_of_uint64OfNat? h).symm
  · rintro rfl
    exact uint64OfNat?_toNat w

theorem exceptionCount?_eq_some_iff_trailingDigits {e : UInt64} :
    exceptionCount? text = some e ↔
      IsRun (trailingDigits text) ∧ valueOf (trailingDigits text) = e.toNat := by
  unfold exceptionCount?
  simp only [Option.bind_eq_some_iff, natural?_eq_some_iff, uint64OfNat?_eq_some_iff]
  constructor
  · rintro ⟨n, ⟨hrun, rfl⟩, hn⟩
    exact ⟨hrun, hn⟩
  · rintro ⟨hrun, hvalue⟩
    exact ⟨_, ⟨hrun, rfl⟩, hvalue⟩

/-- The number of exceptions is the number at the end of a text. -/
theorem exceptionCount?_eq_some_iff {e : UInt64} :
    exceptionCount? text = some e ↔
      ∃ before digits, text = before ++ digits ∧ NoDigitLast before ∧ IsRun digits ∧
        valueOf digits = e.toNat := by
  rw [exceptionCount?_eq_some_iff_trailingDigits]
  constructor
  · rintro ⟨hrun, hvalue⟩
    obtain ⟨before, htext, hbefore⟩ := exists_append_trailingDigits text
    exact ⟨before, _, htext, hbefore, hrun, hvalue⟩
  · rintro ⟨before, digits, rfl, hbefore, hrun, hvalue⟩
    rw [trailingDigits_append_of_noDigitLast hbefore hrun.2]
    exact ⟨hrun, hvalue⟩

theorem classify_eq_some_iff {name : String} {kind : Classification} :
    classify name = some kind ↔
      exceptionCount? name.toList = some kind.exceptions ∧
        Version.ofStart? name.toList = some kind.version ∧
        Precision.inside? name.toList = some kind.precision := by
  obtain ⟨e, v, p⟩ := kind
  unfold classify
  simp only [Option.bind_eq_bind, Option.bind_eq_some_iff, Option.pure_def, Option.some.injEq,
    Classification.mk.injEq]
  constructor
  · rintro ⟨e, he, v, hv, p, hp, rfl, rfl, rfl⟩
    exact ⟨he, hv, hp⟩
  · rintro ⟨he, hv, hp⟩
    exact ⟨e, he, v, hv, p, hp, rfl, rfl, rfl⟩

/-- A name follows the three rules for a classification. -/
structure FollowsRules (name : String) (kind : Classification) : Prop where
  version : kind.version.label.toList <+: name.toList
  precision : kind.precision.label.toList <:+: name.toList
  float_first : Precision.float.label.toList <:+: name.toList → kind.precision = .float
  exceptions : ∃ before digits, name.toList = before ++ digits ∧ NoDigitLast before ∧
    IsRun digits ∧ valueOf digits = kind.exceptions.toNat

theorem followsRules_iff {name : String} {kind : Classification} :
    FollowsRules name kind ↔ classify name = some kind := by
  rw [classify_eq_some_iff, exceptionCount?_eq_some_iff, Version.ofStart?_eq_some_iff,
    Precision.inside?_eq_some_iff]
  constructor
  · rintro ⟨hversion, hprecision, hfloat, hexceptions⟩
    exact ⟨hexceptions, hversion, hprecision, hfloat⟩
  · rintro ⟨hexceptions, hversion, hprecision, hfloat⟩
    exact ⟨hversion, hprecision, hfloat, hexceptions⟩

/-- A number of exceptions needs a run of digits that fits a word. -/
theorem classify_eq_none_of_exceptionCount? {name : String}
    (h : ∀ e, exceptionCount? name.toList ≠ some e) : classify name = none := by
  cases hkind : classify name with
  | none => rfl
  | some kind => exact absurd (classify_eq_some_iff.1 hkind).1 (h kind.exceptions)

/-- A name classifies as what it follows the rules for and as nothing else. In
particular it does not if the number that it ends with is too great for a word, or
if its last character is no ASCII digit. -/
theorem classify_eq_some_iff_followsRules (name : String) :
    (∀ kind, classify name = some kind ↔ FollowsRules name kind) ∧
    (classify name = none ↔ ¬ ∃ kind, FollowsRules name kind) ∧
    (∀ before digits, name.toList = before ++ digits → NoDigitLast before → IsRun digits →
      UInt64.size ≤ valueOf digits → classify name = none) ∧
    (∀ c ∈ name.toList.getLast?, c.isDigit = false → classify name = none) := by
  refine ⟨fun kind => followsRules_iff.symm, ?_, ?_, ?_⟩
  · simp only [followsRules_iff, ← Option.isSome_iff_exists, Option.not_isSome_iff_eq_none]
  · intro before digits hname hbefore hrun hvalue
    apply classify_eq_none_of_exceptionCount?
    intro e he
    have hlt : e.toNat < UInt64.size := e.toNat_lt
    rw [hname, exceptionCount?_eq_some_iff_trailingDigits,
      trailingDigits_append_of_noDigitLast hbefore hrun.2] at he
    omega
  · intro c hc hdigit
    apply classify_eq_none_of_exceptionCount?
    intro e he
    obtain ⟨before, digits, hname, -, ⟨hne, hdigits⟩, -⟩ := exceptionCount?_eq_some_iff.1 he
    rw [hname, List.getLast?_append_of_ne_nil _ hne] at hc
    rw [hdigits c (List.mem_of_getLast? hc)] at hdigit
    cases hdigit

/-- Both precisions and more zeros than a word has digits, the least number that fits
no word, and a digit that is not ASCII. -/
theorem classify_eq_some_iff_followsRules_awkward :
    classify "old_dblfloat_0000000000000000000012" = some ⟨12, .old, .float⟩ ∧
      classify "new_dbl18446744073709551616" = none ∧ classify "new_float_\u0663" = none := by
  refine ⟨?_, ?_, ?_⟩
  · apply ((classify_eq_some_iff_followsRules _).1 _).2
    refine ⟨by decide, occursIn_iff.1 (by decide), fun _ => rfl, "old_dblfloat_".toList,
      "0000000000000000000012".toList, rfl, ?_, by decide, by decide +kernel⟩
    rintro _ ⟨⟩
    rfl
  · refine (classify_eq_some_iff_followsRules _).2.2.1 "new_dbl".toList
      "18446744073709551616".toList rfl ?_ (by decide) (by decide +kernel)
    rintro _ ⟨⟩
    rfl
  · exact (classify_eq_some_iff_followsRules _).2.2.2 '\u0663' rfl rfl

end CycleComparison

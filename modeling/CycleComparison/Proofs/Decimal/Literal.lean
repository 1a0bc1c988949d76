import CycleComparison.Decimal.Numeral
import Mathlib.Data.List.TakeWhile

/-!
# Decimal literals

A decimal literal is a sign, digits with at most one point and at least one digit,
and an exponent; the sign and the exponent may be left out. `Numeral.Spells` says
this of a text and the parts of the number that it spells, piece by piece. Reading a
numeral accepts the literals and nothing else, and finds their parts.
-/

namespace CycleComparison

namespace Decimal

/-- A text with a sign before it; no sign counts as plus. -/
inductive Signed : Bool → List Char → List Char → Prop
  | bare (unsigned : List Char) : Signed false unsigned unsigned
  | plus (unsigned : List Char) : Signed false unsigned ('+' :: unsigned)
  | minus (unsigned : List Char) : Signed true unsigned ('-' :: unsigned)

theorem signed_splitSign (text : List Char) :
    Signed (splitSign text).1 (splitSign text).2 text := by
  unfold splitSign
  split <;> constructor

theorem splitSign_of_signed {negative : Bool} {unsigned text : List Char}
    (h : Signed negative unsigned text) (hhead : ∀ c ∈ unsigned.head?, c ≠ '+' ∧ c ≠ '-') :
    splitSign text = (negative, unsigned) := by
  cases h with
  | plus => rfl
  | minus => rfl
  | bare =>
      unfold splitSign
      split
      · exact absurd rfl (hhead '-' rfl).2
      · exact absurd rfl (hhead '+' rfl).1
      · rfl

theorem ne_sign_of_isDigit {c : Char} (h : c.isDigit) : c ≠ '+' ∧ c ≠ '-' := by
  constructor <;> rintro rfl <;> exact absurd h (by decide)

theorem IsRun.head_ne_sign {digits : List Char} (h : IsRun digits) :
    ∀ c ∈ digits.head?, c ≠ '+' ∧ c ≠ '-' := fun c hc =>
  ne_sign_of_isDigit (h.2 c (List.mem_of_mem_head? hc))

/-- No digit comes next. -/
def EndsDigits (rest : List Char) : Prop := ∀ c ∈ rest.head?, c.isDigit = false

theorem EndsDigits.takeWhile {rest : List Char} (h : EndsDigits rest) :
    rest.takeWhile Char.isDigit = [] := by
  cases rest with
  | nil => rfl
  | cons c rest => simp [h c rfl]

theorem EndsDigits.dropWhile {rest : List Char} (h : EndsDigits rest) :
    rest.dropWhile Char.isDigit = rest := by
  cases rest with
  | nil => rfl
  | cons c rest => simp [h c rfl]

/-- A whole number with a sign. -/
def withSign (negative : Bool) (n : Nat) : Int := if negative then -(n : Int) else n

/-- The texts of a whole number: digits after at most one sign. -/
def SpellsWhole (m : Int) (text : List Char) : Prop :=
  ∃ negative digits, Signed negative digits text ∧ IsRun digits ∧
    m = withSign negative (valueOf digits)

theorem natural?_eq_some_iff {digits : List Char} {n : Nat} :
    natural? digits = some n ↔ IsRun digits ∧ valueOf digits = n := by
  unfold natural?
  by_cases h : IsRun digits <;> simp [h]

theorem whole?_eq_some_iff {text : List Char} {m : Int} :
    whole? text = some m ↔ SpellsWhole m text := by
  unfold whole?
  constructor
  · intro h
    obtain ⟨n, hn, rfl⟩ := Option.map_eq_some_iff.1 h
    obtain ⟨hrun, rfl⟩ := natural?_eq_some_iff.1 hn
    exact ⟨_, _, signed_splitSign text, hrun, rfl⟩
  · rintro ⟨negative, digits, hsign, hrun, rfl⟩
    rw [splitSign_of_signed hsign hrun.head_ne_sign]
    simp only [natural?_eq_some_iff.2 ⟨hrun, rfl⟩, Option.map_some]
    rfl

end Decimal

namespace Numeral

open Decimal

/-- Digits with at most one point, and at least one digit before or after it. -/
inductive Pointed : List Char → List Char → List Char → Prop
  | bare {whole : List Char} (hwhole : IsRun whole) : Pointed whole [] whole
  | point {whole fraction : List Char} (hwhole : ∀ c ∈ whole, c.isDigit)
      (hfraction : ∀ c ∈ fraction, c.isDigit) (hne : ¬ (whole = [] ∧ fraction = [])) :
      Pointed whole fraction (whole ++ '.' :: fraction)

/-- The texts of an exponent: nothing, or a letter and a whole number. -/
inductive SpellsExponent : Option Int → List Char → Prop
  | absent : SpellsExponent none []
  | lower {e : Int} {text : List Char} (h : SpellsWhole e text) :
      SpellsExponent (some e) ('e' :: text)
  | upper {e : Int} {text : List Char} (h : SpellsWhole e text) :
      SpellsExponent (some e) ('E' :: text)

/-- The literals of a numeral. -/
def Spells (n : Numeral) (text : List Char) : Prop :=
  ∃ unsigned body rest, Signed n.negative unsigned text ∧ unsigned = body ++ rest ∧
    Pointed n.whole n.fraction body ∧ SpellsExponent n.exponent rest

theorem exponent?_eq_some_iff {text : List Char} {exponent : Option Int} :
    exponent? text = some exponent ↔ SpellsExponent exponent text := by
  constructor
  · intro h
    unfold exponent? at h
    split at h
    · cases h
      exact .absent
    · obtain ⟨e, he, rfl⟩ := Option.map_eq_some_iff.1 h
      exact .lower (whole?_eq_some_iff.1 he)
    · obtain ⟨e, he, rfl⟩ := Option.map_eq_some_iff.1 h
      exact .upper (whole?_eq_some_iff.1 he)
    · cases h
  · intro h
    cases h with
    | absent => rfl
    | lower h => exact congrArg (Option.map some) (whole?_eq_some_iff.2 h)
    | upper h => exact congrArg (Option.map some) (whole?_eq_some_iff.2 h)

theorem SpellsExponent.endsDigits {exponent : Option Int} {rest : List Char}
    (h : SpellsExponent exponent rest) : EndsDigits rest := by
  cases h with
  | absent => nofun
  | lower => rintro _ ⟨⟩; rfl
  | upper => rintro _ ⟨⟩; rfl

theorem SpellsExponent.head_ne_point {exponent : Option Int} {rest : List Char}
    (h : SpellsExponent exponent rest) : rest.head? ≠ some '.' := by
  cases h <;> nofun

/-- The digits around the point are split off before what does not go on with them. -/
theorem splitPoint_of_pointed {whole fraction body rest : List Char}
    (h : Pointed whole fraction body) (hrest : EndsDigits rest) (hpoint : rest.head? ≠ some '.') :
    splitPoint (body ++ rest) = (whole, fraction, rest) := by
  unfold splitPoint
  cases h with
  | bare hwhole =>
      rw [List.takeWhile_append_of_pos hwhole.2, List.dropWhile_append_of_pos hwhole.2,
        hrest.takeWhile, hrest.dropWhile, List.append_nil]
      split
      · exact absurd rfl hpoint
      · rfl
  | point hwhole hfraction hne =>
      have hends : EndsDigits ('.' :: (fraction ++ rest)) := by rintro _ ⟨⟩; rfl
      rw [List.append_assoc, List.takeWhile_append_of_pos hwhole,
        List.dropWhile_append_of_pos hwhole, List.cons_append, hends.takeWhile, hends.dropWhile,
        List.append_nil]
      simp only [List.takeWhile_append_of_pos hfraction, List.dropWhile_append_of_pos hfraction,
        hrest.takeWhile, hrest.dropWhile, List.append_nil]

theorem exists_pointed_splitPoint (text : List Char)
    (h : ¬ ((splitPoint text).1 = [] ∧ (splitPoint text).2.1 = [])) :
    ∃ body, text = body ++ (splitPoint text).2.2 ∧
      Pointed (splitPoint text).1 (splitPoint text).2.1 body := by
  have hsplit : text = text.takeWhile Char.isDigit ++ text.dropWhile Char.isDigit :=
    (List.takeWhile_append_dropWhile).symm
  have hwhole : ∀ c ∈ text.takeWhile Char.isDigit, c.isDigit := fun c hc =>
    List.mem_takeWhile_imp hc
  unfold splitPoint at h ⊢
  generalize text.takeWhile Char.isDigit = whole at *
  generalize text.dropWhile Char.isDigit = tail at *
  simp only at h ⊢
  split at h
  · rename_i rest
    simp only at h ⊢
    refine ⟨whole ++ '.' :: rest.takeWhile Char.isDigit, ?_,
      .point hwhole (fun c hc => List.mem_takeWhile_imp hc) h⟩
    rw [hsplit, List.append_assoc, List.cons_append, List.takeWhile_append_dropWhile]
  · exact ⟨whole, hsplit, .bare ⟨fun hnil => h ⟨hnil, rfl⟩, hwhole⟩⟩

theorem Pointed.head_ne_sign {whole fraction body : List Char} (h : Pointed whole fraction body)
    (rest : List Char) : ∀ c ∈ (body ++ rest).head?, c ≠ '+' ∧ c ≠ '-' := by
  intro c hc
  cases h with
  | bare hwhole =>
      cases whole with
      | nil => exact absurd rfl hwhole.1
      | cons digit whole => exact hwhole.head_ne_sign c hc
  | point hwhole hfraction hne =>
      cases whole with
      | nil =>
          cases hc
          decide
      | cons digit whole =>
          obtain rfl : digit = c := Option.some.inj hc
          exact ne_sign_of_isDigit (hwhole digit List.mem_cons_self)

theorem Pointed.not_nil {whole fraction body : List Char} (h : Pointed whole fraction body) :
    ¬ (whole = [] ∧ fraction = []) := by
  cases h with
  | bare hwhole => exact fun h => hwhole.1 h.1
  | point _ _ hne => exact hne

/-- Reading accepts the decimal literals and finds their parts. -/
theorem ofText?_eq_some_iff {text : List Char} {n : Numeral} :
    ofText? text = some n ↔ n.Spells text := by
  unfold ofText?
  constructor
  · intro h
    simp only at h
    split at h
    · cases h
    · rename_i hne
      obtain ⟨exponent, hexponent, rfl⟩ := Option.map_eq_some_iff.1 h
      obtain ⟨body, hbody, hpointed⟩ := exists_pointed_splitPoint _ hne
      exact ⟨_, body, _, signed_splitSign text, hbody, hpointed,
        exponent?_eq_some_iff.1 hexponent⟩
  · obtain ⟨negative, whole, fraction, exponent⟩ := n
    rintro ⟨unsigned, body, rest, hsign, rfl, hpointed, hexponent⟩
    rw [splitSign_of_signed hsign (hpointed.head_ne_sign rest)]
    simp only [splitPoint_of_pointed hpointed hexponent.endsDigits hexponent.head_ne_point,
      if_neg hpointed.not_nil, exponent?_eq_some_iff.2 hexponent, Option.map_some]

theorem Spells.unique {text : List Char} {n n' : Numeral} (h : n.Spells text)
    (h' : n'.Spells text) : n = n' :=
  Option.some.inj ((ofText?_eq_some_iff.2 h).symm.trans (ofText?_eq_some_iff.2 h'))

end Numeral

end CycleComparison

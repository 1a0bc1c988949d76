import CycleComparison.Measurement.Basic
import CycleComparison.Proofs.Binary64.Nearest

/-!
# Ids and their values

An id cell holds an id only if it is a decimal literal. Digits with a sign that fit a
word are the id itself. Every other literal is first rounded to a binary64 number,
and the id is that number: it is as near to the value of the literal as such a number
can be, but it need not be the value. It is for whole numbers up to `2 ^ 53`, and a
literal with few digits is refused if it is no whole number.
-/

namespace CycleComparison

open Decimal

theorem bind_int64OfInt?_eq_some_iff {found : Option Int} {id : Int64} :
    found.bind int64OfInt? = some id ↔ found = some id.toInt := by
  constructor
  · intro h
    obtain ⟨m, rfl, hm⟩ := Option.bind_eq_some_iff.1 h
    rw [toInt_of_int64OfInt? hm]
  · rintro rfl
    rw [Option.bind_some, int64OfInt?_toInt]

/-- Digits with a sign whose value fits a word. -/
def SpellsId (text : List Char) : Prop := ∃ id : Int64, SpellsWhole id.toInt text

section Cell

variable {cell : String} {id : Int64}

/-- An id that is written with digits and a sign is read as it is. -/
theorem idOfText?_of_spellsWhole (h : SpellsWhole id.toInt (trim cell).toList) :
    idOfText? cell = some id := by
  simp only [idOfText?, bind_int64OfInt?_eq_some_iff.2 (whole?_eq_some_iff.2 h)]

/-- Every other cell goes through a binary64 number. -/
theorem idOfText?_of_not_spellsId (h : ¬ SpellsId (trim cell).toList) :
    idOfText? cell = some id ↔
      (Binary64.ofText? (trim cell).toList).bind Binary64.whole? = some id.toInt := by
  have hnone : (whole? (trim cell).toList).bind int64OfInt? = none := by
    refine Option.eq_none_iff_forall_ne_some.2 fun id hid => h ⟨id, ?_⟩
    exact whole?_eq_some_iff.1 (bind_int64OfInt?_eq_some_iff.1 hid)
  simp only [idOfText?, hnone, bind_int64OfInt?_eq_some_iff]

theorem idOfText?_eq_some_iff_nearest {n : Numeral} (h : n.Spells (trim cell).toList)
    (hnot : ¬ SpellsId (trim cell).toList) :
    idOfText? cell = some id ↔ n.nearest.value? = some (id.toInt : ℚ) := by
  rw [idOfText?_of_not_spellsId hnot,
    Binary64.ofText?_of_numeral (Numeral.ofText?_eq_some_iff.2 h), Option.bind_some,
    Binary64.whole?_eq_some_iff]

/-- The names of numbers are no whole numbers. -/
theorem whole?_of_named? {negative : Bool} {word : List Char} {x : Binary64}
    (h : Binary64.named? negative word = some x) : x.whole? = none := by
  unfold Binary64.named? at h
  split at h <;> cases h <;> rfl

/-- A cell that is no literal holds no id. -/
theorem idOfText?_of_not_spells (h : ¬ ∃ n : Numeral, n.Spells (trim cell).toList) :
    idOfText? cell = none := by
  have hnumeral : Numeral.ofText? (trim cell).toList = none :=
    Option.eq_none_iff_forall_ne_some.2 fun n hn => h ⟨n, Numeral.ofText?_eq_some_iff.1 hn⟩
  have hnot : ¬ SpellsId (trim cell).toList := by
    rintro ⟨id, hid⟩
    obtain ⟨n, hn, -⟩ := Numeral.exists_spells_of_spellsWhole hid
    exact h ⟨n, hn⟩
  refine Option.eq_none_iff_forall_ne_some.2 fun id hid => ?_
  obtain ⟨x, hx, hwhole⟩ := Option.bind_eq_some_iff.1 ((idOfText?_of_not_spellsId hnot).1 hid)
  rw [Binary64.ofText?, hnumeral] at hx
  rw [whole?_of_named? hx] at hwhole
  cases hwhole

end Cell

/-- What a cell holds as an id. A cell that is no literal holds none. For a literal the
id is the value, and there is none if the value is no whole number in range, exactly
if the literal is digits and a sign or if rounding its value to a binary64 number does
not make or unmake an id. The id is the value up to this rounding: no finite number is
nearer to the value. Whole numbers up to `2 ^ 53` are read right however they are
written, and so are all literals in this range with a significand below `2 ^ 53` and
an exponent from `-323` on. -/
theorem idOfText?_eq_value_iff (cell : String) :
    let text := (trim cell).toList
    ((¬ ∃ n : Numeral, n.Spells text) → idOfText? cell = none) ∧
    ∀ n : Numeral, n.Spells text →
      ((∀ id : Int64, idOfText? cell = some id ↔ n.value = id.toInt) ↔
        SpellsId text ∨
          ∀ id : Int64, n.nearest.value? = some (id.toInt : ℚ) ↔ n.value = id.toInt) ∧
      (∀ id : Int64, idOfText? cell = some id → ∀ (x : Binary64) (y : ℚ), x.value? = some y →
        |n.value - id.toInt| ≤ |n.value - y|) ∧
      (|n.value| ≤ 2 ^ 53 → ∀ id : Int64, n.value = id.toInt → idOfText? cell = some id) ∧
      (|n.value| ≤ 2 ^ 53 → n.toDecimal.significand < 2 ^ 53 → -323 ≤ n.toDecimal.exponent →
        ∀ id : Int64, idOfText? cell = some id ↔ n.value = id.toInt) := by
  refine ⟨idOfText?_of_not_spells, fun n hn => ?_⟩
  by_cases hplain : SpellsId (trim cell).toList
  · have ⟨id, hid⟩ := hplain
    have hcell := idOfText?_of_spellsWhole hid
    have hvalue := Numeral.value_of_spellsWhole hn hid
    have hexact (other : Int64) : idOfText? cell = some other ↔ n.value = other.toInt := by
      rw [hcell, hvalue, Option.some.injEq, Int.cast_inj, Int64.toInt_inj]
    refine ⟨iff_of_true hexact (.inl hplain), fun other hother x y _ => ?_,
      fun _ other => (hexact other).2, fun _ _ _ => hexact⟩
    rw [(hexact other).1 hother, sub_self, abs_zero]
    exact abs_nonneg _
  · have hread (id : Int64) : idOfText? cell = some id ↔ n.nearest.value? = some (id.toInt : ℚ) :=
      idOfText?_eq_some_iff_nearest hn hplain
    refine ⟨?_, fun id hid x y hx => ?_, fun hle id hid => ?_, fun hle hsig hlow id => ?_⟩
    · simp only [hread, hplain, false_or]
    · exact Numeral.abs_sub_le_of_value?_nearest ((hread id).1 hid) hx
    · exact (hread id).2 (Numeral.value?_nearest_of_value hle hid)
    · rw [hread]
      exact ⟨Numeral.value_eq_of_value?_nearest hle hsig hlow, Numeral.value?_nearest_of_value hle⟩

/-- A literal with a point and an exponent, one with a fraction, and a name. -/
theorem idOfText?_eq_value_iff_of_scaled :
    idOfText? " -30.50e+1 " = some (-305) ∧ idOfText? "2.5e0" = none ∧ idOfText? "inf" = none := by
  have hscaled : Numeral.Spells ⟨true, ['3', '0'], ['5', '0'], some 1⟩
      (trim " -30.50e+1 ").toList :=
    Numeral.ofText?_eq_some_iff.1 (by decide +kernel)
  have hhalf : Numeral.Spells ⟨false, ['2'], ['5'], some 0⟩ (trim "2.5e0").toList :=
    Numeral.ofText?_eq_some_iff.1 (by decide +kernel)
  have hname : ¬ ∃ n : Numeral, n.Spells (trim "inf").toList := by
    rintro ⟨n, hn⟩
    have hnone : Numeral.ofText? (trim "inf").toList = none := by decide +kernel
    cases hnone.symm.trans (Numeral.ofText?_eq_some_iff.2 hn)
  have hden : Rat.den (Numeral.value ⟨false, ['2'], ['5'], some 0⟩) = 2 := by decide +kernel
  refine ⟨?_, ?_, (idOfText?_eq_value_iff "inf").1 hname⟩
  · exact ((idOfText?_eq_value_iff " -30.50e+1 ").2 _ hscaled).2.2.1 (by decide +kernel) (-305)
      (by decide +kernel)
  · have hread := ((idOfText?_eq_value_iff "2.5e0").2 _ hhalf).2.2.2 (by decide +kernel)
      (by decide +kernel) (by decide +kernel)
    refine Option.eq_none_iff_forall_ne_some.2 fun id hid => ?_
    rw [(hread id).1 hid, Rat.den_intCast] at hden
    cases hden

/-- A fraction below half a unit in the last place is lost, and a whole number of more
than 53 bits is changed if it is written with a point. -/
theorem exists_idOfText?_ne_value :
    (∃ n : Numeral, n.Spells (trim "3.00000000000000000001").toList ∧ n.value.den ≠ 1 ∧
      idOfText? "3.00000000000000000001" = some 3) ∧
    ∃ n : Numeral, n.Spells (trim "9007199254740993.0").toList ∧
      n.value = (9007199254740993 : Int64).toInt ∧
      idOfText? "9007199254740993.0" = some 9007199254740992 := by
  refine ⟨⟨⟨false, ['3'], "00000000000000000001".toList, none⟩, ?_, ?_, ?_⟩,
    ⟨⟨false, "9007199254740993".toList, ['0'], none⟩, ?_, ?_, ?_⟩⟩
  · exact Numeral.ofText?_eq_some_iff.1 (by decide +kernel)
  · decide +kernel
  · decide +kernel
  · exact Numeral.ofText?_eq_some_iff.1 (by decide +kernel)
  · decide +kernel
  · decide +kernel

end CycleComparison

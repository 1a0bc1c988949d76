import CycleComparison.Delimited.Reader
import CycleComparison.Proofs.Text.Trim

/-!
# Bytes of texts

An ASCII character is encoded as one byte below `0x80` and every other one by
bytes from `0x80` on. So what is decided on bytes that are ASCII, as trimming
blank bytes and doubling quotes, can be said on characters.
-/

namespace CycleComparison

namespace Utf8

theorem encodeChar_of_lt {c : Char} (h : c.toNat < 0x80) :
    String.utf8EncodeChar c = [UInt8.ofNat c.toNat] := by
  have hle : c.val.toNat ≤ 0x7f := Nat.le_of_lt_succ h
  unfold String.utf8EncodeChar
  simp only [hle, if_true]
  rfl

theorem toNat_ofNat {n : Nat} (h : n.isValidChar) : (Char.ofNat n).toNat = n := by
  unfold Char.ofNat
  rw [dif_pos h]
  rfl

theorem le_of_mem_encodeChar {c : Char} (h : 0x80 ≤ c.toNat) {b : UInt8}
    (hb : b ∈ String.utf8EncodeChar c) : 0x80 ≤ b.toNat := by
  have hnle : ¬ c.val.toNat ≤ 0x7f := Nat.not_le.2 h
  have hmax : c.val.toNat < 0x110000 := toNat_lt c
  unfold String.utf8EncodeChar at hb
  simp only [hnle, if_false] at hb
  split at hb
  · simp only [List.mem_cons, List.not_mem_nil, or_false] at hb
    rcases hb with rfl | rfl <;> simp only [UInt8.toNat_ofNat'] <;> omega
  · split at hb
    · simp only [List.mem_cons, List.not_mem_nil, or_false] at hb
      rcases hb with rfl | rfl | rfl <;> simp only [UInt8.toNat_ofNat'] <;> omega
    · simp only [List.mem_cons, List.not_mem_nil, or_false] at hb
      rcases hb with rfl | rfl | rfl | rfl <;> simp only [UInt8.toNat_ofNat'] <;> omega

theorem encode_cons (c : Char) (text : List Char) :
    encode (c :: text) = String.utf8EncodeChar c ++ encode text := rfl

theorem encode_append (s t : List Char) : encode (s ++ t) = encode s ++ encode t := by
  unfold encode
  rw [List.flatMap_append]

/-- A character that is encoded as a blank byte. -/
def isBlankAscii (c : Char) : Bool := c.toNat < 0x80 && isBlankByte (UInt8.ofNat c.toNat)

theorem isBlank_of_isBlankAscii {c : Char} (h : isBlankAscii c) : isBlank c := by
  have hb : c.toNat < 0x80 ∧ isBlankByte (UInt8.ofNat c.toNat) := by
    simpa [isBlankAscii] using h
  obtain ⟨hlt, hb⟩ := hb
  simp only [isBlankByte, Bool.or_eq_true, beq_iff_eq, ← UInt8.toNat_inj,
    UInt8.toNat_ofNat'] at hb
  simp only [isBlank, Bool.or_eq_true, Bool.and_eq_true, beq_iff_eq, decide_eq_true_eq]
  simp at hb
  omega

theorem not_isBlankByte_of_le {b : UInt8} (h : 0x80 ≤ b.toNat) : ¬ isBlankByte b := by
  simp only [isBlankByte, Bool.or_eq_true, beq_iff_eq, ← UInt8.toNat_inj]
  simp
  omega

/-- The bytes of a character are all blank or not blank at all. -/
theorem isBlankByte_of_mem_encodeChar {c : Char} {b : UInt8}
    (hb : b ∈ String.utf8EncodeChar c) : isBlankByte b = isBlankAscii c := by
  by_cases hc : c.toNat < 0x80
  · rw [encodeChar_of_lt hc, List.mem_singleton] at hb
    simp [isBlankAscii, hc, hb]
  · have hle : 0x80 ≤ c.toNat := Nat.le_of_not_lt hc
    have hnot := not_isBlankByte_of_le (le_of_mem_encodeChar hle hb)
    simp [isBlankAscii, hc, hnot]

theorem encodeChar_ne_nil (c : Char) : String.utf8EncodeChar c ≠ [] := by
  have hpos : 0 < (String.utf8EncodeChar c).length := by
    simp [Char.utf8Size_pos]
  exact List.length_pos_iff.1 hpos

theorem stripEnds_encode (text : List Char) :
    stripEnds isBlankByte (encode text) = encode (stripEnds isBlankAscii text) :=
  stripEnds_flatMap encodeChar_ne_nil (fun _ _ => isBlankByte_of_mem_encodeChar) text

end Utf8

namespace Delimited

/-- Bytes that encode a text. -/
def IsText (bytes : List UInt8) : Prop := ∃ text, Utf8.encode text = bytes

theorem IsText.append {a b : List UInt8} (ha : IsText a) (hb : IsText b) : IsText (a ++ b) := by
  obtain ⟨s, rfl⟩ := ha
  obtain ⟨t, rfl⟩ := hb
  exact ⟨s ++ t, Utf8.encode_append s t⟩

theorem IsText.flatMap {α : Type} {f : α → List UInt8} {l : List α} (h : ∀ a ∈ l, IsText (f a)) :
    IsText (l.flatMap f) := by
  induction l with
  | nil => exact ⟨[], rfl⟩
  | cons a rest ih =>
      rw [List.flatMap_cons]
      exact (h a List.mem_cons_self).append (ih fun x hx => h x (List.mem_cons_of_mem _ hx))

theorem IsText.ascii {b : UInt8} (h : b < 0x80) : IsText [b] := by
  have hb : b.toNat < 0x80 := UInt8.lt_iff_toNat_lt.1 h
  have hc : (Char.ofNat b.toNat).toNat = b.toNat :=
    Utf8.toNat_ofNat (.inl (Nat.lt_trans hb (by decide)))
  refine ⟨[Char.ofNat b.toNat], ?_⟩
  rw [Utf8.encode_cons, Utf8.encodeChar_of_lt (by rw [hc]; exact hb), hc, UInt8.ofNat_toNat]
  rfl

/-- A field is read as its text, trimmed if the fields are. Trimming blank bytes
first is of no consequence. -/
theorem decodeField_encodeUtf8 (trimmed : Bool) (text : String) :
    decodeField trimmed (encodeUtf8 text) = .ok (if trimmed then trim text else text) := by
  unfold decodeField
  cases trimmed with
  | false => rw [if_neg Bool.false_ne_true, if_neg Bool.false_ne_true, decodeUtf8_encodeUtf8]
  | true =>
      have hstrip : stripEnds isBlankByte (encodeUtf8 text) =
          encodeUtf8 (String.ofList (stripEnds Utf8.isBlankAscii text.toList)) := by
        unfold encodeUtf8
        rw [Utf8.stripEnds_encode, String.toList_ofList]
      rw [if_pos rfl, if_pos rfl, hstrip, decodeUtf8_encodeUtf8]
      have htrim : trim (String.ofList (stripEnds Utf8.isBlankAscii text.toList)) = trim text := by
        unfold trim
        rw [String.toList_ofList,
          stripEnds_stripEnds_of_imp fun _ => Utf8.isBlank_of_isBlankAscii]
      exact congrArg Except.ok htrim

end Delimited

end CycleComparison

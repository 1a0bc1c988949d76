import CycleComparison.Proofs.Text.Utf8
import Mathlib.Data.List.Lex
import Mathlib.Data.String.Basic
import Mathlib.Order.Monotone.Basic

/-!
# The order of texts is that of their bytes

The first byte of a character tells how many bytes follow it: the more there are, the
greater it is. The bytes that follow carry the last digits of the code point to the base
64, the highest in front. So of two characters the one with the smaller code point has
the smaller byte at the first place where their encodings differ, and neither encoding
is a beginning of the other. Texts are compared character by character, hence byte by byte.
-/

namespace CycleComparison

namespace Utf8

/-- The bytes after the first, if there are `n`: the last digits of a code point to the
base 64. -/
def continuationBytes (code : Nat) : Nat → List UInt8
  | 0 => []
  | n + 1 => UInt8.ofNat (code / 64 ^ n % 64 + 0x80) :: continuationBytes code n

/-- The least first byte of a form in which `n` bytes follow; none has more than three. -/
def leadingMark : Nat → Nat
  | 0 => 0
  | 1 => 0xC0
  | 2 => 0xE0
  | 3 => 0xF0
  | _ => 0xF8

/-- The least code point that needs a form in which `n` bytes follow. -/
def leastCode : Nat → Nat
  | 0 => 0
  | 1 => 0x80
  | 2 => 0x800
  | 3 => 0x10000
  | _ => 0x110000

theorem leadingMark_monotone : Monotone leadingMark :=
  monotone_nat_of_le_succ fun
    | 0 | 1 | 2 | 3 => by decide
    | _ + 4 => le_rfl

theorem leastCode_monotone : Monotone leastCode :=
  monotone_nat_of_le_succ fun
    | 0 | 1 | 2 | 3 => by decide
    | _ + 4 => le_rfl

theorem leadingMark_le_size (n : Nat) : leadingMark n ≤ UInt8.size := by
  unfold leadingMark
  split <;> decide

/-- The encoding of a character has `n` bytes after the first. -/
structure HasForm (c : Char) (n : Nat) : Prop where
  least : leastCode n ≤ c.toNat
  lt : c.toNat < leastCode (n + 1)
  leading : leadingMark n + c.toNat / 64 ^ n < leadingMark (n + 1)
  encode_eq : String.utf8EncodeChar c =
    UInt8.ofNat (leadingMark n + c.toNat / 64 ^ n) :: continuationBytes c.toNat n

theorem exists_hasForm (c : Char) : ∃ n, HasForm c n := by
  have hval : c.val.toNat = c.toNat := rfl
  have hmax := toNat_lt c
  by_cases hone : c.toNat < 0x80
  · refine ⟨0, Nat.zero_le _, hone, ?_, ?_⟩
    · simp only [leadingMark, Nat.pow_zero, Nat.div_one]
      omega
    · simp only [encodeChar_of_lt hone, leadingMark, continuationBytes, Nat.zero_add, Nat.pow_zero,
        Nat.div_one]
  by_cases htwo : c.toNat < 0x800
  · refine ⟨1, Nat.not_lt.1 hone, htwo, ?_, ?_⟩
    · simp only [leadingMark, Nat.reducePow]
      omega
    · simp only [String.utf8EncodeChar, hval, leadingMark, continuationBytes, Nat.reducePow,
        Nat.div_one]
      rw [if_neg (by omega), if_pos (by omega),
        Nat.mod_eq_of_lt (show c.toNat / 64 < 32 by omega), Nat.add_comm 0xC0]
  by_cases hthree : c.toNat < 0x10000
  · refine ⟨2, Nat.not_lt.1 htwo, hthree, ?_, ?_⟩
    · simp only [leadingMark, Nat.reducePow]
      omega
    · simp only [String.utf8EncodeChar, hval, leadingMark, continuationBytes, Nat.reducePow,
        Nat.div_one]
      rw [if_neg (by omega), if_neg (by omega), if_pos (by omega),
        Nat.mod_eq_of_lt (show c.toNat / 4096 < 16 by omega), Nat.add_comm 0xE0]
  · refine ⟨3, Nat.not_lt.1 hthree, hmax, ?_, ?_⟩
    · simp only [leadingMark, Nat.reducePow]
      omega
    · simp only [String.utf8EncodeChar, hval, leadingMark, continuationBytes, Nat.reducePow,
        Nat.div_one]
      rw [if_neg (by omega), if_neg (by omega), if_neg (by omega),
        Nat.mod_eq_of_lt (show c.toNat / 262144 < 8 by omega), Nat.add_comm 0xF0]

theorem continuationBytes_append_lt {v w n : Nat} (h : v % 64 ^ n < w % 64 ^ n)
    (r s : List UInt8) : continuationBytes v n ++ r < continuationBytes w n ++ s := by
  induction n with
  | zero => simp [Nat.mod_one] at h
  | succ n ih =>
      have hbyte (code : Nat) : code / 64 ^ n % 64 + 0x80 < UInt8.size :=
        calc code / 64 ^ n % 64 + 0x80
            < 64 + 0x80 := Nat.add_lt_add_right (Nat.mod_lt _ (by decide)) _
          _ ≤ UInt8.size := by decide
      rw [Nat.mod_pow_succ, Nat.mod_pow_succ] at h
      simp only [continuationBytes, List.cons_append, List.cons_lt_cons_iff,
        UInt8.ofNat_lt_iff_lt (hbyte v) (hbyte w)]
      rcases lt_trichotomy (v / 64 ^ n % 64) (w / 64 ^ n % 64) with hlt | heq | hgt
      · exact .inl (Nat.add_lt_add_right hlt _)
      · rw [heq] at h ⊢
        exact .inr ⟨rfl, ih (Nat.lt_of_add_lt_add_right h)⟩
      · -- a digit outweighs all that follow it
        have hrest : w % 64 ^ n < 64 ^ n := Nat.mod_lt w (Nat.pow_pos (by decide))
        have hdigit := Nat.mul_le_mul_left (64 ^ n) hgt
        rw [Nat.mul_succ] at hdigit
        omega

/-- The characters are ordered as their encodings, whatever follows them. -/
theorem encodeChar_append_lt {c d : Char} (h : c < d) (r s : List UInt8) :
    String.utf8EncodeChar c ++ r < String.utf8EncodeChar d ++ s := by
  obtain ⟨m, hc⟩ := exists_hasForm c
  obtain ⟨n, hd⟩ := exists_hasForm d
  have hcode : c.toNat < d.toNat := h
  rw [hc.encode_eq, hd.encode_eq, List.cons_append, List.cons_append, List.cons_lt_cons_iff,
    UInt8.ofNat_lt_iff_lt (hc.leading.trans_le (leadingMark_le_size _))
      (hd.leading.trans_le (leadingMark_le_size _))]
  rcases lt_trichotomy m n with hlt | rfl | hgt
  · left
    calc leadingMark m + c.toNat / 64 ^ m
        < leadingMark (m + 1) := hc.leading
      _ ≤ leadingMark n := leadingMark_monotone hlt
      _ ≤ leadingMark n + d.toNat / 64 ^ n := Nat.le_add_right _ _
  · rcases (Nat.div_le_div_right hcode.le : c.toNat / 64 ^ m ≤ d.toNat / 64 ^ m).lt_or_eq
      with hlt | heq
    · exact .inl (Nat.add_lt_add_left hlt _)
    · refine .inr ⟨by rw [heq], continuationBytes_append_lt ?_ r s⟩
      rw [← Nat.div_add_mod c.toNat (64 ^ m), ← Nat.div_add_mod d.toNat (64 ^ m), heq] at hcode
      exact Nat.lt_of_add_lt_add_left hcode
  · exact absurd (hd.lt.trans_le ((leastCode_monotone hgt).trans hc.least)) hcode.le.not_gt

theorem encode_lt_encode {s t : List Char} (h : s < t) : encode s < encode t := by
  induction h with
  | @nil d t =>
      obtain ⟨b, bytes, hb⟩ := List.exists_cons_of_ne_nil (encodeChar_ne_nil d)
      rw [encode_cons, hb]
      exact List.nil_lt_cons b _
  | rel h => exact encodeChar_append_lt h _ _
  | @cons c s t _ ih => exact List.append_left_lt ih

/-- Texts are ordered as their encodings. -/
theorem encode_lt_encode_iff {s t : List Char} : encode s < encode t ↔ s < t := by
  refine ⟨fun h => ?_, encode_lt_encode⟩
  rcases lt_trichotomy s t with hlt | rfl | hgt
  · exact hlt
  · exact absurd h (List.lt_irrefl _)
  · exact absurd h (List.lt_asymm (encode_lt_encode hgt))

end Utf8

theorem encodeUtf8_lt_encodeUtf8_iff {a b : String} : encodeUtf8 a < encodeUtf8 b ↔ a < b := by
  rw [String.lt_iff_toList_lt]
  exact Utf8.encode_lt_encode_iff

end CycleComparison

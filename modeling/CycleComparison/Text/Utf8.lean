/-!
# UTF-8

`decodeUtf8` reads bytes as characters and fails with the length of the valid
beginning: the place of the first byte that starts no character. A character is
accepted only in its shortest form, so each text has one encoding, and
`decodeUtf8_encodeUtf8` says that it is read back from it.
-/

namespace CycleComparison

namespace Utf8

/-- The value of a byte that continues a character. -/
def continuation? (b : UInt8) : Option Nat :=
  if 0x80 ≤ b ∧ b ≤ 0xBF then some (b.toNat - 0x80) else none

/-- The character of a code point that needs a form of this length: it is at
least `least`, and no surrogate. -/
def scalar? (least n : Nat) : Option Char :=
  if least ≤ n ∧ n.isValidChar then some (Char.ofNat n) else none

/-- The first character of some bytes, and the bytes after it. -/
def decodeChar? : List UInt8 → Option (Char × List UInt8)
  | [] => none
  | a :: rest =>
      if a < 0x80 then some (Char.ofNat a.toNat, rest)
      else if 0xC0 ≤ a ∧ a < 0xE0 then
        match rest with
        | b :: rest => do
            let n := (a.toNat - 0xC0) * 64 + (← continuation? b)
            return (← scalar? 0x80 n, rest)
        | _ => none
      else if 0xE0 ≤ a ∧ a < 0xF0 then
        match rest with
        | b :: c :: rest => do
            let n := ((a.toNat - 0xE0) * 64 + (← continuation? b)) * 64 + (← continuation? c)
            return (← scalar? 0x800 n, rest)
        | _ => none
      else if 0xF0 ≤ a ∧ a < 0xF8 then
        match rest with
        | b :: c :: d :: rest => do
            let n := (((a.toNat - 0xF0) * 64 + (← continuation? b)) * 64
              + (← continuation? c)) * 64 + (← continuation? d)
            return (← scalar? 0x10000 n, rest)
        | _ => none
      else none

/-- Reads at most `bound` characters. -/
def decodeWithin : Nat → List UInt8 → Except Nat (List Char)
  | _, [] => .ok []
  | 0, _ :: _ => .error 0
  | bound + 1, bytes =>
      match decodeChar? bytes with
      | none => .error 0
      | some (c, rest) =>
          match decodeWithin bound rest with
          | .ok cs => .ok (c :: cs)
          | .error valid => .error (c.utf8Size + valid)

def encode (text : List Char) : List UInt8 := text.flatMap String.utf8EncodeChar

theorem toNat_lt (c : Char) : c.toNat < 0x110000 := by
  rcases c.valid with h | h
  · exact Nat.lt_trans h (by decide)
  · exact h.2

/-- A byte that continues a character carries six bits of it. -/
theorem continuation?_eq {b : UInt8} {n : Nat} (hb : b.toNat = 0x80 + n) (hn : n < 64) :
    continuation? b = some n := by
  have hrange : 0x80 ≤ b ∧ b ≤ 0xBF := by
    simp only [UInt8.le_iff_toNat_le, hb]
    exact ⟨Nat.le_add_right _ _, Nat.add_le_add_left (Nat.le_of_lt_succ hn) 0x80⟩
  simp [continuation?, hrange, hb]

/-- The code point of a character is that of a character. -/
theorem scalar?_toNat (c : Char) {least : Nat} (h : least ≤ c.toNat) :
    scalar? least c.toNat = some c := by
  have hvalid : c.toNat.isValidChar := c.valid
  simp [scalar?, h, hvalid]

theorem decodeChar?_one {a : UInt8} {c : Char} (ha : a.toNat = c.toNat) (hc : c.toNat < 0x80)
    (rest : List UInt8) : decodeChar? (a :: rest) = some (c, rest) := by
  have hlt : a < 0x80 := by
    rw [UInt8.lt_iff_toNat_lt, ha]
    exact hc
  simp [decodeChar?, hlt, ha]

theorem decodeChar?_two {a b : UInt8} {c : Char} {m n : Nat} (ha : a.toNat = 0xC0 + m)
    (hb : b.toNat = 0x80 + n) (hm : m < 32) (hn : n < 64) (hc : m * 64 + n = c.toNat)
    (hleast : 0x80 ≤ c.toNat) (rest : List UInt8) :
    decodeChar? (a :: b :: rest) = some (c, rest) := by
  have hnlt : ¬ a < 0x80 := by
    rw [UInt8.lt_iff_toNat_lt, ha]
    exact Nat.not_lt.2 (by simp; omega)
  have hin : 0xC0 ≤ a ∧ a < 0xE0 := by
    rw [UInt8.le_iff_toNat_le, UInt8.lt_iff_toNat_lt, ha]
    exact ⟨Nat.le_add_right _ _, Nat.add_lt_add_left hm 0xC0⟩
  have hsum : (a.toNat - 0xC0) * 64 + n = c.toNat := by omega
  simp [decodeChar?, hnlt, hin, continuation?_eq hb hn, hsum, scalar?_toNat c hleast]

theorem decodeChar?_three {a b d : UInt8} {c : Char} {m n k : Nat} (ha : a.toNat = 0xE0 + m)
    (hb : b.toNat = 0x80 + n) (hd : d.toNat = 0x80 + k) (hm : m < 16) (hn : n < 64) (hk : k < 64)
    (hc : (m * 64 + n) * 64 + k = c.toNat) (hleast : 0x800 ≤ c.toNat) (rest : List UInt8) :
    decodeChar? (a :: b :: d :: rest) = some (c, rest) := by
  have hnlt : ¬ a < 0x80 := by
    rw [UInt8.lt_iff_toNat_lt, ha]
    exact Nat.not_lt.2 (by simp; omega)
  have hntwo : ¬ a < 0xE0 := by
    rw [UInt8.lt_iff_toNat_lt, ha]
    exact Nat.not_lt.2 (by simp)
  have hin : 0xE0 ≤ a ∧ a < 0xF0 := by
    rw [UInt8.le_iff_toNat_le, UInt8.lt_iff_toNat_lt, ha]
    exact ⟨Nat.le_add_right _ _, Nat.add_lt_add_left hm 0xE0⟩
  have hsum : ((a.toNat - 0xE0) * 64 + n) * 64 + k = c.toNat := by omega
  simp [decodeChar?, hnlt, hntwo, hin, continuation?_eq hb hn, continuation?_eq hd hk, hsum,
    scalar?_toNat c hleast]

theorem decodeChar?_four {a b d e : UInt8} {c : Char} {m n k l : Nat} (ha : a.toNat = 0xF0 + m)
    (hb : b.toNat = 0x80 + n) (hd : d.toNat = 0x80 + k) (he : e.toNat = 0x80 + l) (hm : m < 8)
    (hn : n < 64) (hk : k < 64) (hl : l < 64)
    (hc : ((m * 64 + n) * 64 + k) * 64 + l = c.toNat) (hleast : 0x10000 ≤ c.toNat)
    (rest : List UInt8) : decodeChar? (a :: b :: d :: e :: rest) = some (c, rest) := by
  have hnlt : ¬ a < 0x80 := by
    rw [UInt8.lt_iff_toNat_lt, ha]
    exact Nat.not_lt.2 (by simp; omega)
  have hntwo : ¬ a < 0xE0 := by
    rw [UInt8.lt_iff_toNat_lt, ha]
    exact Nat.not_lt.2 (by simp; omega)
  have hnthree : ¬ a < 0xF0 := by
    rw [UInt8.lt_iff_toNat_lt, ha]
    exact Nat.not_lt.2 (by simp)
  have hin : 0xF0 ≤ a ∧ a < 0xF8 := by
    rw [UInt8.le_iff_toNat_le, UInt8.lt_iff_toNat_lt, ha]
    exact ⟨Nat.le_add_right _ _, Nat.add_lt_add_left hm 0xF0⟩
  have hsum : (((a.toNat - 0xF0) * 64 + n) * 64 + k) * 64 + l = c.toNat := by omega
  simp [decodeChar?, hnlt, hntwo, hnthree, hin, continuation?_eq hb hn, continuation?_eq hd hk,
    continuation?_eq he hl, hsum, scalar?_toNat c hleast]

/-- A character is read from its encoding, whatever follows. -/
theorem decodeChar?_encode (c : Char) (rest : List UInt8) :
    decodeChar? (String.utf8EncodeChar c ++ rest) = some (c, rest) := by
  have hmax := toNat_lt c
  have byte {n m : Nat} (hm : n = m) (h : m < 256) : (UInt8.ofNat n).toNat = m := by
    rw [UInt8.toNat_ofNat', hm]
    exact Nat.mod_eq_of_lt h
  have hval : c.val.toNat = c.toNat := rfl
  simp only [String.utf8EncodeChar, hval]
  split
  · exact decodeChar?_one (byte rfl (by omega)) (by omega) rest
  · split
    · exact decodeChar?_two (m := c.toNat / 64) (n := c.toNat % 64) (byte (by omega) (by omega))
        (byte (by omega) (by omega)) (by omega) (by omega) (by omega) (by omega) rest
    · split
      · exact decodeChar?_three (m := c.toNat / 4096) (n := c.toNat / 64 % 64)
          (k := c.toNat % 64) (byte (by omega) (by omega)) (byte (by omega) (by omega))
          (byte (by omega) (by omega)) (by omega) (by omega) (by omega) (by omega) (by omega) rest
      · exact decodeChar?_four (m := c.toNat / 262144) (n := c.toNat / 4096 % 64)
          (k := c.toNat / 64 % 64) (l := c.toNat % 64) (byte (by omega) (by omega))
          (byte (by omega) (by omega)) (byte (by omega) (by omega)) (byte (by omega) (by omega))
          (by omega) (by omega) (by omega) (by omega) (by omega) (by omega) rest

/-- A text is read from its encoding. -/
theorem decodeWithin_encode (text : List Char) {bound : Nat} (h : text.length ≤ bound) :
    decodeWithin bound (encode text) = .ok text := by
  induction text generalizing bound with
  | nil => cases bound <;> rfl
  | cons c rest ih =>
      obtain ⟨bound, rfl⟩ : ∃ n, bound = n + 1 := ⟨bound - 1, by simp at h; omega⟩
      have hcons : encode (c :: rest) = String.utf8EncodeChar c ++ encode rest := rfl
      have hne : encode (c :: rest) ≠ [] := by
        intro hnil
        have := decodeChar?_encode c (encode rest)
        rw [← hcons, hnil] at this
        cases this
      obtain ⟨b, bytes, hb⟩ := List.exists_cons_of_ne_nil hne
      rw [hb, decodeWithin, ← hb, hcons, decodeChar?_encode]
      · simp [ih (Nat.le_of_succ_le_succ h)]
      · simp

end Utf8

/-- The text that bytes encode, or the length of their longest beginning that
encodes one. A character takes at least one byte, which bounds their number. -/
def decodeUtf8 (bytes : List UInt8) : Except Nat String :=
  match Utf8.decodeWithin bytes.length bytes with
  | .ok cs => .ok (String.ofList cs)
  | .error valid => .error valid

def encodeUtf8 (text : String) : List UInt8 := Utf8.encode text.toList

@[simp] theorem decodeUtf8_encodeUtf8 (text : String) :
    decodeUtf8 (encodeUtf8 text) = .ok text := by
  have hlength : text.toList.length ≤ (encodeUtf8 text).length := by
    unfold encodeUtf8 Utf8.encode
    induction text.toList with
    | nil => simp
    | cons c rest ih =>
        have hpos : 0 < (String.utf8EncodeChar c).length := by
          simp [Char.utf8Size_pos]
        simp only [List.flatMap_cons, List.length_append, List.length_cons]
        omega
  have h := Utf8.decodeWithin_encode text.toList hlength
  unfold decodeUtf8
  rw [show Utf8.decodeWithin (encodeUtf8 text).length (encodeUtf8 text) = .ok text.toList from h]
  simp

end CycleComparison

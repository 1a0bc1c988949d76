import CycleComparison.Proofs.Text.Utf8

/-!
# Decoding finds only encodings

A character is read in its shortest form alone, so bytes that are read as a text
are the encoding of this text. Blank bytes at the ends of a field are characters
of their own, whatever stands between them. So a field can be read trimmed exactly
if it can be read as it is, and its text is then the trimmed one.
-/

namespace CycleComparison

namespace Utf8

variable {a b d e : UInt8} {c : Char} {bytes rest : List UInt8} {k l m n : Nat}

theorem of_continuation? (h : continuation? b = some n) : b.toNat = 0x80 + n ∧ n < 64 := by
  unfold continuation? at h
  split at h
  · rename_i hrange
    rw [UInt8.le_iff_toNat_le, UInt8.le_iff_toNat_le] at hrange
    obtain rfl := Option.some.inj h
    simp at hrange
    omega
  · cases h

theorem of_scalar? (h : scalar? m n = some c) : n = c.toNat ∧ m ≤ c.toNat := by
  unfold scalar? at h
  split at h
  · rename_i hvalid
    obtain rfl := Option.some.inj h
    have hn := toNat_ofNat hvalid.2
    exact ⟨hn.symm, hn.symm ▸ hvalid.1⟩
  · cases h

theorem ofNat_eq_of_toNat (h : b.toNat = n) : UInt8.ofNat n = b := by
  rw [← h, UInt8.ofNat_toNat]

theorem encodeChar_one (ha : a.toNat = c.toNat) (hc : c.toNat < 0x80) :
    String.utf8EncodeChar c = [a] := by
  rw [encodeChar_of_lt hc, ofNat_eq_of_toNat ha]

theorem encodeChar_two (ha : 0xC0 ≤ a.toNat ∧ a.toNat < 0xE0) (hb : continuation? b = some n)
    (hc : scalar? 0x80 ((a.toNat - 0xC0) * 64 + n) = some c) :
    String.utf8EncodeChar c = [a, b] := by
  obtain ⟨hb, hn⟩ := of_continuation? hb
  obtain ⟨hc, hleast⟩ := of_scalar? hc
  have hval : c.val.toNat = c.toNat := rfl
  simp only [String.utf8EncodeChar, hval]
  rw [if_neg (by omega), if_pos (by omega), ofNat_eq_of_toNat (b := a) (by omega),
    ofNat_eq_of_toNat (b := b) (by omega)]

theorem encodeChar_three (ha : 0xE0 ≤ a.toNat ∧ a.toNat < 0xF0) (hb : continuation? b = some n)
    (hd : continuation? d = some k)
    (hc : scalar? 0x800 (((a.toNat - 0xE0) * 64 + n) * 64 + k) = some c) :
    String.utf8EncodeChar c = [a, b, d] := by
  obtain ⟨hb, hn⟩ := of_continuation? hb
  obtain ⟨hd, hk⟩ := of_continuation? hd
  obtain ⟨hc, hleast⟩ := of_scalar? hc
  have hval : c.val.toNat = c.toNat := rfl
  simp only [String.utf8EncodeChar, hval]
  rw [if_neg (by omega), if_neg (by omega), if_pos (by omega),
    ofNat_eq_of_toNat (b := a) (by omega), ofNat_eq_of_toNat (b := b) (by omega),
    ofNat_eq_of_toNat (b := d) (by omega)]

theorem encodeChar_four (ha : 0xF0 ≤ a.toNat ∧ a.toNat < 0xF8) (hb : continuation? b = some n)
    (hd : continuation? d = some k) (he : continuation? e = some l)
    (hc : scalar? 0x10000 ((((a.toNat - 0xF0) * 64 + n) * 64 + k) * 64 + l) = some c) :
    String.utf8EncodeChar c = [a, b, d, e] := by
  obtain ⟨hb, hn⟩ := of_continuation? hb
  obtain ⟨hd, hk⟩ := of_continuation? hd
  obtain ⟨he, hl⟩ := of_continuation? he
  obtain ⟨hc, hleast⟩ := of_scalar? hc
  have hval : c.val.toNat = c.toNat := rfl
  simp only [String.utf8EncodeChar, hval]
  rw [if_neg (by omega), if_neg (by omega), if_neg (by omega),
    ofNat_eq_of_toNat (b := a) (by omega), ofNat_eq_of_toNat (b := b) (by omega),
    ofNat_eq_of_toNat (b := d) (by omega), ofNat_eq_of_toNat (b := e) (by omega)]

/-- The first character that is read is encoded by the bytes before the others. -/
theorem eq_append_of_decodeChar? (h : decodeChar? bytes = some (c, rest)) :
    bytes = String.utf8EncodeChar c ++ rest := by
  cases bytes with
  | nil => cases h
  | cons a tail =>
      simp only [decodeChar?, UInt8.le_iff_toNat_le, UInt8.lt_iff_toNat_lt, UInt8.reduceToNat,
        Option.bind_eq_bind] at h
      -- one case for each length of a form, the first byte in the range of this length
      split at h
      · rename_i ha
        obtain ⟨rfl, rfl⟩ : Char.ofNat a.toNat = c ∧ tail = rest := by simpa using h
        have hc : (Char.ofNat a.toNat).toNat = a.toNat :=
          toNat_ofNat (.inl (Nat.lt_trans ha (by decide)))
        rw [encodeChar_one hc.symm (hc.symm ▸ ha), List.singleton_append]
      split at h
      · rename_i ha
        split at h
        · simp only [Option.bind_eq_some_iff] at h
          obtain ⟨n, hb, c', hc, h⟩ := h
          cases h
          rw [encodeChar_two ha hb hc]
          rfl
        · cases h
      split at h
      · rename_i ha
        split at h
        · simp only [Option.bind_eq_some_iff] at h
          obtain ⟨n, hb, k, hd, c', hc, h⟩ := h
          cases h
          rw [encodeChar_three ha hb hd hc]
          rfl
        · cases h
      split at h
      · rename_i ha
        split at h
        · simp only [Option.bind_eq_some_iff] at h
          obtain ⟨n, hb, k, hd, l, he, c', hc, h⟩ := h
          cases h
          rw [encodeChar_four ha hb hd he hc]
          rfl
        · cases h
      · cases h

theorem eq_encode_of_decodeWithin {bound : Nat} {text : List Char}
    (h : decodeWithin bound bytes = .ok text) : bytes = encode text := by
  induction bound generalizing bytes text with
  | zero =>
      cases bytes with
      | nil => cases h; rfl
      | cons => cases h
  | succ bound ih =>
      cases bytes with
      | nil => cases h; rfl
      | cons a tail =>
          rw [decodeWithin] at h
          · split at h
            · cases h
            · rename_i c rest hc
              split at h
              · rename_i cs hcs
                cases h
                rw [eq_append_of_decodeChar? hc, ih hcs, encode_cons]
              · cases h
          · exact List.cons_ne_nil a tail

end Utf8

/-- Bytes are read as a text exactly if they are its encoding. -/
theorem decodeUtf8_eq_ok_iff {bytes : List UInt8} {text : String} :
    decodeUtf8 bytes = .ok text ↔ bytes = encodeUtf8 text := by
  constructor
  · intro h
    unfold decodeUtf8 at h
    split at h
    · rename_i cs hcs
      cases h
      rw [encodeUtf8, String.toList_ofList]
      exact Utf8.eq_encode_of_decodeWithin hcs
    · cases h
  · rintro rfl
    exact decodeUtf8_encodeUtf8 text

namespace Delimited

theorem isText_of_isBlankByte {l : List UInt8} (h : ∀ b ∈ l, isBlankByte b) : IsText l := by
  have hascii (b : UInt8) (hb : b ∈ l) : IsText [b] := by
    apply IsText.ascii
    rw [UInt8.lt_iff_toNat_lt]
    exact Nat.not_le.1 fun hle => Utf8.not_isBlankByte_of_le hle (h b hb)
  have h := IsText.flatMap hascii
  rwa [List.flatMap_singleton'] at h

/-- Blank bytes are characters of their own, so bytes encode a text if they do
without the blank ones at their ends. -/
theorem IsText.of_stripEnds {bytes : List UInt8} (h : IsText (stripEnds isBlankByte bytes)) :
    IsText bytes := by
  obtain ⟨a, b, hbytes, ha, hb⟩ := exists_stripEnds isBlankByte bytes
  rw [hbytes]
  exact ((isText_of_isBlankByte ha).append h).append (isText_of_isBlankByte hb)

/-- A field can be read trimmed if it can be read as it is, and it is then read as
the trimmed text. -/
theorem decodeField_true_eq_ok_iff (field : List UInt8) (text : String) :
    decodeField true field = .ok text ↔
      ∃ whole, decodeField false field = .ok whole ∧ text = trim whole := by
  constructor
  · intro h
    -- only what is left of the field is decoded, so the blank bytes have to be put back
    have hstrip : IsText (stripEnds isBlankByte field) := by
      rw [decodeField, if_pos rfl] at h
      split at h
      · rename_i inner hinner
        exact ⟨inner.toList, (decodeUtf8_eq_ok_iff.1 hinner).symm⟩
      · cases h
    obtain ⟨whole, hwhole⟩ := hstrip.of_stripEnds
    obtain rfl : encodeUtf8 (String.ofList whole) = field := by
      rw [encodeUtf8, String.toList_ofList, hwhole]
    rw [decodeField_encodeUtf8] at h
    exact ⟨_, decodeField_encodeUtf8 false _, (Except.ok.inj h).symm⟩
  · rintro ⟨whole, hwhole, rfl⟩
    obtain rfl := decodeUtf8_eq_ok_iff.1 hwhole
    exact decodeField_encodeUtf8 true whole

end Delimited

end CycleComparison

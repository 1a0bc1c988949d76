import CycleComparison.Json.Token
import CycleComparison.Proofs.Decimal.Literal

/-!
# Written tokens are read back

Most tokens end where they are seen to end. A numeral is read as far as it goes,
so what follows must not go on with it: neither a digit nor a point nor the
letter of an exponent. Under this condition every token is read from its
characters, and a text of tokens and blanks is read token by token.
-/

namespace CycleComparison

/-- A numeral that JSON accepts: no leading zeros, and digits on both sides of the
point. -/
structure Numeral.IsJson (n : Numeral) : Prop where
  whole : Decimal.IsRun n.whole
  zero : n.whole.head? = some '0' → n.whole = ['0']
  fraction : ∀ c ∈ n.fraction, c.isDigit

instance (n : Numeral) : Decidable n.IsJson :=
  decidable_of_iff
    (Decimal.IsRun n.whole ∧ (n.whole.head? = some '0' → n.whole = ['0']) ∧
      n.fraction.all Char.isDigit)
    ⟨fun ⟨h, h', h''⟩ => ⟨h, h', List.all_eq_true.1 h''⟩,
      fun h => ⟨h.whole, h.zero, List.all_eq_true.2 h.fraction⟩⟩

namespace Json

section Numerals

variable {digits rest text : List Char}

/-- Nothing comes next that would go on with a numeral. -/
def EndsNumeral (rest : List Char) : Prop :=
  ∀ c ∈ rest.head?, c.isDigit = false ∧ c ≠ '.' ∧ c ≠ 'e' ∧ c ≠ 'E'

theorem EndsNumeral.endsDigits (h : EndsNumeral rest) : Decimal.EndsDigits rest :=
  fun c hc => (h c hc).1

theorem endsNumeral_nil : EndsNumeral [] := nofun

theorem endsNumeral_cons {c : Char}
    (h : c.isDigit = false ∧ c ≠ '.' ∧ c ≠ 'e' ∧ c ≠ 'E') (rest : List Char) :
    EndsNumeral (c :: rest) := by
  intro d hd
  rw [List.head?_cons, Option.mem_some_iff] at hd
  exact hd ▸ h

theorem readDigits?_append (h : Decimal.IsRun digits) (hrest : Decimal.EndsDigits rest) :
    readDigits? (digits ++ rest) = some (digits, rest) := by
  have htake : (digits ++ rest).takeWhile Char.isDigit = digits := by
    rw [List.takeWhile_append_of_pos h.2, hrest.takeWhile, List.append_nil]
  have hdrop : (digits ++ rest).dropWhile Char.isDigit = rest := by
    rw [List.dropWhile_append_of_pos h.2, hrest.dropWhile]
  simp only [readDigits?, htake, hdrop, if_neg h.1]

theorem readWhole?_append (h : Decimal.IsRun digits)
    (hzero : digits.head? = some '0' → digits = ['0']) (hrest : Decimal.EndsDigits rest) :
    readWhole? (digits ++ rest) = some (digits, rest) := by
  unfold readWhole?
  rw [readDigits?_append h hrest]
  split
  · rename_i heq
    cases heq
    cases hzero rfl
  · rfl

theorem readMinus_append (h : Decimal.IsRun digits) (rest : List Char) :
    readMinus (digits ++ rest) = (false, digits ++ rest) := by
  obtain ⟨c, digits, rfl⟩ := List.exists_cons_of_ne_nil h.1
  have hc : c ≠ '-' := by
    rintro rfl
    exact absurd (h.2 '-' List.mem_cons_self) (by decide)
  simp [readMinus, hc]

theorem readFraction?_of_head (h : ∀ c ∈ text.head?, c ≠ '.') :
    readFraction? text = some ([], text) := by
  cases text with
  | nil => rfl
  | cons c text => simp [readFraction?, h c rfl]

theorem readExponent?_of_endsNumeral (h : EndsNumeral rest) :
    readExponent? rest = some (none, rest) := by
  cases rest with
  | nil => rfl
  | cons c rest => simp [readExponent?, (h c rfl).2.2]

/-- An exponent is read from its text. -/
theorem readExponent?_append (exponent : Option Int) (hrest : EndsNumeral rest) :
    readExponent? (Numeral.exponentText exponent ++ rest) = some (exponent, rest) := by
  cases exponent with
  | none => exact readExponent?_of_endsNumeral hrest
  | some e =>
      have hdigits := readDigits?_append (Decimal.isRun_digitsOf e.natAbs) hrest.endsDigits
      by_cases he : e < 0
      · have hneg : -(e.natAbs : Int) = e := by omega
        rw [Numeral.exponentText, if_pos he]
        generalize e.natAbs = n at hneg hdigits ⊢
        simp [readExponent?, Decimal.splitSign, hdigits, hneg]
      · have hpos : (e.natAbs : Int) = e := by omega
        rw [Numeral.exponentText, if_neg he]
        generalize e.natAbs = n at hpos hdigits ⊢
        simp [readExponent?, Decimal.splitSign, hdigits, hpos]

theorem head?_exponentText (exponent : Option Int) (hrest : EndsNumeral rest) :
    ∀ c ∈ (Numeral.exponentText exponent ++ rest).head?, c.isDigit = false ∧ c ≠ '.' := by
  cases exponent with
  | none => exact fun c hc => ⟨(hrest c hc).1, (hrest c hc).2.1⟩
  | some e => simp [Numeral.exponentText]

/-- What follows the digits before the point. -/
theorem readFraction?_append {fraction : List Char} (h : ∀ c ∈ fraction, c.isDigit)
    (exponent : Option Int) (hrest : EndsNumeral rest) :
    readFraction? ((if fraction = [] then [] else '.' :: fraction) ++
      (Numeral.exponentText exponent ++ rest)) =
        some (fraction, Numeral.exponentText exponent ++ rest) := by
  have hexponent := head?_exponentText exponent hrest
  by_cases hnil : fraction = []
  · simp only [hnil, if_true, List.nil_append]
    exact readFraction?_of_head fun c hc => (hexponent c hc).2
  · simp only [hnil, if_false, List.cons_append, readFraction?]
    exact readDigits?_append ⟨hnil, h⟩ fun c hc => (hexponent c hc).1

theorem endsDigits_fraction (fraction : List Char) (exponent : Option Int)
    (hrest : EndsNumeral rest) :
    Decimal.EndsDigits ((if fraction = [] then [] else '.' :: fraction) ++
      (Numeral.exponentText exponent ++ rest)) := by
  by_cases hnil : fraction = []
  · simp only [hnil, if_true, List.nil_append]
    exact fun c hc => (head?_exponentText exponent hrest c hc).1
  · simp [hnil, Decimal.EndsDigits]

/-- A numeral is read from its characters, as far as they go. -/
theorem readNumeral?_chars {n : Numeral} (h : n.IsJson) (hrest : EndsNumeral rest) :
    readNumeral? (n.chars ++ rest) = some (n, rest) := by
  obtain ⟨negative, whole, fraction, exponent⟩ := n
  obtain ⟨hwhole, hzero, hfraction⟩ := h
  simp only at hwhole hzero hfraction
  have hsign : readMinus (Numeral.chars ⟨negative, whole, fraction, exponent⟩ ++ rest) =
      (negative, whole ++ ((if fraction = [] then [] else '.' :: fraction) ++
        (Numeral.exponentText exponent ++ rest))) := by
    cases negative with
    | false => simpa [Numeral.chars] using readMinus_append hwhole _
    | true => simp [Numeral.chars, readMinus]
  have htail := endsDigits_fraction fraction exponent hrest
  simp [readNumeral?, hsign, readWhole?_append hwhole hzero htail,
    readFraction?_append hfraction exponent hrest, readExponent?_append exponent hrest]

end Numerals

section Strings

/-- A symbol that a string may be written with: no quote, backslash or control
character stands for itself, and a code unit has four digits. -/
def Symbol.isWritable : Symbol → Bool
  | .plain c => c != '"' && c != '\\' && !decide (c < ' ')
  | .short c => (shortLetter? c).isSome
  | .unit n => decide (n < 0x10000)

theorem isWritable_symbolOf (c : Char) : (symbolOf c).isWritable := by
  unfold symbolOf
  split
  · rename_i h
    rcases h with rfl | rfl | h
    · decide
    · decide
    · exact h.2
  · rename_i hplain
    split
    · rename_i hlt
      have hn : c.toNat < 32 := hlt
      simp only [Symbol.isWritable, decide_eq_true_eq]
      omega
    · rename_i hlt
      simp only [not_or] at hplain
      simp [Symbol.isWritable, hplain, hlt]

theorem isWritable_symbolsOf (text : String) : (symbolsOf text).all Symbol.isWritable := by
  simp [symbolsOf, isWritable_symbolOf]

theorem ofShortLetter?_of_shortLetter? {c letter : Char} (h : shortLetter? c = some letter) :
    letter ≠ 'u' ∧ ofShortLetter? letter = some c := by
  have hall : ∀ escape ∈ shortEscapes,
      escape.1 ≠ 'u' ∧ ofShortLetter? escape.1 = some escape.2 := by decide
  obtain ⟨escape, hfind, rfl⟩ := Option.map_eq_some_iff.1 h
  have hc : escape.2 = c := by simpa using List.find?_some hfind
  exact hc ▸ hall escape (List.mem_of_find?_eq_some hfind)

theorem hexValue?_digitChar {n : Nat} (h : n < 16) : hexValue? (Nat.digitChar n) = some n := by
  have hall : ∀ n < 16, hexValue? (Nat.digitChar n) = some n := by decide
  exact hall n h

/-- A symbol is read from its characters, whatever follows. -/
theorem readSymbols?_chars {s : Symbol} (h : s.isWritable) (rest : List Char) :
    readSymbols? (s.chars ++ rest) =
      (readSymbols? rest).map fun (symbols, rest) => (s :: symbols, rest) := by
  cases s with
  | plain c =>
      simp only [Symbol.isWritable, Bool.and_eq_true, bne_iff_ne, Bool.not_eq_true',
        decide_eq_false_iff_not] at h
      cases hrest : readSymbols? rest <;> simp [Symbol.chars, readSymbols?, h, hrest]
  | short c =>
      obtain ⟨letter, hletter⟩ := Option.isSome_iff_exists.1 h
      obtain ⟨hu, hread⟩ := ofShortLetter?_of_shortLetter? hletter
      cases hrest : readSymbols? rest <;>
        simp [Symbol.chars, hletter, readSymbols?, hu, hread, hrest]
  | unit n =>
      have hn : n < 0x10000 := by simpa [Symbol.isWritable] using h
      have hdigit (m : Nat) : hexValue? (Nat.digitChar (m % 16)) = some (m % 16) :=
        hexValue?_digitChar (Nat.mod_lt m (by decide))
      have hvalue : ((n / 16 / 16 / 16 % 16 * 16 + n / 16 / 16 % 16) * 16 + n / 16 % 16) * 16 +
          n % 16 = n := by omega
      cases hrest : readSymbols? rest <;>
        simp [Symbol.chars, hexDigits, readSymbols?, hdigit, hvalue, hrest]

/-- Symbols in quotes are read up to the closing quote. -/
theorem readSymbols?_flatMap {symbols : List Symbol} (h : symbols.all Symbol.isWritable)
    (rest : List Char) :
    readSymbols? (symbols.flatMap Symbol.chars ++ '"' :: rest) = some (symbols, rest) := by
  induction symbols with
  | nil => rfl
  | cons s symbols ih =>
      rw [List.all_cons, Bool.and_eq_true] at h
      rw [List.flatMap_cons, List.append_assoc, readSymbols?_chars h.1, ih h.2, Option.map_some]

end Strings

section Tokens

namespace Token

def chars : Token → List Char
  | .openObject => ['\x7b']
  | .closeObject => ['\x7d']
  | .openArray => ['[']
  | .closeArray => [']']
  | .colon => [':']
  | .comma => [',']
  | .null => "null".toList
  | .bool true => "true".toList
  | .bool false => "false".toList
  | .number numeral => numeral.chars
  | .string symbols => quoted symbols

/-- A token with a written form. -/
def IsWritable : Token → Prop
  | .number numeral => numeral.IsJson
  | .string symbols => symbols.all Symbol.isWritable
  | _ => True

/-- What may follow a token: anything, unless it is a numeral. -/
def MayPrecede (rest : List Char) : Token → Prop
  | .number _ => EndsNumeral rest
  | _ => True

end Token

theorem exists_chars_cons {n : Numeral} (h : n.IsJson) :
    ∃ c tail, n.chars = c :: tail ∧ (c.isDigit ∨ c = '-') := by
  obtain ⟨digit, digits, hwhole⟩ := List.exists_cons_of_ne_nil h.whole.1
  have hdigit : digit.isDigit := h.whole.2 digit (hwhole ▸ List.mem_cons_self)
  unfold Numeral.chars
  cases n.negative with
  | false => exact ⟨digit, _, by rw [hwhole]; rfl, .inl hdigit⟩
  | true => exact ⟨'-', _, rfl, .inr rfl⟩

/-- A text that starts like a numeral holds one or nothing. -/
theorem readToken?_of_numeral {c : Char} (h : c.isDigit ∨ c = '-') (text : List Char) :
    readToken? (c :: text) =
      (readNumeral? (c :: text)).map fun (numeral, rest) => (.number numeral, rest) := by
  unfold readToken?
  split <;> first
    | rfl
    | (rename_i heq; cases heq; exact absurd h (by decide))

/-- Every token is read from its characters. -/
theorem readToken?_chars {t : Token} {rest : List Char} (h : t.IsWritable)
    (hrest : t.MayPrecede rest) : readToken? (t.chars ++ rest) = some (t, rest) := by
  cases t with
  | number numeral =>
      obtain ⟨c, tail, hchars, hc⟩ := exists_chars_cons h
      have hread := readNumeral?_chars h hrest
      rw [hchars] at hread
      rw [Token.chars, hchars, List.cons_append, readToken?_of_numeral hc, ← List.cons_append,
        hread, Option.map_some]
  | string symbols =>
      have hread := readSymbols?_flatMap h rest
      simp [Token.chars, quoted, readToken?, hread]
  | bool value => cases value <;> rfl
  | _ => rfl

/-- More bound does no harm. -/
theorem readTokens?_of_le {n m : Nat} {text : List Char} {ts : List Token}
    (h : readTokens? n text = some ts) (hle : n ≤ m) : readTokens? m text = some ts := by
  induction n generalizing m text ts with
  | zero =>
      cases text with
      | nil => rwa [readTokens?] at h ⊢
      | cons c text => cases h
  | succ n ih =>
      obtain ⟨m, rfl⟩ : ∃ k, m = k + 1 := ⟨m - 1, by omega⟩
      have hle : n ≤ m := by omega
      cases text with
      | nil => rwa [readTokens?] at h ⊢
      | cons c text =>
          simp only [readTokens?] at h ⊢
          by_cases hgap : isGap c
          · simp only [hgap, if_true] at h ⊢
            exact ih h hle
          · simp only [hgap] at h ⊢
            cases htoken : readToken? (c :: text) with
            | none => simp [htoken] at h
            | some found =>
                simp only [htoken] at h ⊢
                obtain ⟨more, hmore, rfl⟩ := Option.map_eq_some_iff.1 h
                simp [ih hmore hle]

theorem tokens?_nil : tokens? [] = some [] := rfl

/-- Blanks are skipped. -/
theorem tokens?_gaps {gaps : List Char} (h : ∀ c ∈ gaps, isGap c) (rest : List Char) :
    tokens? (gaps ++ rest) = tokens? rest := by
  induction gaps with
  | nil => rfl
  | cons c gaps ih =>
      have hc : isGap c := h c List.mem_cons_self
      rw [← ih fun d hd => h d (List.mem_cons_of_mem _ hd)]
      simp [tokens?, readTokens?, hc]

theorem isGap_of_numeral {c : Char} (h : c.isDigit ∨ c = '-') : isGap c = false := by
  by_contra hgap
  simp only [isGap, Bool.not_eq_false, Bool.or_eq_true, beq_iff_eq] at hgap
  rcases hgap with ((rfl | rfl) | rfl) | rfl <;> revert h <;> decide

theorem exists_tokenChars_cons {t : Token} (h : t.IsWritable) :
    ∃ c tail, t.chars = c :: tail ∧ isGap c = false := by
  cases t with
  | number numeral =>
      obtain ⟨c, tail, hchars, hc⟩ := exists_chars_cons h
      exact ⟨c, tail, hchars, isGap_of_numeral hc⟩
  | string symbols => exact ⟨_, _, rfl, by decide⟩
  | bool value => cases value <;> exact ⟨_, _, rfl, by decide⟩
  | _ => exact ⟨_, _, rfl, by decide⟩

/-- A token is read before the tokens of what follows. -/
theorem tokens?_chars {t : Token} {rest : List Char} {ts : List Token} (h : t.IsWritable)
    (hrest : t.MayPrecede rest) (hts : tokens? rest = some ts) :
    tokens? (t.chars ++ rest) = some (t :: ts) := by
  obtain ⟨c, tail, hchars, hgap⟩ := exists_tokenChars_cons h
  have hread := readToken?_chars h hrest
  have hmore : readTokens? (tail ++ rest).length rest = some ts :=
    readTokens?_of_le hts (by simp)
  rw [hchars, List.cons_append] at hread ⊢
  simp [tokens?, readTokens?, hgap, hread] at hmore ⊢
  simp [hmore]

end Tokens

end Json

end CycleComparison

import CycleComparison.Json.Reader
import CycleComparison.Json.Writer
import CycleComparison.Proofs.Json.Token

/-!
# Written documents are read back

A document is written as its tokens with blanks between them, so it is read in
two steps: its text is read as its tokens, whatever the spacing, and its tokens
are read as the document. Both steps go through the document by recursion, with
one lemma each for a value, for the items after the first one and for the
members after the first one.
-/

namespace CycleComparison

namespace Json

mutual

/-- The tokens that a document is written with. -/
def tokens : Json → List Token
  | .null => [.null]
  | .bool value => [.bool value]
  | .number numeral => [.number numeral]
  | .string symbols => [.string symbols]
  | .array [] => [.openArray, .closeArray]
  | .array (value :: rest) => .openArray :: (tokens value ++ tokensOfItems rest)
  | .object [] => [.openObject, .closeObject]
  | .object ((name, value) :: rest) =>
      .openObject :: .string name :: .colon :: (tokens value ++ tokensOfMembers rest)

/-- The tokens of the items after the first one, and the end of the array. -/
def tokensOfItems : List Json → List Token
  | [] => [.closeArray]
  | value :: rest => .comma :: (tokens value ++ tokensOfItems rest)

/-- The tokens of the members after the first one, and the end of the object. -/
def tokensOfMembers : List (List Symbol × Json) → List Token
  | [] => [.closeObject]
  | (name, value) :: rest =>
      .comma :: .string name :: .colon :: (tokens value ++ tokensOfMembers rest)

end

/-- A document whose numbers and strings have a written form. -/
def isWritable (value : Json) : Bool :=
  value.all (fun numeral => decide numeral.IsJson) fun symbols => symbols.all Symbol.isWritable

def areItemsWritable (items : List Json) : Bool :=
  allItems (fun numeral => decide numeral.IsJson) (fun symbols => symbols.all Symbol.isWritable)
    items

def areMembersWritable (members : List (List Symbol × Json)) : Bool :=
  allMembers (fun numeral => decide numeral.IsJson) (fun symbols => symbols.all Symbol.isWritable)
    members

theorem isWritable_array (items : List Json) :
    (array items).isWritable = areItemsWritable items := rfl

theorem isWritable_object (members : List (List Symbol × Json)) :
    (object members).isWritable = areMembersWritable members := rfl

theorem areItemsWritable_cons (value : Json) (items : List Json) :
    areItemsWritable (value :: items) = (value.isWritable && areItemsWritable items) := rfl

theorem areMembersWritable_cons (name : List Symbol) (value : Json)
    (members : List (List Symbol × Json)) :
    areMembersWritable ((name, value) :: members) =
      (name.all Symbol.isWritable && value.isWritable && areMembersWritable members) := rfl

/-- Nothing but blanks between the tokens. -/
structure Spacing.IsBlank (spacing : Spacing) : Prop where
  line : ∀ depth, ∀ c ∈ spacing.line depth, isGap c
  afterColon : ∀ c ∈ spacing.afterColon, isGap c

section Writer

variable {spacing : Spacing} {rest : List Char} {ts : List Token}

theorem endsNumeral_gaps {gaps : List Char} (h : ∀ c ∈ gaps, isGap c) {c : Char}
    (hc : c.isDigit = false ∧ c ≠ '.' ∧ c ≠ 'e' ∧ c ≠ 'E') (rest : List Char) :
    EndsNumeral (gaps ++ c :: rest) := by
  cases gaps with
  | nil => exact endsNumeral_cons hc rest
  | cons gap gaps =>
      refine endsNumeral_cons ?_ _
      have hgap : isGap gap := h gap List.mem_cons_self
      simp only [isGap, Bool.or_eq_true, beq_iff_eq] at hgap
      rcases hgap with ((rfl | rfl) | rfl) | rfl <;> decide

theorem endsNumeral_writeItems (hs : spacing.IsBlank) (depth : Nat) (items : List Json)
    (rest : List Char) : EndsNumeral (writeItems spacing depth items ++ rest) := by
  cases items with
  | nil =>
      rw [writeItems, List.append_assoc]
      exact endsNumeral_gaps (hs.line depth) (by decide) rest
  | cons value items => exact endsNumeral_cons (by decide) _

theorem endsNumeral_writeMembers (hs : spacing.IsBlank) (depth : Nat)
    (members : List (List Symbol × Json)) (rest : List Char) :
    EndsNumeral (writeMembers spacing depth members ++ rest) := by
  cases members with
  | nil =>
      rw [writeMembers, List.append_assoc]
      exact endsNumeral_gaps (hs.line depth) (by decide) rest
  | cons member members => exact endsNumeral_cons (by decide) _

/-- The name of a member is read before its value. -/
theorem tokens?_member (hs : spacing.IsBlank) {name : List Symbol}
    (hname : name.all Symbol.isWritable) (hvalue : tokens? rest = some ts) :
    tokens? (quoted name ++ ':' :: (spacing.afterColon ++ rest)) =
      some (.string name :: .colon :: ts) := by
  rw [← tokens?_gaps hs.afterColon] at hvalue
  have hcolon := tokens?_chars (t := .colon) trivial trivial hvalue
  exact tokens?_chars (t := .string name) hname trivial hcolon

mutual

/-- A written value is read as its tokens, unless what follows goes on with it. -/
theorem tokens?_write (hs : spacing.IsBlank) :
    ∀ (value : Json) (depth : Nat) {rest : List Char} {ts : List Token}, value.isWritable →
      EndsNumeral rest → tokens? rest = some ts →
        tokens? (write spacing depth value ++ rest) = some (tokens value ++ ts)
  | .null, _, _, _, _, _, hts => tokens?_chars (t := .null) trivial trivial hts
  | .bool true, _, _, _, _, _, hts => tokens?_chars (t := .bool true) trivial trivial hts
  | .bool false, _, _, _, _, _, hts => tokens?_chars (t := .bool false) trivial trivial hts
  | .number numeral, _, _, _, hvalue, hrest, hts => by
      have hnumeral : numeral.IsJson := of_decide_eq_true hvalue
      exact tokens?_chars (t := .number numeral) hnumeral hrest hts
  | .string symbols, _, _, _, hvalue, _, hts =>
      tokens?_chars (t := .string symbols) hvalue trivial hts
  | .array [], _, _, _, _, _, hts =>
      tokens?_chars (t := .openArray) trivial trivial
        (tokens?_chars (t := .closeArray) trivial trivial hts)
  | .array (value :: items), depth, _, _, hvalue, _, hts => by
      rw [isWritable_array, areItemsWritable_cons, Bool.and_eq_true] at hvalue
      have hitems := tokens?_writeItems hs items depth hvalue.2 hts
      have hfirst := tokens?_write hs value (depth + 1) hvalue.1
        (endsNumeral_writeItems hs depth items _) hitems
      rw [← tokens?_gaps (hs.line (depth + 1))] at hfirst
      simpa [write, tokens, Token.chars] using
        tokens?_chars (t := .openArray) trivial trivial hfirst
  | .object [], _, _, _, _, _, hts =>
      tokens?_chars (t := .openObject) trivial trivial
        (tokens?_chars (t := .closeObject) trivial trivial hts)
  | .object ((name, value) :: members), depth, _, _, hvalue, _, hts => by
      rw [isWritable_object, areMembersWritable_cons, Bool.and_eq_true, Bool.and_eq_true] at hvalue
      have hmembers := tokens?_writeMembers hs members depth hvalue.2 hts
      have hfirst := tokens?_member hs hvalue.1.1 (tokens?_write hs value (depth + 1) hvalue.1.2
        (endsNumeral_writeMembers hs depth members _) hmembers)
      rw [← tokens?_gaps (hs.line (depth + 1))] at hfirst
      simpa [write, tokens, Token.chars] using
        tokens?_chars (t := .openObject) trivial trivial hfirst

theorem tokens?_writeItems (hs : spacing.IsBlank) :
    ∀ (items : List Json) (depth : Nat) {rest : List Char} {ts : List Token},
      areItemsWritable items → tokens? rest = some ts →
        tokens? (writeItems spacing depth items ++ rest) = some (tokensOfItems items ++ ts)
  | [], depth, _, _, _, hts => by
      have hclose := tokens?_chars (t := .closeArray) trivial trivial hts
      rw [← tokens?_gaps (hs.line depth)] at hclose
      simpa [writeItems, tokensOfItems, Token.chars] using hclose
  | value :: items, depth, _, _, hall, hts => by
      rw [areItemsWritable_cons, Bool.and_eq_true] at hall
      have hitems := tokens?_writeItems hs items depth hall.2 hts
      have hvalue := tokens?_write hs value (depth + 1) hall.1
        (endsNumeral_writeItems hs depth items _) hitems
      rw [← tokens?_gaps (hs.line (depth + 1))] at hvalue
      simpa [writeItems, tokensOfItems, Token.chars] using
        tokens?_chars (t := .comma) trivial trivial hvalue

theorem tokens?_writeMembers (hs : spacing.IsBlank) :
    ∀ (members : List (List Symbol × Json)) (depth : Nat) {rest : List Char} {ts : List Token},
      areMembersWritable members → tokens? rest = some ts →
        tokens? (writeMembers spacing depth members ++ rest) = some (tokensOfMembers members ++ ts)
  | [], depth, _, _, _, hts => by
      have hclose := tokens?_chars (t := .closeObject) trivial trivial hts
      rw [← tokens?_gaps (hs.line depth)] at hclose
      simpa [writeMembers, tokensOfMembers, Token.chars] using hclose
  | (name, value) :: members, depth, _, _, hall, hts => by
      rw [areMembersWritable_cons, Bool.and_eq_true, Bool.and_eq_true] at hall
      have hmembers := tokens?_writeMembers hs members depth hall.2 hts
      have hmember := tokens?_member hs hall.1.1 (tokens?_write hs value (depth + 1) hall.1.2
        (endsNumeral_writeMembers hs depth members _) hmembers)
      rw [← tokens?_gaps (hs.line (depth + 1))] at hmember
      simpa [writeMembers, tokensOfMembers, Token.chars] using
        tokens?_chars (t := .comma) trivial trivial hmember

end

end Writer

section Reader

/-- A document starts with a token that ends nothing. -/
theorem exists_tokens_cons (value : Json) :
    ∃ t ts, tokens value = t :: ts ∧ t ≠ .closeArray := by
  rcases value with _ | _ | _ | _ | items | members
  case array => cases items <;> exact ⟨_, _, rfl, by decide⟩
  case object => rcases members with _ | ⟨⟨_, _⟩, _⟩ <;> exact ⟨_, _, rfl, by decide⟩
  all_goals exact ⟨_, _, rfl, nofun⟩

theorem readValue?_openArray {t : Token} (ht : t ≠ .closeArray) (bound : Nat) (ts : List Token) :
    readValue? (bound + 1) (.openArray :: t :: ts) =
      (readItems? bound (t :: ts)).map fun (items, rest) => (array items, rest) := by
  cases t <;> first | exact absurd rfl ht | rfl

mutual

-- A token is taken by one call at most, and each call that takes none is followed
-- by one that does, so twice the number of tokens bounds the depth of the calls.

/-- Two calls for each token are enough to read a document from its tokens. -/
theorem readValue?_tokens :
    ∀ (value : Json) (bound : Nat) (rest : List Token), 2 * (tokens value).length ≤ bound →
      readValue? bound (tokens value ++ rest) = some (value, rest)
  | value, 0, _, hbound => by
      obtain ⟨t, ts, htokens, -⟩ := exists_tokens_cons value
      simp [htokens] at hbound
  | .null, _ + 1, _, _ => rfl
  | .bool _, _ + 1, _, _ => rfl
  | .number _, _ + 1, _, _ => rfl
  | .string _, _ + 1, _, _ => rfl
  | .array [], _ + 1, _, _ => rfl
  | .array (value :: items), bound + 1, rest, hbound => by
      have hitems := readItems?_tokens value items bound rest
        (by simp [tokens] at hbound ⊢; omega)
      obtain ⟨t, ts, htokens, hne⟩ := exists_tokens_cons value
      rw [htokens, List.cons_append] at hitems
      simp [tokens, htokens, readValue?_openArray hne, hitems]
  | .object [], _ + 1, _, _ => rfl
  | .object ((name, value) :: members), bound + 1, rest, hbound => by
      have hmembers := readMembers?_tokens name value members bound rest
        (by simp [tokens] at hbound ⊢; omega)
      simp [tokens, readValue?, hmembers]

theorem readItems?_tokens :
    ∀ (value : Json) (items : List Json) (bound : Nat) (rest : List Token),
      2 * (tokens value ++ tokensOfItems items).length ≤ bound →
        readItems? bound (tokens value ++ (tokensOfItems items ++ rest)) =
          some (value :: items, rest)
  | value, items, 0, _, hbound => by
      obtain ⟨t, ts, htokens, -⟩ := exists_tokens_cons value
      simp [htokens] at hbound
  | value, [], bound + 1, rest, hbound => by
      have hvalue := readValue?_tokens value bound (.closeArray :: rest)
        (by simp [tokensOfItems] at hbound; omega)
      simp [readItems?, tokensOfItems, hvalue]
  | value, next :: items, bound + 1, rest, hbound => by
      simp only [tokensOfItems, List.length_append, List.length_cons] at hbound
      have hvalue := readValue?_tokens value bound
        (.comma :: (tokens next ++ (tokensOfItems items ++ rest))) (by omega)
      have hitems := readItems?_tokens next items bound rest (by simp; omega)
      simp [readItems?, tokensOfItems, hvalue, hitems]

theorem readMembers?_tokens :
    ∀ (name : List Symbol) (value : Json) (members : List (List Symbol × Json)) (bound : Nat)
      (rest : List Token), 2 * (tokens value ++ tokensOfMembers members).length + 1 ≤ bound →
        readMembers? bound (.string name :: .colon ::
          (tokens value ++ (tokensOfMembers members ++ rest))) =
            some ((name, value) :: members, rest)
  | _, _, _, 0, _, hbound => by simp at hbound
  | name, value, [], bound + 1, rest, hbound => by
      have hvalue := readValue?_tokens value bound (.closeObject :: rest)
        (by simp [tokensOfMembers] at hbound; omega)
      simp [readMembers?, tokensOfMembers, hvalue]
  | name, value, (next, nextValue) :: members, bound + 1, rest, hbound => by
      simp only [tokensOfMembers, List.length_append, List.length_cons] at hbound
      have hvalue := readValue?_tokens value bound (.comma :: .string next :: .colon ::
        (tokens nextValue ++ (tokensOfMembers members ++ rest))) (by omega)
      have hmembers := readMembers?_tokens next nextValue members bound rest (by simp; omega)
      simp [readMembers?, tokensOfMembers, hvalue, hmembers]

end

end Reader

/-- A document is read from its written form, whatever the spacing. -/
theorem read?_write {spacing : Spacing} (hs : spacing.IsBlank) (depth : Nat) {value : Json}
    (h : value.isWritable) : read? (String.ofList (write spacing depth value)) = some value := by
  have htokens := tokens?_write hs value depth h endsNumeral_nil tokens?_nil
  have hvalue := readValue?_tokens value _ [] (Nat.le_refl _)
  rw [List.append_nil, List.append_nil] at htokens
  rw [List.append_nil] at hvalue
  simp [read?, htokens, ofTokens?, hvalue]

theorem isBlank_compact : Spacing.compact.IsBlank := ⟨fun _ _ => nofun, nofun⟩

theorem isBlank_pretty : Spacing.pretty.IsBlank := by
  constructor
  · intro depth c hc
    rcases List.mem_cons.1 hc with rfl | hc
    · decide
    · rw [List.eq_of_mem_replicate hc]
      decide
  · intro c hc
    rw [List.mem_singleton.1 hc]
    decide

theorem read?_toCompactText {value : Json} (h : value.isWritable) :
    read? value.toCompactText = some value :=
  read?_write isBlank_compact 0 h

end Json

end CycleComparison

/-!
# Digits and whole numbers

Decimal digits are ASCII characters. `digitsOf` writes a natural number and
`valueOf` reads a run of digits; a sign and the bounds of a word are added by
the readers of whole numbers, which accept nothing but a sign and digits.
-/

namespace CycleComparison

namespace Decimal

/-- The decimal digits of a number, without leading zeros. -/
def digitsOf (n : Nat) : List Char := Nat.toDigits 10 n

def naturalText (n : Nat) : String := String.ofList (digitsOf n)

/-- The characters of a whole number: a minus sign and digits, or digits alone. -/
def wholeChars (n : Int) : List Char :=
  if n < 0 then '-' :: digitsOf n.natAbs else digitsOf n.natAbs

def wholeText (n : Int) : String := String.ofList (wholeChars n)

/-- The value of a run of digits. -/
def valueOf (digits : List Char) : Nat := Nat.ofDigitChars 10 digits 0

@[simp] theorem valueOf_nil : valueOf [] = 0 := rfl

@[simp] theorem valueOf_digitsOf (n : Nat) : valueOf (digitsOf n) = n :=
  Nat.ofDigitChars_toDigits (by decide) (by decide)

/-- The last `width` digits of a number, with leading zeros. -/
def lastDigits : Nat → Nat → List Char
  | 0, _ => []
  | width + 1, n => lastDigits width (n / 10) ++ [Nat.digitChar (n % 10)]

/-- A non-empty run of digits and nothing else. -/
def IsRun (digits : List Char) : Prop :=
  digits ≠ [] ∧ ∀ c ∈ digits, c.isDigit

instance (digits : List Char) : Decidable (IsRun digits) :=
  decidable_of_iff (digits ≠ [] ∧ digits.all Char.isDigit) (by rw [IsRun, List.all_eq_true])

theorem isDigit_of_mem_digitsOf {n : Nat} {c : Char} (h : c ∈ digitsOf n) : c.isDigit :=
  Nat.isDigit_of_mem_toDigits (by decide) (by decide) h

theorem isRun_digitsOf (n : Nat) : IsRun (digitsOf n) :=
  ⟨Nat.toDigits_ne_nil, fun _ => isDigit_of_mem_digitsOf⟩

/-- A sign, if there is one, and the rest; no sign counts as plus. -/
def splitSign : List Char → Bool × List Char
  | '-' :: rest => (true, rest)
  | '+' :: rest => (false, rest)
  | rest => (false, rest)

/-- The natural number written as a run of digits. -/
def natural? (text : List Char) : Option Nat :=
  if IsRun text then some (valueOf text) else none

/-- The text of a natural number is read as the number. -/
@[simp] theorem natural?_digitsOf (n : Nat) : natural? (digitsOf n) = some n := by
  simp [natural?, isRun_digitsOf]

/-- The whole number written as a run of digits after at most one sign. -/
def whole? (text : List Char) : Option Int :=
  let (negative, digits) := splitSign text
  (natural? digits).map fun (n : Nat) => if negative then -(n : Int) else (n : Int)

theorem splitSign_of_isRun {digits : List Char} (h : IsRun digits) :
    splitSign digits = (false, digits) := by
  obtain ⟨hne, hdigit⟩ := h
  cases digits with
  | nil => exact absurd rfl hne
  | cons c rest =>
      have hc := hdigit c List.mem_cons_self
      unfold splitSign
      split
      · rename_i heq
        cases heq
        exact absurd hc (by decide)
      · rename_i heq
        cases heq
        exact absurd hc (by decide)
      · rfl

/-- The text of a whole number is read as the number. -/
@[simp] theorem whole?_wholeChars (n : Int) : whole? (wholeChars n) = some n := by
  unfold wholeChars
  split
  · have hneg : -(n.natAbs : Int) = n := by omega
    show (natural? (digitsOf n.natAbs)).map _ = some n
    rw [natural?_digitsOf]
    exact congrArg some hneg
  · have hpos : (n.natAbs : Int) = n := by omega
    unfold whole?
    rw [splitSign_of_isRun (isRun_digitsOf n.natAbs)]
    show (natural? (digitsOf n.natAbs)).map _ = some n
    rw [natural?_digitsOf]
    exact congrArg some hpos

end Decimal

/-- A whole number as a signed word of 64 bits, if it fits. -/
def int64OfInt? (n : Int) : Option Int64 :=
  if Int64.minValue.toInt ≤ n ∧ n ≤ Int64.maxValue.toInt then some (Int64.ofInt n) else none

@[simp] theorem int64OfInt?_toInt (id : Int64) : int64OfInt? id.toInt = some id := by
  unfold int64OfInt?
  rw [if_pos ⟨id.minValue_le_toInt, id.toInt_le⟩, Int64.ofInt_toInt]

theorem toInt_of_int64OfInt? {n : Int} {w : Int64} (h : int64OfInt? n = some w) :
    w.toInt = n := by
  unfold int64OfInt? at h
  split at h
  · rename_i hrange
    rw [← Option.some.inj h]
    exact Int64.toInt_ofInt_of_le hrange.1 (Int.lt_of_le_of_lt hrange.2 (by decide))
  · cases h

/-- A natural number as a word of 64 bits, if it fits. -/
def uint64OfNat? (n : Nat) : Option UInt64 :=
  if n < UInt64.size then some (UInt64.ofNat n) else none

theorem toNat_of_uint64OfNat? {n : Nat} {w : UInt64} (h : uint64OfNat? n = some w) :
    w.toNat = n := by
  unfold uint64OfNat? at h
  split at h
  · rename_i hlt
    rw [← Option.some.inj h]
    exact UInt64.toNat_ofNat_of_lt' hlt
  · cases h

@[simp] theorem uint64OfNat?_toNat (w : UInt64) : uint64OfNat? w.toNat = some w := by
  simp [uint64OfNat?, w.toNat_lt]

end CycleComparison

import CycleComparison.Decimal.Digits

/-!
# JSON strings

A JSON string is kept as the `Symbol`s that it is written with, because not every
sequence of symbols has a text: the code units of an escape may be surrogates
that belong to no pair. `symbolsOf` gives the symbols that a text is written
with, and `textOf?` the text of some symbols.
-/

namespace CycleComparison

namespace Json

/-- A unit of a written JSON string. -/
inductive Symbol where
  /-- A character that stands for itself. -/
  | plain (c : Char)
  /-- A backslash and a letter, which stand for the character. -/
  | short (c : Char)
  /-- A backslash, `u` and four hexadecimal digits, which stand for the code unit. -/
  | unit (value : Nat)
  deriving DecidableEq

/-- The letters of the short escapes and the characters that they stand for. -/
def shortEscapes : List (Char × Char) :=
  [('"', '"'), ('\\', '\\'), ('/', '/'), ('b', '\x08'), ('f', '\x0c'), ('n', '\n'),
   ('r', '\r'), ('t', '\t')]

/-- The character that the letter of a short escape stands for. -/
def ofShortLetter? (letter : Char) : Option Char := shortEscapes.lookup letter

/-- The letter of the short escape for a character. -/
def shortLetter? (c : Char) : Option Char :=
  (shortEscapes.find? fun escape => escape.2 == c).map (·.1)

/-- The value of a hexadecimal digit. -/
def hexValue? (c : Char) : Option Nat :=
  if '0' ≤ c ∧ c ≤ '9' then some (c.toNat - '0'.toNat)
  else if 'a' ≤ c ∧ c ≤ 'f' then some (c.toNat - 'a'.toNat + 10)
  else if 'A' ≤ c ∧ c ≤ 'F' then some (c.toNat - 'A'.toNat + 10)
  else none

/-- The last `width` hexadecimal digits of a number, with leading zeros. -/
def hexDigits : Nat → Nat → List Char
  | 0, _ => []
  | width + 1, n => hexDigits width (n / 16) ++ [Nat.digitChar (n % 16)]

/-- The code units that begin a surrogate pair. -/
def isHighSurrogate (n : Nat) : Bool := 0xD800 ≤ n && n < 0xDC00

/-- The code units that end a surrogate pair. -/
def isLowSurrogate (n : Nat) : Bool := 0xDC00 ≤ n && n < 0xE000

/-- The character of a surrogate pair. -/
def ofSurrogates (high low : Nat) : Char :=
  Char.ofNat (0x10000 + (high - 0xD800) * 0x400 + (low - 0xDC00))

/-- The characters of some symbols, if every code unit belongs to one; `high` is
the code unit before them, if it began a surrogate pair. -/
def charsAfter? : Option Nat → List Symbol → Option (List Char)
  | none, [] => some []
  | none, .plain c :: rest => (charsAfter? none rest).map (c :: ·)
  | none, .short c :: rest => (charsAfter? none rest).map (c :: ·)
  | none, .unit n :: rest =>
      if isHighSurrogate n then charsAfter? (some n) rest
      else if isLowSurrogate n then none
      else (charsAfter? none rest).map (Char.ofNat n :: ·)
  | some high, .unit n :: rest =>
      if isLowSurrogate n then (charsAfter? none rest).map (ofSurrogates high n :: ·) else none
  | some _, _ => none

def charsOf? (symbols : List Symbol) : Option (List Char) := charsAfter? none symbols

def textOf? (symbols : List Symbol) : Option String := (charsOf? symbols).map String.ofList

/-- The symbol that a character is written with. A quote, a backslash and the
control characters are escaped, by a short escape where there is one; the
solidus has one and does not need it. -/
def symbolOf (c : Char) : Symbol :=
  if c = '"' ∨ c = '\\' ∨ (c < ' ' ∧ (shortLetter? c).isSome) then .short c
  else if c < ' ' then .unit c.toNat
  else .plain c

def symbolsOf (text : String) : List Symbol := text.toList.map symbolOf

/-- The symbol of a character stands for it, whatever follows. -/
theorem charsOf?_symbolOf_cons (c : Char) (rest : List Symbol) :
    charsOf? (symbolOf c :: rest) = (charsOf? rest).map (c :: ·) := by
  unfold symbolOf
  split
  · rfl
  · split
    · rename_i hlt
      have hn : c.toNat < 32 := hlt
      have hhigh : isHighSurrogate c.toNat = false := by
        simp [isHighSurrogate]
        omega
      have hlow : isLowSurrogate c.toNat = false := by
        simp [isLowSurrogate]
        omega
      simp [charsOf?, charsAfter?, hhigh, hlow]
    · rfl

@[simp] theorem textOf?_symbolsOf (text : String) : textOf? (symbolsOf text) = some text := by
  have hchars (cs : List Char) : charsOf? (cs.map symbolOf) = some cs := by
    induction cs with
    | nil => rfl
    | cons c rest ih => simp [charsOf?_symbolOf_cons, ih]
  simp [textOf?, symbolsOf, hchars]

namespace Symbol

def chars : Symbol → List Char
  | .plain c => [c]
  | .short c => ['\\', (shortLetter? c).getD c]
  | .unit value => '\\' :: 'u' :: hexDigits 4 value

end Symbol

def quoted (symbols : List Symbol) : List Char :=
  '"' :: (symbols.flatMap Symbol.chars ++ ['"'])

/-- Reads symbols up to the closing quote, and gives what follows it. Control
characters are only accepted as escapes. -/
def readSymbols? : List Char → Option (List Symbol × List Char)
  | [] => none
  | '"' :: rest => some ([], rest)
  | '\\' :: 'u' :: a :: b :: c :: d :: rest => do
      let value := (((← hexValue? a) * 16 + (← hexValue? b)) * 16 + (← hexValue? c)) * 16
        + (← hexValue? d)
      let (symbols, rest) ← readSymbols? rest
      return (.unit value :: symbols, rest)
  | '\\' :: letter :: rest => do
      let c ← ofShortLetter? letter
      let (symbols, rest) ← readSymbols? rest
      return (.short c :: symbols, rest)
  | c :: rest =>
      if c = '\\' ∨ c < ' ' then none
      else do
        let (symbols, rest) ← readSymbols? rest
        return (.plain c :: symbols, rest)

end Json

end CycleComparison

import CycleComparison.Json.Basic

/-!
# JSON tokens

A JSON text is a sequence of tokens with blanks between them. Each token is read
from the front of the text, a numeral as far as it goes.
-/

namespace CycleComparison

namespace Json

/-- A lexical unit of a JSON text. -/
inductive Token where
  | openObject
  | closeObject
  | openArray
  | closeArray
  | colon
  | comma
  | null
  | bool (value : Bool)
  | number (numeral : Numeral)
  | string (symbols : List Symbol)
  deriving DecidableEq

/-- The blanks of a JSON text: space, tab, line feed and carriage return. -/
def isGap (c : Char) : Bool := c == ' ' || c == '\t' || c == '\n' || c == '\r'

/-- Reads a run of digits that is not empty. -/
def readDigits? (text : List Char) : Option (List Char × List Char) :=
  if text.takeWhile Char.isDigit = [] then none
  else some (text.takeWhile Char.isDigit, text.dropWhile Char.isDigit)

/-- Reads the digits before the point: a zero stands alone. -/
def readWhole? (text : List Char) : Option (List Char × List Char) :=
  match readDigits? text with
  | some ('0' :: _ :: _, _) => none
  | found => found

/-- Reads a point and the digits after it, or nothing. -/
def readFraction? : List Char → Option (List Char × List Char)
  | '.' :: rest => readDigits? rest
  | text => some ([], text)

/-- Reads an exponent, or nothing. -/
def readExponent? : List Char → Option (Option Int × List Char)
  | c :: rest =>
      if c = 'e' ∨ c = 'E' then do
        let (negative, rest) := Decimal.splitSign rest
        let (digits, rest) ← readDigits? rest
        let size : Int := Decimal.valueOf digits
        return (some (if negative then -size else size), rest)
      else some (none, c :: rest)
  | [] => some (none, [])

def readMinus : List Char → Bool × List Char
  | '-' :: rest => (true, rest)
  | text => (false, text)

def readNumeral? (text : List Char) : Option (Numeral × List Char) := do
  let (negative, text) := readMinus text
  let (whole, text) ← readWhole? text
  let (fraction, text) ← readFraction? text
  let (exponent, text) ← readExponent? text
  return ({ negative, whole, fraction, exponent }, text)

def readToken? : List Char → Option (Token × List Char)
  | '\x7b' :: rest => some (.openObject, rest)
  | '\x7d' :: rest => some (.closeObject, rest)
  | '[' :: rest => some (.openArray, rest)
  | ']' :: rest => some (.closeArray, rest)
  | ':' :: rest => some (.colon, rest)
  | ',' :: rest => some (.comma, rest)
  | 'n' :: 'u' :: 'l' :: 'l' :: rest => some (.null, rest)
  | 't' :: 'r' :: 'u' :: 'e' :: rest => some (.bool true, rest)
  | 'f' :: 'a' :: 'l' :: 's' :: 'e' :: rest => some (.bool false, rest)
  | '"' :: rest => (readSymbols? rest).map fun (symbols, rest) => (.string symbols, rest)
  | text => (readNumeral? text).map fun (numeral, rest) => (.number numeral, rest)

/-- Reads at most `bound` tokens and blanks. -/
def readTokens? : Nat → List Char → Option (List Token)
  | _, [] => some []
  | 0, _ :: _ => none
  | bound + 1, c :: rest =>
      if isGap c then readTokens? bound rest
      else
        match readToken? (c :: rest) with
        | none => none
        | some (token, rest) => (readTokens? bound rest).map (token :: ·)

/-- The tokens of a text. Each of them takes a character, which bounds their
number. -/
def tokens? (text : List Char) : Option (List Token) := readTokens? text.length text

end Json

end CycleComparison

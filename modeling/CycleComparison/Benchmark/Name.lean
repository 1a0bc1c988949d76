import CycleComparison.Decimal.Digits

/-!
# Benchmark names

The name of a benchmark says what it measures: it starts with a version, it
contains a precision, and it ends with the number of exceptions that were
raised. `classify` reads the three parts independently of each other and accepts
a name only if all of them are there.
-/

namespace CycleComparison

/-- The two versions of the measured code. -/
inductive Version where
  | new
  | old
  deriving DecidableEq

namespace Version

def all : List Version := [.new, .old]

def label : Version → String
  | .new => "new"
  | .old => "old"

def ofLabel? : String → Option Version
  | "new" => some .new
  | "old" => some .old
  | _ => none

@[simp] theorem ofLabel?_label (v : Version) : ofLabel? v.label = some v := by
  cases v <;> rfl

/-- The version whose label a text starts with. -/
def ofStart? (text : List Char) : Option Version :=
  all.find? fun v => v.label.toList.isPrefixOf text

end Version

/-- The precisions that are compared separately. -/
inductive Precision where
  | float
  | dbl
  deriving DecidableEq

namespace Precision

def all : List Precision := [.float, .dbl]

def label : Precision → String
  | .float => "float"
  | .dbl => "dbl"

def ofLabel? : String → Option Precision
  | "float" => some .float
  | "dbl" => some .dbl
  | _ => none

@[simp] theorem ofLabel?_label (p : Precision) : ofLabel? p.label = some p := by
  cases p <;> rfl

end Precision

def occursIn (word : List Char) : List Char → Bool
  | [] => word.isEmpty
  | c :: rest => word.isPrefixOf (c :: rest) || occursIn word rest

/-- The precision whose label occurs in a text; if both do, the first one. -/
def Precision.inside? (text : List Char) : Option Precision :=
  all.find? fun p => occursIn p.label.toList text

/-- The longest run of digits at the end of a text. -/
def trailingDigits (text : List Char) : List Char :=
  (text.reverse.takeWhile Char.isDigit).reverse

/-- The number of exceptions that a text ends with, if it fits a word. -/
def exceptionCount? (text : List Char) : Option UInt64 :=
  (Decimal.natural? (trailingDigits text)).bind uint64OfNat?

/-- What a benchmark measures. -/
structure Classification where
  exceptions : UInt64
  version : Version
  precision : Precision
  deriving DecidableEq

/-- What a name says that its benchmark measures. -/
def classify (name : String) : Option Classification := do
  let exceptions ← exceptionCount? name.toList
  let version ← Version.ofStart? name.toList
  let precision ← Precision.inside? name.toList
  return { exceptions, version, precision }

end CycleComparison

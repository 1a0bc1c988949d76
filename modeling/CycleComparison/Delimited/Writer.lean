import CycleComparison.Decimal.Numeral
import CycleComparison.Delimited.Record
import CycleComparison.Text.Utf8

/-!
# Writing delimited text

Records are written as bytes, each ended by a line feed. A `QuoteStyle` says
which fields are put in quotes; inside quotes a quote is doubled, and a field
without quotes is written as it is.
-/

namespace CycleComparison

namespace Delimited

/-- Which fields are written in quotes. -/
inductive QuoteStyle where
  /-- Those that would otherwise be read back differently. -/
  | necessary
  | always
  /-- Those that do not spell a number. -/
  | nonNumeric
  | never
  deriving DecidableEq

structure WriteOptions where
  delimiter : UInt8
  headers : Bool
  quoting : QuoteStyle

namespace WriteOptions

/-- Commas, a header, and quotes where they are necessary. -/
def default : WriteOptions :=
  { delimiter := 0x2C, headers := true, quoting := .necessary }

end WriteOptions

/-- Whether a byte has a meaning between fields or records. -/
def isSpecial (delimiter b : UInt8) : Bool :=
  b == delimiter || b == quote || isTerminator b

def QuoteStyle.quotes (style : QuoteStyle) (delimiter : UInt8) (field : String) : Bool :=
  match style with
  | .necessary => (encodeUtf8 field).any (isSpecial delimiter)
  | .always => true
  | .nonNumeric => (Binary64.ofText? field.toList).isNone
  | .never => false

def doubleQuotes (bytes : List UInt8) : List UInt8 :=
  bytes.flatMap fun b => if b = quote then [quote, quote] else [b]

def fieldBytes (options : WriteOptions) (field : String) : List UInt8 :=
  if options.quoting.quotes options.delimiter field then
    quote :: (doubleQuotes (encodeUtf8 field) ++ [quote])
  else encodeUtf8 field

/-- The bytes of a record with at least one field. -/
def recordBytes (options : WriteOptions) (fields : List String) : List UInt8 :=
  ((fields.map (fieldBytes options)).intersperse [options.delimiter]).flatten ++ [0xA]

/-- The bytes of a header and the records under it. -/
def tableBytes (options : WriteOptions) (header : List String) (records : List (List String)) :
    List UInt8 :=
  ((if options.headers then [header] else []) ++ records).flatMap (recordBytes options)

/-- Why a text did not reach its destination. -/
inductive WriteError where
  /-- The destination failed when the finished text was handed over. -/
  | unfinished (message : String)
  /-- The destination failed while the text was still being written. -/
  | interrupted (message : String)
  deriving DecidableEq

namespace WriteError

def message : WriteError → String
  | .unfinished message => s!"I/O error: {message}"
  | .interrupted message => s!"CSV library error: {message}"

end WriteError

/-- How many bytes are gathered before the destination sees any. -/
def bufferSize : Nat := 8192

/-- What arrives at a destination. One that fails on every write is noticed at
the end if the text fits the buffer, earlier if it does not, and never if there
is nothing to write. -/
def deliver (failure : Option String) (bytes : List UInt8) :
    Except WriteError (List UInt8) :=
  match failure with
  | none => .ok bytes
  | some message =>
      if bytes = [] then .ok []
      else if bytes.length ≤ bufferSize then .error (.unfinished message)
      else .error (.interrupted message)

end Delimited

end CycleComparison

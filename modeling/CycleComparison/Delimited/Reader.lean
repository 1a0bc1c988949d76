import CycleComparison.Delimited.Record
import CycleComparison.Text.Blank
import CycleComparison.Text.Utf8

/-!
# Reading delimited text

Each record is read on its own: its width is checked, its fields are trimmed and
decoded. `outcomes` lists what becomes of every record in order, good or bad.
`load` makes a table of that list: it stops at the row limit or at the first bad
record, whichever comes first, and refuses a text without records.
-/

namespace CycleComparison

namespace Delimited

structure ReadOptions where
  delimiter : UInt8
  trim : Bool
  maxRows : Nat
  flexible : Bool

namespace ReadOptions

/-- Commas, trimmed fields, at most a million rows of any width. -/
def default : ReadOptions :=
  { delimiter := 0x2C, trim := true, maxRows := 1000000, flexible := true }

end ReadOptions

structure Source where
  bytes : List UInt8
  /-- The message of the failure that ends the bytes, if the source fails instead
  of ending. -/
  failure : Option String
  /-- The number of bytes that a single read gives, if it is limited. -/
  chunk : Option Nat

namespace Source

def ofText (text : String) : Source := ⟨encodeUtf8 text, none, none⟩

/-- The bytes that the first read gives. -/
def firstRead (source : Source) : List UInt8 :=
  match source.chunk with
  | none => source.bytes
  | some size => source.bytes.take size

/-- Whether the first read starts with a byte order mark. Only a mark that comes
in one piece is noticed, and left out. -/
def showsMark (source : Source) : Bool := byteOrderMark.isPrefixOf source.firstRead

/-- Whether the first read gives a byte order mark and nothing else. Nothing is
left of it, which counts as the end of the source. -/
def endsWithMark (source : Source) : Bool := source.firstRead == byteOrderMark

def split (source : Source) (delimiter : UInt8) : Split :=
  Delimited.split source.showsMark delimiter source.bytes

end Source

/-- Why a record cannot be read. Records and fields are counted from zero. -/
inductive RecordError where
  /-- The record has another width than the first one. -/
  | unequalWidth (index : Nat) (start : Position) (found expected : Nat)
  /-- A field is not UTF-8 after its first `valid` bytes. -/
  | notUtf8 (index : Nat) (start : Position) (field valid : Nat)
  /-- The source failed before the record was complete. -/
  | sourceFailed (message : String)
  deriving DecidableEq

namespace RecordError

def message : RecordError → String
  | .unequalWidth index start found expected =>
      s!"CSV error: record {index} (line: {start.line}, byte: {start.byte}): " ++
        s!"found record with {found} fields, but the previous record has {expected} fields"
  | .notUtf8 index start field valid =>
      s!"CSV parse error: record {index} (line {start.line}, field: {field}, " ++
        s!"byte: {start.byte}): invalid utf-8: invalid UTF-8 in field {field} " ++
        s!"near byte index {valid}"
  | .sourceFailed message => message

/-- The line on which the record starts, where the error knows it. -/
def line? : RecordError → Option Nat
  | .unequalWidth _ start _ _ => some start.line
  | .notUtf8 _ start _ _ => some start.line
  | .sourceFailed _ => none

end RecordError

/-- The text of a field. Blank bytes are trimmed before the field is decoded,
the other blanks after it. -/
def decodeField (trimmed : Bool) (field : List UInt8) : Except Nat String :=
  if trimmed then
    match decodeUtf8 (stripEnds isBlankByte field) with
    | .ok text => .ok (trim text)
    | .error valid => .error valid
  else decodeUtf8 field

/-- The texts of the fields from number `field` on; an error carries the number
of the field and the length of its valid beginning. -/
def decodeFields (trimmed : Bool) : Nat → List (List UInt8) → Except (Nat × Nat) (List String)
  | _, [] => .ok []
  | field, bytes :: rest =>
      match decodeField trimmed bytes with
      | .error valid => .error (field, valid)
      | .ok text =>
          match decodeFields trimmed (field + 1) rest with
          | .error e => .error e
          | .ok texts => .ok (text :: texts)

/-- Reads the record with the given number; `expected` is the width that every
record must have. -/
def readRecord (options : ReadOptions) (expected : Nat) (index : Nat) (raw : RawRecord) :
    Except RecordError (List String) :=
  if options.flexible || raw.fields.length == expected then
    match decodeFields options.trim 0 raw.fields with
    | .error (field, valid) => .error (.notUtf8 index raw.start field valid)
    | .ok texts => .ok texts
  else .error (.unequalWidth index raw.start raw.fields.length expected)

/-- What becomes of each record of a source that goes on after its first read. A
source that fails loses the record it was in and ends with its failure. -/
def recordOutcomes (options : ReadOptions) (source : Source) :
    List (Except RecordError (List String)) :=
  let parts := source.split options.delimiter
  let expected := ((parts.records.head?).map (·.fields.length)).getD 0
  let read := List.mapIdx (readRecord options expected)
  match source.failure with
  | none => read parts.records
  | some message => read parts.terminated ++ [.error (.sourceFailed message)]

/-- What becomes of each record of a source. There is none, not even a failure,
if the source counts as ended after its first read. -/
def outcomes (options : ReadOptions) (source : Source) :
    List (Except RecordError (List String)) :=
  if source.endsWithMark then [] else recordOutcomes options source

inductive LoadError where
  /-- A record cannot be read; the line is that of the record, or its number
  counted from one where no line is known. -/
  | badRecord (line : Nat) (cause : RecordError)
  | empty
  | tooManyRows (limit actual : Nat)
  deriving DecidableEq

namespace LoadError

def message : LoadError → String
  | .badRecord line cause => s!"CSV parse error at line {line}: {cause.message}"
  | .empty => "CSV input is empty"
  | .tooManyRows limit actual =>
      s!"Security limit exceeded: row count {actual} exceeds maximum {limit}"

end LoadError

/-- Collects rows up to a limit; `rows` holds those read so far, in reverse, and
`count` their number. -/
def collect (maxRows : Nat) : Nat → List (List String) →
    List (Except RecordError (List String)) → Except LoadError (List (List String))
  | _, rows, [] => .ok rows.reverse
  | count, rows, outcome :: rest =>
      if maxRows ≤ count then .error (.tooManyRows maxRows (count + 1))
      else
        match outcome with
        | .error cause => .error (.badRecord (cause.line?.getD (count + 1)) cause)
        | .ok row => collect maxRows (count + 1) (row :: rows) rest

def load (options : ReadOptions) (source : Source) :
    Except LoadError (List (List String)) :=
  match outcomes options source with
  | [] => .error .empty
  | found => collect options.maxRows 0 [] found

end Delimited

end CycleComparison

/-!
# Records of delimited text

Delimited text is split into records before any byte is read as a character. A
record ends at a line feed or a carriage return; the bytes of terminators that
meet no record, such as those of an empty line, are skipped. A field that starts
with a quote runs to the closing quote, a doubled quote inside it stands for
one, and what follows the closing quote is taken as it is.

The splitter is a fold of `Scan.step` over the bytes. A record starts where the
one before it stopped, so its `start` may lie before skipped terminators.
-/

namespace CycleComparison

namespace Delimited

/-- A place in the text: the line, counted by line feeds from one, and the
number of bytes before it. -/
structure Position where
  line : Nat
  byte : Nat
  deriving DecidableEq

namespace Position

def first : Position := ⟨1, 0⟩

def after (p : Position) (b : UInt8) : Position :=
  ⟨if b = 0xA then p.line + 1 else p.line, p.byte + 1⟩

end Position

/-- A record before its bytes are read as characters. -/
structure RawRecord where
  start : Position
  fields : List (List UInt8)
  deriving DecidableEq

def quote : UInt8 := 0x22

/-- Whether a byte ends a record: line feed or carriage return. -/
def isTerminator (b : UInt8) : Bool := b == 0xA || b == 0xD

/-- Where the scan stands in a record. -/
inductive Mode where
  | between
  /-- At the start of a field that is not the first of its record. -/
  | fieldStart
  | plain
  | quoted
  /-- After a quote inside quotes, which closes them or is doubled. -/
  | quoteSeen
  deriving DecidableEq

/-- The state of the scan: the finished records, fields and bytes are kept in
reverse. `start` is where the current or next record starts. -/
structure Scan where
  mode : Mode
  field : List UInt8
  fields : List (List UInt8)
  records : List RawRecord
  start : Position
  here : Position

namespace Scan

def begin (here : Position) : Scan :=
  { mode := .between, field := [], fields := [], records := [],
    start := Position.first, here }

def push (s : Scan) (mode : Mode) (b : UInt8) : Scan :=
  { s with mode, field := b :: s.field }

def endField (s : Scan) : Scan :=
  { s with mode := .fieldStart, field := [], fields := s.field.reverse :: s.fields }

def record (s : Scan) : RawRecord :=
  ⟨s.start, (s.field.reverse :: s.fields).reverse⟩

def endRecord (s : Scan) : Scan :=
  { s with mode := .between, field := [], fields := [],
           records := s.record :: s.records, start := s.here }

/-- A byte outside quotes. The delimiter comes before the terminators. -/
def outside (delimiter : UInt8) (s : Scan) (b : UInt8) : Scan :=
  if b = delimiter then s.endField
  else if isTerminator b then s.endRecord
  else s.push .plain b

/-- A byte at the start of a field. The quote comes before the delimiter. -/
def opening (delimiter : UInt8) (s : Scan) (b : UInt8) : Scan :=
  if b = quote then { s with mode := .quoted } else s.outside delimiter b

def step (delimiter : UInt8) (s : Scan) (b : UInt8) : Scan :=
  let s := { s with here := s.here.after b }
  match s.mode with
  | .between => if isTerminator b then s else s.opening delimiter b
  | .fieldStart => s.opening delimiter b
  | .plain => s.outside delimiter b
  | .quoted => if b = quote then { s with mode := .quoteSeen } else s.push .quoted b
  | .quoteSeen => if b = quote then s.push .quoted b else s.outside delimiter b

end Scan

/-- The records that a terminator ends, and the one that the text ends. -/
structure Split where
  terminated : List RawRecord
  last : Option RawRecord

namespace Split

def records (s : Split) : List RawRecord := s.terminated ++ s.last.toList

end Split

def byteOrderMark : List UInt8 := [0xEF, 0xBB, 0xBF]

/-- Splits delimited text into its records. `skipsMark` says whether the text
starts with a byte order mark that is left out. -/
def split (skipsMark : Bool) (delimiter : UInt8) (bytes : List UInt8) : Split :=
  let here : Position := if skipsMark then ⟨1, byteOrderMark.length⟩ else Position.first
  let scan := (bytes.drop here.byte).foldl (Scan.step delimiter) (Scan.begin here)
  { terminated := scan.records.reverse
    last := if scan.mode = .between then none else some scan.record }

end Delimited

end CycleComparison

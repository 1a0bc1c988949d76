import CycleComparison.Benchmark.Json
import CycleComparison.Measurement.Basic

/-!
# Measurements in JSON

A measurement is a record. A classified measurement is one object with the
fields of the measurement and those of its classification. As its fields are
sorted out only after the whole object is known, everything in the object must
have a value, ignored members included, and its nesting is limited.
-/

namespace CycleComparison

namespace Measurement

def fieldNames : List String := ["id", "name", "iterations", "cycles"]

def members (m : Measurement) : List (String × Json) :=
  [("id", .ofInt m.id.toInt), ("name", .ofText m.name), ("iterations", .ofText m.iterations),
   ("cycles", .ofOption Binary64.toJson m.cycles)]

def toJson (m : Measurement) : Json := .ofMembers m.members

def ofFields? : List (Option Json) → Option Measurement
  | [some id, some name, some iterations, cycles] => do
      return { id := ← id.int64?
               name := ← name.text?
               iterations := ← iterations.text?
               cycles := ← Json.option? Json.binary64? cycles }
  | _ => none

def ofJson? (value : Json) : Option Measurement :=
  (value.fields? fieldNames).bind ofFields?

end Measurement

/-- The greatest number of levels in a document whose members are all read. -/
def Json.maxDepth : Nat := 127

/-- Whether every number of a document is in range and every string has a text. -/
def Json.isMeaningful (value : Json) : Bool :=
  value.all (fun numeral => numeral.approximate?.isSome) fun symbols => (textOf? symbols).isSome

namespace ClassifiedMeasurement

def toJson (m : ClassifiedMeasurement) : Json :=
  .ofMembers (m.measurement.members ++ m.classification.members)

/-- The classified measurement that an object is, at the given number of levels
inside a document. -/
def ofJson? (level : Nat) (value : Json) : Option ClassifiedMeasurement :=
  match value with
  | .object members =>
      if value.isMeaningful && decide (level + value.depth ≤ Json.maxDepth) then do
        return { measurement := ← (Json.objectFields? Measurement.fieldNames members).bind
                   Measurement.ofFields?
                 classification := ← (Json.objectFields? Classification.fieldNames members).bind
                   (Classification.ofFields? Json.isNullOrEmpty) }
      else none
  | _ => none

def tableToJson (ms : List ClassifiedMeasurement) : Json :=
  .ofMembers [("records", .ofList toJson ms)]

def tableOfJson? (value : Json) : Option (List ClassifiedMeasurement) :=
  match value.fields? ["records"] with
  | some [some records] => records.list? (ofJson? 2)
  | _ => none

end ClassifiedMeasurement

end CycleComparison

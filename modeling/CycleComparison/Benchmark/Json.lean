import CycleComparison.Benchmark.Name
import CycleComparison.Json.Fields
import CycleComparison.Json.Number

/-!
# Classifications in JSON

Versions and precisions are variants named by their labels, and a classification
is a record of the three parts of a name.
-/

namespace CycleComparison

def Version.toJson (version : Version) : Json := .ofText version.label

def Version.ofJson? (isEmpty : Json → Bool) (value : Json) : Option Version :=
  (value.variantName? isEmpty).bind Version.ofLabel?

def Precision.toJson (precision : Precision) : Json := .ofText precision.label

def Precision.ofJson? (isEmpty : Json → Bool) (value : Json) : Option Precision :=
  (value.variantName? isEmpty).bind Precision.ofLabel?

namespace Classification

def fieldNames : List String := ["exceptions", "version", "type"]

def members (kind : Classification) : List (String × Json) :=
  [("exceptions", .ofNat kind.exceptions.toNat), ("version", kind.version.toJson),
   ("type", kind.precision.toJson)]

def toJson (kind : Classification) : Json := .ofMembers kind.members

def ofFields? (isEmpty : Json → Bool) : List (Option Json) → Option Classification
  | [some exceptions, some version, some precision] => do
      return { exceptions := ← exceptions.uint64?
               version := ← Version.ofJson? isEmpty version
               precision := ← Precision.ofJson? isEmpty precision }
  | _ => none

def ofJson? (value : Json) : Option Classification :=
  (value.fields? fieldNames).bind (ofFields? Json.isNull)

end Classification

end CycleComparison

import CycleComparison.Json.Basic

/-!
# Records and variants in JSON

A record is an object with named fields or an array of the fields in their
order. In an object the order is free and other members are ignored, but a field
must not be repeated; an array has exactly the fields. A variant is its name, or
an object whose only member is the name with an empty value.
-/

namespace CycleComparison

namespace Json

/-- The members of an object by the texts of their names. -/
def named? (members : List (List Symbol × Json)) : Option (List (String × Json)) :=
  members.mapM fun (name, value) => (textOf? name).map (·, value)

/-- The member of a name, which must not be repeated. The outer option is the
refusal. -/
def member? (members : List (String × Json)) (name : String) : Option (Option Json) :=
  match members.filter fun member => member.1 == name with
  | [] => some none
  | [(_, value)] => some (some value)
  | _ => none

/-- The fields of an object, in the order of the names. -/
def objectFields? (names : List String) (members : List (List Symbol × Json)) :
    Option (List (Option Json)) :=
  (named? members).bind fun members => names.mapM (member? members)

/-- The fields of a record, in the order of the names. -/
def fields? (names : List String) : Json → Option (List (Option Json))
  | .array items => if items.length = names.length then some (items.map some) else none
  | .object members => objectFields? names members
  | _ => none

def isNull : Json → Bool
  | .null => true
  | _ => false

/-- Whether a document is `null` or an object without members. -/
def isNullOrEmpty : Json → Bool
  | .null => true
  | .object [] => true
  | _ => false

/-- The name of a variant; `isEmpty` says what counts as an empty value. -/
def variantName? (isEmpty : Json → Bool) : Json → Option String
  | .string symbols => textOf? symbols
  | .object [(name, value)] => if isEmpty value then textOf? name else none
  | _ => none

end Json

end CycleComparison

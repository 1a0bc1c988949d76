import CycleComparison.Json.Token

/-!
# Reading JSON

A text is a document if its tokens are those of one document and no more. The
three readers of values, items and members call each other under a bound on the
depth of the calls; two calls at most are needed for each token.
-/

namespace CycleComparison

namespace Json

mutual

/-- Reads a document. -/
def readValue? : Nat → List Token → Option (Json × List Token)
  | 0, _ => none
  | _ + 1, .null :: rest => some (.null, rest)
  | _ + 1, .bool value :: rest => some (.bool value, rest)
  | _ + 1, .number numeral :: rest => some (.number numeral, rest)
  | _ + 1, .string symbols :: rest => some (.string symbols, rest)
  | _ + 1, .openArray :: .closeArray :: rest => some (.array [], rest)
  | _ + 1, .openObject :: .closeObject :: rest => some (.object [], rest)
  | bound + 1, .openArray :: rest =>
      (readItems? bound rest).map fun (items, rest) => (.array items, rest)
  | bound + 1, .openObject :: rest =>
      (readMembers? bound rest).map fun (members, rest) => (.object members, rest)
  | _ + 1, _ => none

/-- Reads the items of an array that is not empty, up to its end. -/
def readItems? : Nat → List Token → Option (List Json × List Token)
  | 0, _ => none
  | bound + 1, tokens =>
      match readValue? bound tokens with
      | some (value, .comma :: rest) =>
          (readItems? bound rest).map fun (items, rest) => (value :: items, rest)
      | some (value, .closeArray :: rest) => some ([value], rest)
      | _ => none

/-- Reads the members of an object that is not empty, up to its end. -/
def readMembers? : Nat → List Token → Option (List (List Symbol × Json) × List Token)
  | 0, _ => none
  | bound + 1, .string name :: .colon :: tokens =>
      match readValue? bound tokens with
      | some (value, .comma :: rest) =>
          (readMembers? bound rest).map fun (members, rest) => ((name, value) :: members, rest)
      | some (value, .closeObject :: rest) => some ([(name, value)], rest)
      | _ => none
  | _ + 1, _ => none

end

def ofTokens? (tokens : List Token) : Option Json :=
  match readValue? (2 * tokens.length) tokens with
  | some (value, []) => some value
  | _ => none

def read? (text : String) : Option Json := (tokens? text.toList).bind ofTokens?

end Json

end CycleComparison

import CycleComparison.Json.Basic

/-!
# Writing JSON

One writer serves the compact and the pretty form; a `Spacing` says what stands
where a line may begin and what follows a colon. Empty arrays and objects are
written without spacing.
-/

namespace CycleComparison

namespace Json

/-- What is written between the tokens of a document. -/
structure Spacing where
  /-- What begins a line at a depth. -/
  line : Nat → List Char
  /-- What follows the colon of a member. -/
  afterColon : List Char

namespace Spacing

/-- Nothing between the tokens. -/
def compact : Spacing := ⟨fun _ => [], []⟩

/-- Items and members on lines of their own, indented by two blanks a level. -/
def pretty : Spacing := ⟨fun depth => '\n' :: List.replicate (2 * depth) ' ', [' ']⟩

end Spacing

mutual

/-- Writes a document that stands at a depth. -/
def write (spacing : Spacing) (depth : Nat) : Json → List Char
  | .null => "null".toList
  | .bool true => "true".toList
  | .bool false => "false".toList
  | .number numeral => numeral.chars
  | .string symbols => quoted symbols
  | .array [] => ['[', ']']
  | .array (value :: rest) =>
      '[' :: (spacing.line (depth + 1) ++ write spacing (depth + 1) value ++
        writeItems spacing depth rest)
  | .object [] => ['\x7b', '\x7d']
  | .object ((name, value) :: rest) =>
      '\x7b' :: (spacing.line (depth + 1) ++ quoted name ++ ':' :: spacing.afterColon ++
        write spacing (depth + 1) value ++ writeMembers spacing depth rest)

/-- Writes the items after the first one, and the end of the array. -/
def writeItems (spacing : Spacing) (depth : Nat) : List Json → List Char
  | [] => spacing.line depth ++ [']']
  | value :: rest =>
      ',' :: (spacing.line (depth + 1) ++ write spacing (depth + 1) value ++
        writeItems spacing depth rest)

/-- Writes the members after the first one, and the end of the object. -/
def writeMembers (spacing : Spacing) (depth : Nat) : List (List Symbol × Json) → List Char
  | [] => spacing.line depth ++ ['\x7d']
  | (name, value) :: rest =>
      ',' :: (spacing.line (depth + 1) ++ quoted name ++ ':' :: spacing.afterColon ++
        write spacing (depth + 1) value ++ writeMembers spacing depth rest)

end

def toCompactText (value : Json) : String := String.ofList (value.write .compact 0)

def toPrettyText (value : Json) : String := String.ofList (value.write .pretty 0)

end Json

end CycleComparison

import CycleComparison.Decimal.Numeral
import CycleComparison.Json.Text

/-!
# JSON documents

A `Json` value keeps numbers and strings as they are written and the members of
an object in their order, repetitions included. Which numerals have a value and
which strings have a text is asked when a value is wanted, not when a document
is read.
-/

namespace CycleComparison

inductive Json where
  | null
  | bool (value : Bool)
  | number (numeral : Numeral)
  | string (symbols : List Json.Symbol)
  | array (items : List Json)
  | object (members : List (List Json.Symbol × Json))

namespace Json

instance : Inhabited Json := ⟨.null⟩

def ofText (text : String) : Json := .string (symbolsOf text)

def text? : Json → Option String
  | .string symbols => textOf? symbols
  | _ => none

def ofMembers (members : List (String × Json)) : Json :=
  .object (members.map fun (name, value) => (symbolsOf name, value))

/-- A value that may be absent, as `null` if it is. -/
def ofOption {α : Type} (f : α → Json) : Option α → Json
  | none => .null
  | some x => f x

/-- A value that may be absent: it is if there is no document or if it is `null`.
The outer option is the refusal. -/
def option? {α : Type} (f : Json → Option α) : Option Json → Option (Option α)
  | none => some none
  | some .null => some none
  | some value => (f value).map some

def ofList {α : Type} (f : α → Json) (values : List α) : Json := .array (values.map f)

def list? {α : Type} (f : Json → Option α) : Json → Option (List α)
  | .array items => items.mapM f
  | _ => none

mutual

/-- The number of levels of arrays and objects in a document. -/
def depth : Json → Nat
  | .array items => depthOfItems items + 1
  | .object members => depthOfMembers members + 1
  | _ => 0

def depthOfItems : List Json → Nat
  | [] => 0
  | value :: rest => max (depth value) (depthOfItems rest)

def depthOfMembers : List (List Symbol × Json) → Nat
  | [] => 0
  | (_, value) :: rest => max (depth value) (depthOfMembers rest)

end

mutual

/-- Whether every number and every string of a document satisfies a predicate. -/
def all (number : Numeral → Bool) (string : List Symbol → Bool) : Json → Bool
  | .null => true
  | .bool _ => true
  | .number numeral => number numeral
  | .string symbols => string symbols
  | .array items => allItems number string items
  | .object members => allMembers number string members

/-- `all` for the items of an array. -/
def allItems (number : Numeral → Bool) (string : List Symbol → Bool) : List Json → Bool
  | [] => true
  | value :: rest => all number string value && allItems number string rest

/-- `all` for the members of an object, whose names are strings, too. -/
def allMembers (number : Numeral → Bool) (string : List Symbol → Bool) :
    List (List Symbol × Json) → Bool
  | [] => true
  | (name, value) :: rest =>
      string name && all number string value && allMembers number string rest

end

end Json

end CycleComparison

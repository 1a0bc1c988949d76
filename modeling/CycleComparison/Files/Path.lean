/-!
# Paths

The text of a path is a sequence of names with slashes between them. Empty names
do not count, and `.` stands for the place where it is met. The extension of a
path is what follows the last point of its last name, unless the point is the
first character of the name or the name is `..`.
-/

namespace CycleComparison

namespace Path

/-- The parts of a text between its slashes. -/
def splitSlashes : List Char → List (List Char)
  | [] => [[]]
  | c :: rest =>
      if c = '/' then [] :: splitSlashes rest
      else
        match splitSlashes rest with
        | [] => [[c]]
        | part :: parts => (c :: part) :: parts

def names (path : String) : List String :=
  (splitSlashes path.toList).filterMap fun part =>
    if part = [] then none else some (String.ofList part)

/-- Whether a path starts with a slash, and so at the root. -/
def isAbsolute (path : String) : Bool := path.toList.head? == some '/'

def endsWithSlash (path : String) : Bool := path.toList.getLast? == some '/'

/-- The last name in a path, other than `.`. -/
def lastName? (path : String) : Option String := ((names path).filter (· != ".")).getLast?

/-- The extension of a name: what follows its last point, if anything precedes it. -/
def extensionOfName? (name : String) : Option String :=
  let afterPoint := (name.toList.reverse.takeWhile (· != '.')).reverse
  let beforePoint := (name.toList.reverse.dropWhile (· != '.')).tail
  if name = ".." ∨ beforePoint = [] then none else some (String.ofList afterPoint)

def extension? (path : String) : Option String := (lastName? path).bind extensionOfName?

end Path

end CycleComparison

/-!
# Command-line arguments

The command takes an input path and the options `--out PATH`, `--detailed`,
`--help` and `--version`. The arguments are read from left to right. An option
`--out` without an attached value awaits the next argument that is no option,
and its value counts only when something else is accepted after it or the
arguments end; until then a wrong argument is reported first.
-/

namespace CycleComparison

/-- What the command is asked to do. -/
structure Arguments where
  input : String
  output : Option String
  detailed : Bool
  deriving DecidableEq

inductive UsageError where
  /-- An unknown option or a second input path. -/
  | unknownArgument
  /-- `--out` has no value. -/
  | missingValue
  | repeatedOption
  /-- A value is attached to an option that takes none. -/
  | unexpectedValue
  | helpRequested
  | versionRequested
  deriving DecidableEq

namespace Arguments

def defaultInput : String := "patch.csv"

/-- An option `--out` that does not count yet. -/
inductive Pending where
  | nothing
  | awaiting
  | value (path : String)

/-- What the arguments have said so far. -/
structure State where
  input : Option String
  output : Option String
  detailed : Bool
  pending : Pending
  /-- Whether `--` has ended the options. -/
  optionsEnded : Bool

namespace State

def start : State :=
  { input := none, output := none, detailed := false, pending := .nothing,
    optionsEnded := false }

/-- Makes the pending option count. -/
def settle (s : State) : Except UsageError State :=
  match s.pending with
  | .nothing => .ok s
  | .awaiting => .error .missingValue
  | .value path =>
      if s.output.isSome then .error .repeatedOption
      else .ok { s with output := some path, pending := .nothing }

/-- Takes an option `--out`, with the value attached to it if there is one. An
attached value counts at once. -/
def takeOutput (s : State) (attached : Option String) : Except UsageError State := do
  let s ← s.settle
  match attached with
  | none => return { s with pending := .awaiting }
  | some path => settle { s with pending := .value path }

def takeDetailed (s : State) : Except UsageError State := do
  let s ← s.settle
  if s.detailed then throw .repeatedOption
  return { s with detailed := true }

/-- Takes an option that ends the run with an answer. -/
def takeRequest (s : State) (request : UsageError) : Except UsageError State := do
  let _ ← s.settle
  throw request

def takeLong (s : State) (name : String) (attached : Option String) :
    Except UsageError State :=
  match name, attached with
  | "out", _ => s.takeOutput attached
  | "detailed", none => s.takeDetailed
  | "help", none => s.takeRequest .helpRequested
  | "version", none => s.takeRequest .versionRequested
  | "detailed", some _ => .error .unexpectedValue
  | "help", some _ => .error .unexpectedValue
  | "version", some _ => .error .unexpectedValue
  | _, _ => .error .unknownArgument

/-- The value attached to a short option: what follows it, without an equals sign
at the front. -/
def attachedValue? : List Char → Option String
  | [] => none
  | '=' :: rest => some (String.ofList rest)
  | rest => some (String.ofList rest)

/-- Takes short options one after the other; `o` takes what follows it. -/
def takeShort (s : State) : List Char → Except UsageError State
  | [] => .ok s
  | 'o' :: rest => s.takeOutput (attachedValue? rest)
  | 'd' :: rest => do (← s.takeDetailed).takeShort rest
  | 'h' :: _ => s.takeRequest .helpRequested
  | 'V' :: _ => s.takeRequest .versionRequested
  | _ :: _ => .error .unknownArgument

def takeInput (s : State) (path : String) : Except UsageError State := do
  if s.input.isSome then throw .unknownArgument
  let s ← s.settle
  return { s with input := some path }

/-- The name of a long option and the value attached to it. -/
def splitLong (text : List Char) : String × Option String :=
  let name := String.ofList (text.takeWhile (· != '='))
  match text.dropWhile (· != '=') with
  | [] => (name, none)
  | _ :: rest => (name, some (String.ofList rest))

/-- Takes an argument that is no option: the awaited value or the input path. -/
def takePlain (s : State) (argument : String) : Except UsageError State :=
  match s.optionsEnded, s.pending with
  | false, .awaiting => .ok { s with pending := .value argument }
  | _, _ => s.takeInput argument

def take (s : State) (argument : String) : Except UsageError State :=
  if s.optionsEnded then s.takePlain argument
  else
    match argument.toList with
    | ['-', '-'] => .ok { s with optionsEnded := true }
    | '-' :: '-' :: rest =>
        let (name, attached) := splitLong rest
        s.takeLong name attached
    | '-' :: c :: rest => s.takeShort (c :: rest)
    | _ => s.takePlain argument

end State

def read (arguments : List String) : Except UsageError Arguments := do
  let s ← (← arguments.foldlM State.take State.start).settle
  return { input := s.input.getD defaultInput, output := s.output, detailed := s.detailed }

end Arguments

end CycleComparison

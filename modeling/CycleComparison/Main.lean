import CycleComparison.Command.Run
import CycleComparison.Command.Timestamp
import Std.Time.DateTime.Timestamp

/-!
# The program

The program carries out the command on the files of the machine: it reads the
input, asks for the plan and prints and writes what the plan says. A failure is
told on the error stream and makes the program fail.
-/

namespace CycleComparison

namespace Program

/-- The code that the system gives to an error. -/
def errorCode? : IO.Error → Option UInt32
  | .noFileOrDirectory _ code _ => some code
  | .inappropriateType _ code _ => some code
  | .permissionDenied _ code _ => some code
  | .invalidArgument _ code _ => some code
  | .noSuchThing _ code _ => some code
  | .resourceExhausted _ code _ => some code
  | .otherError code _ => some code
  | _ => none

/-- The errors that file systems are known to report. A code may come with its
sign changed. -/
def fileError? (e : IO.Error) : Option FileError :=
  match (errorCode? e).map fun code => min code (0 - code) with
  | some 2 => some .notFound
  | some 20 => some .notDirectory
  | some 21 => some .isDirectory
  | some 36 => some .nameTooLong
  | _ => none

def errorText (e : IO.Error) : String :=
  match fileError? e with
  | some known => known.message
  | none => toString e

def inputError (path : String) (e : IO.Error) : CommandError :=
  match fileError? e with
  | some known => Command.inputError path known
  | none => .io path (toString e)

def attempt {α : Type} (action : IO α) : IO (Except IO.Error α) := do
  try
    return .ok (← action)
  catch e =>
    return .error e

/-- The number of bytes that are read at a time. -/
def pieceSize : USize := 65536

/-- The size of a file and its bytes. Beyond the limit the bytes are only counted. -/
def readWithin (limit : Nat) (path : String) : IO (Nat × ByteArray) := do
  let handle ← IO.FS.Handle.mk path .read
  let mut size := 0
  let mut kept := ByteArray.empty
  repeat
    let piece ← handle.read pieceSize
    if piece.isEmpty then break
    size := size + piece.size
    kept := if limit < size then .empty else kept ++ piece
  return (size, kept)

/-- The text of the input. A size beyond the limit is reported before anything else that
is wrong; that a path leads to a directory shows only when it is read. -/
def readInput (limit : Nat) (path : String) : ExceptT CommandError IO String := do
  match ← attempt (readWithin limit path) with
  | .error e =>
      if fileError? e = some .isDirectory ∧ limit < Command.directorySize then
        throw (.fileTooLarge path Command.directorySize limit)
      throw (inputError path e)
  | .ok (size, bytes) =>
      if limit < size then throw (.fileTooLarge path size limit)
      ExceptT.mk (pure (Command.decodeInput path bytes.toList))

def writeExport (path : String) (content : List UInt8) : ExceptT CommandError IO Unit := do
  match ← attempt (IO.FS.writeBinFile path (ByteArray.mk content.toArray)) with
  | .error e => throw (.report path (errorText e))
  | .ok () => return ()

def run (arguments : Arguments) : ExceptT CommandError IO Unit := do
  let limit := Command.sizeLimit (← IO.getEnv "CYCLECMP_MAX_FILE_SIZE")
  let text ← readInput limit arguments.input
  let analysis ← ExceptT.mk (pure (Command.analyzeInput text))
  let now ← Std.Time.Timestamp.now
  let plan := Command.plan arguments
    (Timestamp.text now.toNanosecondsSinceUnixEpoch.val) analysis
  IO.print plan.stdout
  IO.eprint plan.stderr
  match plan.exported with
  | none => return ()
  | some (path, content) => writeExport path content

/-- How the program is used. -/
def usage : String := "Usage: cyclecmp [OPTIONS] [CSV]"

def usageText : UsageError → String
  | .unknownArgument => "error: unexpected argument\n\n" ++ usage
  | .missingValue => "error: a value is required for '--out <PATH>'\n\n" ++ usage
  | .repeatedOption => "error: an option cannot be used multiple times\n\n" ++ usage
  | .unexpectedValue => "error: unexpected value for an option\n\n" ++ usage
  | .helpRequested => "compare new and old benchmark cycle counts\n\n" ++ usage
  | .versionRequested => "cyclecmp"

end Program

end CycleComparison

open CycleComparison in
def main (args : List String) : IO UInt32 := do
  match Arguments.read args with
  | .error request =>
      if request = .helpRequested ∨ request = .versionRequested then
        IO.println (Program.usageText request)
        return 0
      IO.eprintln (Program.usageText request)
      return 2
  | .ok arguments =>
      match ← (Program.run arguments).run with
      | .ok () => return 0
      | .error e =>
          IO.eprintln ("Error: " ++ e.message)
          return 1

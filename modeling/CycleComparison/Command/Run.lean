import CycleComparison.Command.Arguments
import CycleComparison.Command.Error
import CycleComparison.Files.FileSystem
import CycleComparison.Report.Format

/-!
# Running the command

The command reads its input, analyzes it and makes a `Plan`: what it prints and
what it exports. Nothing is printed or written before the plan is complete, so a
failure up to there leaves no trace. `run` carries a plan out on a file system;
the program itself does the same with the files of the machine.
-/

namespace CycleComparison

namespace Command

def defaultSizeLimit : Nat := 1073741824

/-- The natural number of a setting: digits after at most one plus sign. -/
def settingValue? (setting : String) : Option UInt64 :=
  match setting.toList with
  | '+' :: digits => (Decimal.natural? digits).bind uint64OfNat?
  | digits => (Decimal.natural? digits).bind uint64OfNat?

/-- The size limit that a setting gives; one that is no number is ignored. -/
def sizeLimit (setting : Option String) : Nat :=
  ((setting.bind settingValue?).map UInt64.toNat).getD defaultSizeLimit

def directorySize : Nat := 4096

def entrySize : Entry → Nat
  | .file content => content.length
  | .directory => directorySize

def decodeInput (path : String) (bytes : List UInt8) : Except CommandError String :=
  match decodeUtf8 bytes with
  | .ok text => .ok text
  | .error _ => .error (.io path "stream did not contain valid UTF-8")

def inputError (path : String) : FileError → CommandError
  | .notFound => .notFound path
  | cause => .io path cause.message

/-- The text of the input. Its size is checked before it is read. -/
def readInput (limit : Nat) (fs : FileSystem) (path : String) : Except CommandError String := do
  let entry ← (fs.find path).mapError (inputError path)
  if limit < entrySize entry then throw (.fileTooLarge path (entrySize entry) limit)
  match entry with
  | .directory => throw (.io path FileError.isDirectory.message)
  | .file content => decodeInput path content

/-- What the command does once its input is analyzed. -/
structure Plan where
  stdout : String
  stderr : String
  exported : Option (String × List UInt8)

def emptyNote : String :=
  "Note: no type was measured in both versions, nothing to compare\n"

def plan (arguments : Arguments) (timestamp : String) (analysis : Analysis) : Plan :=
  let report := Report.ofAnalysis arguments.input timestamp analysis
  { stdout := if arguments.detailed then report.toDetailedText else report.toText
    stderr := if analysis.summaries.toList.isEmpty then emptyNote else ""
    exported := arguments.output.map fun path =>
      (path, report.render (ReportFormat.ofPath path)) }

def analyzeInput (text : String) : Except CommandError Analysis :=
  (analyzeSource .default (.ofText text)).mapError .ofProcessing

/-- What a run leaves behind. -/
structure Outcome where
  stdout : String
  stderr : String
  files : FileSystem
  result : Except CommandError Unit

def writeExport (fs : FileSystem) :
    Option (String × List UInt8) → Except CommandError FileSystem
  | none => .ok fs
  | some (path, content) =>
      (fs.write path content).mapError fun cause => .report path cause.message

/-- Runs the command on a file system. -/
def run (limit : Nat) (timestamp : String) (fs : FileSystem) (arguments : Arguments) : Outcome :=
  match (readInput limit fs arguments.input).bind analyzeInput with
  | .error e => { stdout := "", stderr := "", files := fs, result := .error e }
  | .ok analysis =>
      let plan := plan arguments timestamp analysis
      let written := writeExport fs plan.exported
      { stdout := plan.stdout
        stderr := plan.stderr
        files := written.toOption.getD fs
        result := written.map fun _ => () }

end Command

end CycleComparison

import CycleComparison.Analysis.Delimited
import CycleComparison.Decimal.Digits

/-!
# Errors of the command

Every failure of the command is told in one line. What went wrong with the
input is either its delimited text or its analysis, and these have their own
descriptions.
-/

namespace CycleComparison

/-- Why the command fails. -/
inductive CommandError where
  | io (path message : String)
  /-- The input is larger than the limit, in bytes. -/
  | fileTooLarge (path : String) (actual limit : Nat)
  | notFound (path : String)
  | csv (message : String)
  | analysis (cause : AnalysisError)
  | report (path message : String)
  deriving DecidableEq

namespace CommandError

def message : CommandError → String
  | .io path message => s!"I/O error for '{path}': {message}"
  | .fileTooLarge path actual limit =>
      s!"File '{path}' is too large ({actual} bytes). Maximum allowed: {limit} bytes " ++
        s!"({limit / 1048576} MB)"
  | .notFound path => s!"CSV not found: {path}"
  | .csv message => s!"CSV error: {message}"
  | .analysis cause => cause.message
  | .report path message => s!"Report export failed: '{path}': {message}"

def ofProcessing : ProcessingError → CommandError
  | .analysis cause => .analysis cause
  | .load cause => .csv cause.message
  | .write cause => .csv cause.message

end CommandError

end CycleComparison

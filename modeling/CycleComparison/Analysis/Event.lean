import CycleComparison.Benchmark.Name
import CycleComparison.Text.Uppercase

/-!
# The log of a run

A run reports an `Event` when a stage is complete, and it ends with an outcome.
`Run` keeps the two together: an event that is in the log of a run was reported
before the run failed, if it failed.
-/

namespace CycleComparison

/-- What a run reports on its way. -/
inductive Event where
  | rowsRead (rows : Nat)
  | normalized (headless : Bool) (kept dropped : Nat)
  | classified (kept dropped : Nat)
  | tableBuilt (precision : Precision) (rows : Nat) (versions : List Version)
  /-- Both versions of a precision are there, but no row has a speedup. -/
  | speedupUndefined (precision : Precision)
  /-- At most one version of a precision is there. -/
  | notCompared (precision : Precision) (versions : List Version)
  deriving DecidableEq

namespace Event

/-- Whether an event is a warning; the others are for debugging. -/
def isWarning : Event → Bool
  | .speedupUndefined _ => true
  | _ => false

def message : Event → String
  | .rowsRead _ => "read delimited input"
  | .normalized _ _ _ => "normalized input rows"
  | .classified _ _ => "classified benchmark names"
  | .tableBuilt _ _ _ => "built comparison table"
  | .speedupUndefined _ =>
      "no exception count has both versions with a non-zero new value, speedup undefined"
  | .notCompared _ _ => "only one version present, skipping comparison"

def versionsText (versions : List Version) : String :=
  "[" ++ ", ".intercalate (versions.map fun v => capitalize v.label) ++ "]"

/-- The values that an event carries, by name. -/
def fields : Event → List (String × String)
  | .rowsRead rows => [("rows", Decimal.naturalText rows)]
  | .normalized headless kept dropped =>
      [("legacy", if headless then "true" else "false"),
       ("kept", Decimal.naturalText kept), ("dropped", Decimal.naturalText dropped)]
  | .classified kept dropped =>
      [("kept", Decimal.naturalText kept), ("dropped", Decimal.naturalText dropped)]
  | .tableBuilt precision rows versions =>
      [("precision", precision.label), ("rows", Decimal.naturalText rows),
       ("versions", versionsText versions)]
  | .speedupUndefined precision => [("precision", precision.label)]
  | .notCompared precision versions =>
      [("precision", precision.label), ("versions", versionsText versions)]

end Event

/-- A computation with its log, in the order of reporting. -/
structure Run (ε α : Type) where
  events : List Event
  outcome : Except ε α

namespace Run

variable {ε ε' α β : Type}

def ofExcept (outcome : Except ε α) : Run ε α := ⟨[], outcome⟩

def report (events : List Event) : Run ε Unit := ⟨events, .ok ()⟩

/-- A run and, if it succeeds, another one after it. -/
def andThen (run : Run ε α) (next : α → Run ε β) : Run ε β :=
  match run.outcome with
  | .error e => ⟨run.events, .error e⟩
  | .ok a => ⟨run.events ++ (next a).events, (next a).outcome⟩

@[simp] theorem andThen_ofExcept_ok (a : α) (next : α → Run ε β) :
    (ofExcept (.ok a)).andThen next = next a := rfl

@[simp] theorem andThen_ofExcept_error (e : ε) (next : α → Run ε β) :
    (ofExcept (.error e)).andThen next = ofExcept (.error e) := rfl

@[simp] theorem andThen_report (events : List Event) (next : Unit → Run ε β) :
    (report events).andThen next = ⟨events ++ (next ()).events, (next ()).outcome⟩ := rfl

instance : Monad (Run ε) where
  pure a := ofExcept (.ok a)
  bind := andThen

def mapError (f : ε → ε') (run : Run ε α) : Run ε' α :=
  ⟨run.events, run.outcome.mapError f⟩

end Run

end CycleComparison

import CycleComparison.Binary64.Arithmetic

/-!
# The running mean

A `RunningMean` takes in one value after another and moves towards each by the
share that the value has among those seen so far, so the sum of the values is
never formed. The recurrence is stated for any `Scalar`: over the rationals it
is the arithmetic mean, over binary64 each of its three operations rounds.
-/

namespace CycleComparison

/-- Numbers that statistics are computed in. -/
class Scalar (α : Type) extends Zero α, Add α, Sub α, Div α, NatCast α where
  /-- Equal to zero, of whatever sign. -/
  isZero : α → Bool
  /-- An ordinary number. -/
  isFinite : α → Bool

instance : Scalar Binary64 where
  isZero := Binary64.isZero
  isFinite := Binary64.isFinite

/-- The mean of the values seen so far and their number. -/
structure RunningMean (α : Type) where
  mean : α
  count : Nat

namespace RunningMean

variable {α : Type} [Scalar α]

def empty : RunningMean α := ⟨0, 0⟩

def push (acc : RunningMean α) (value : α) : RunningMean α where
  mean := acc.mean + (value - acc.mean) / ((acc.count + 1 : Nat) : α)
  count := acc.count + 1

/-- The mean, unless there was no value. -/
def mean? (acc : RunningMean α) : Option α :=
  if acc.count = 0 then none else some acc.mean

end RunningMean

/-- The running mean of a list of values, taken in order. -/
def mean {α : Type} [Scalar α] (values : List α) : Option α :=
  (values.foldl RunningMean.push RunningMean.empty).mean?

@[simp] theorem mean_nil {α : Type} [Scalar α] : mean ([] : List α) = none := rfl

end CycleComparison

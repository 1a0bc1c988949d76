import CycleComparison.Binary64.Rounding

/-!
# Arithmetic on binary64 numbers

Each operation computes its exact result in units and rounds it once. The sign
of an exact zero follows the usual rule: a sum is negative zero only if both
terms are negative, a product or quotient takes the product of the signs.
-/

namespace CycleComparison

namespace Binary64

def neg : Binary64 → Binary64
  | .nan => .nan
  | .infinite negative => .infinite !negative
  | .finite negative step => .finite (!negative) step

/-- The value of a step with a sign. -/
def signedUnits (negative : Bool) (step : Nat) : Int :=
  if negative then -(stepUnits step : Int) else stepUnits step

def add : Binary64 → Binary64 → Binary64
  | .finite n k, .finite m l =>
      let sum := signedUnits n k + signedUnits m l
      if sum = 0 then zeroOf (n && m) else ofRatio (decide (sum < 0)) sum.natAbs 1
  | .infinite n, .infinite m => if n = m then .infinite n else .nan
  | .infinite n, .finite _ _ => .infinite n
  | .finite _ _, .infinite m => .infinite m
  | .nan, _ => .nan
  | _, .nan => .nan

def sub (x y : Binary64) : Binary64 := add x (neg y)

def mul : Binary64 → Binary64 → Binary64
  | .finite n k, .finite m l =>
      ofRatio (n != m) (stepUnits k * stepUnits l) unitsPerOne
  | .infinite n, .infinite m => .infinite (n != m)
  | .infinite n, .finite m l => if (l : Nat) = 0 then .nan else .infinite (n != m)
  | .finite n k, .infinite m => if (k : Nat) = 0 then .nan else .infinite (n != m)
  | .nan, _ => .nan
  | _, .nan => .nan

/-- The quotient, rounded once; a nonzero number over zero is infinite. -/
def div : Binary64 → Binary64 → Binary64
  | .finite n k, .finite m l =>
      if (l : Nat) = 0 then
        if (k : Nat) = 0 then .nan else .infinite (n != m)
      else ofRatio (n != m) (unitsPerOne * stepUnits k) (stepUnits l)
  | .infinite _, .infinite _ => .nan
  | .infinite n, .finite m _ => .infinite (n != m)
  | .finite n _, .infinite m => zeroOf (n != m)
  | .nan, _ => .nan
  | _, .nan => .nan

/-- The number nearest to a natural number. -/
def ofNat (n : Nat) : Binary64 := ofRatio false (unitsPerOne * n) 1

instance : Neg Binary64 := ⟨neg⟩
instance : Add Binary64 := ⟨add⟩
instance : Sub Binary64 := ⟨sub⟩
instance : Mul Binary64 := ⟨mul⟩
instance : Div Binary64 := ⟨div⟩
instance : NatCast Binary64 := ⟨ofNat⟩

end Binary64

end CycleComparison

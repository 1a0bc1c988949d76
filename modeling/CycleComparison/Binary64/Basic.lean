/-!
# Binary64 numbers

A binary64 number is `nan`, an infinity, or a finite magnitude with a sign. The
finite magnitudes are numbered in ascending order: step `0` is zero, step `1`
the least subnormal, and step `k + 1` the next magnitude after step `k`. The
number of a step is also the bit pattern of the magnitude, and `stepCount`
itself is the pattern of infinity, so encoding is addition.

Every finite magnitude is a whole number of units of `2 ^ -1074`, its
`stepUnits`. Exact values are therefore integers, and no rational arithmetic is
needed to say what an operation returns. There is one `nan`: the payload of a
not-a-number is never observed.
-/

namespace CycleComparison

namespace Binary64

/-- The number of finite magnitudes: 2047 binades of `2 ^ 52` steps each. -/
def stepCount : Nat := 2047 * Nat.pow 2 52

/-- The least subnormal is `2 ^ -unitPlaces`. Irreducible, since powers of this
size are not to be expanded in proofs. -/
@[irreducible] def unitPlaces : Nat := 1074

@[irreducible] def unitsPerOne : Nat := Nat.pow 2 unitPlaces

/-- The value of a step in units of `2 ^ -1074`. The first binade is
subnormal and counts its steps; in a later one the leading bit is implied. -/
def stepUnits (step : Nat) : Nat :=
  let binade := Nat.pow 2 52
  if step < binade then step
  else (binade + step % binade) * Nat.pow 2 (step / binade - 1)

end Binary64

/-- A binary64 number, with one `nan`. -/
inductive Binary64 where
  | nan
  | infinite (negative : Bool)
  | finite (negative : Bool) (step : Fin Binary64.stepCount)
  deriving DecidableEq

namespace Binary64

def zeroOf (negative : Bool) : Binary64 :=
  .finite negative ⟨0, by decide⟩

instance : Zero Binary64 := ⟨zeroOf false⟩

instance : Inhabited Binary64 := ⟨0⟩

/-- The exact value of a finite number in units of `2 ^ -1074`. -/
def units? : Binary64 → Option Int
  | .nan => none
  | .infinite _ => none
  | .finite negative step =>
      some (if negative then -(stepUnits step : Int) else stepUnits step)

@[simp] theorem units?_nan : units? .nan = none := rfl

@[simp] theorem units?_infinite (negative : Bool) :
    units? (.infinite negative) = none := rfl

def isFinite (x : Binary64) : Bool := x.units?.isSome

/-- Zero of either sign. -/
def isZero (x : Binary64) : Bool := x.units? == some 0

/-- The sign bit; `nan` counts as positive. -/
def isNegative : Binary64 → Bool
  | .nan => false
  | .infinite negative => negative
  | .finite negative _ => negative

/-- The whole number that a finite number is, if it is one. -/
def whole? (x : Binary64) : Option Int :=
  x.units?.bind fun units =>
    if units % unitsPerOne = 0 then some (units / unitsPerOne) else none

def ofBits (bits : UInt64) : Binary64 :=
  let negative := decide (Nat.pow 2 63 ≤ bits.toNat)
  let magnitude := bits.toNat % Nat.pow 2 63
  if h : magnitude < stepCount then .finite negative ⟨magnitude, h⟩
  else if magnitude = stepCount then .infinite negative
  else .nan

/-- The bit pattern of a number: the sign bit and the step. -/
def toBits : Binary64 → UInt64
  | .nan => 0x7ff8000000000000
  | .infinite negative => UInt64.ofNat ((if negative then Nat.pow 2 63 else 0) + stepCount)
  | .finite negative step => UInt64.ofNat ((if negative then Nat.pow 2 63 else 0) + step)

end Binary64

end CycleComparison

/-!
# Scalars

Times, rates and windows are measured in a number system that is left open here: the estimators use
only what `Scalar` lists. Doubles are the instance that runs, exact rationals the one in which a
statement can ignore rounding.

A number system may hold values that are no number. They compare false with everything, and the
least and the greatest of two values are the other one where one of the two is no number. Of two
values that compare equal, such as zeros of either sign, the second is taken.
-/

namespace Pacing

/-- A number system for times (ms), rates (segments per second) and windows (segments). -/
class Scalar (α : Type) extends Add α, Sub α, Mul α, Div α, LT α, LE α where
  decidableLT : DecidableLT α
  decidableLE : DecidableLE α
  /-- The value nearest to a count. -/
  ofNat : Nat → α
  /-- Holds of values that are no number. -/
  isNaN : α → Bool
  /-- Holds of numbers that are not infinite. -/
  isFinite : α → Bool
  /-- Drops the fraction and clamps to a 32-bit word; what is no number becomes zero. -/
  truncate : α → UInt32

namespace Scalar

variable {α : Type} [Scalar α]

instance : DecidableLT α := decidableLT

instance : DecidableLE α := decidableLE

def zero : α := ofNat 0

def one : α := ofNat 1

/-- The lesser of two values, the second of two equal ones. -/
def min (a b : α) : α :=
  if isNaN b then a else if a < b then a else b

/-- The greater of two values, the second of two equal ones. -/
def max (a b : α) : α :=
  if isNaN b then a else if b < a then a else b

/-- The value brought into `[lo, hi]`. What is no number stays as it is. -/
def clamp (x lo hi : α) : α :=
  let raised := if x < lo then lo else x
  if hi < raised then hi else raised

end Scalar

/-- Doubles. Each operation rounds its exact result to the nearest double, ties to the even one. -/
instance : Scalar Float where
  decidableLT := inferInstance
  decidableLE := inferInstance
  ofNat n := .ofModel (.ofNat n)
  isNaN := Float.isNaN
  isFinite := Float.isFinite
  truncate := Float.toUInt32

/-- Exact rationals. No operation rounds, and every value is a finite number. -/
instance : Scalar Rat where
  decidableLT := inferInstance
  decidableLE := inferInstance
  ofNat n := n
  isNaN _ := false
  isFinite _ := true
  truncate x := UInt32.ofNatClamp x.floor.toNat

end Pacing

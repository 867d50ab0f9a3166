/-!
# Doubles in decimal

A finite double is a sign and a count of units, each unit a power of two. Texts of doubles are made
from these parts in exact arithmetic.
-/

namespace Pacing.Decimal

/-! ## Digits and rounding -/

/-- The decimal digits of a count, most significant first. Zero has one digit. -/
def digits (n : Nat) : List Char := Nat.toDigits 10 n

def zeros (n : Nat) : List Char := List.replicate n '0'

/-- Where a value halfway between two neighbours goes. -/
inductive Tie
  | toEven
  | up
  deriving DecidableEq, Repr

/-- Whether the tie goes to the upper of the neighbours `lower` and `lower + 1`. -/
def Tie.goesUp (t : Tie) (lower : Nat) : Bool :=
  match t with
  | .toEven => lower % 2 == 1
  | .up => true

/-- Picks between the neighbours `lower` and `lower + 1`, by how twice the remainder compares with
the divisor. -/
def Tie.pick (t : Tie) (lower : Nat) : Ordering → Nat
  | .lt => lower
  | .eq => if t.goesUp lower then lower + 1 else lower
  | .gt => lower + 1

/-- The integer nearest to a quotient. -/
def roundDiv (t : Tie) (num den : Nat) : Nat :=
  t.pick (num / den) (compare (2 * (num % den)) den)

/-! ## Doubles taken apart -/

inductive Parts
  | nan
  | infinite (negative : Bool)
  /-- The magnitude is `m * 2 ^ q`. -/
  | finite (negative : Bool) (m : Nat) (q : Int)
  deriving DecidableEq, Repr

/-- The least exponent of a unit. -/
def leastExponent : Int := -1074

/-- The count of units at which the next smaller double is only half a unit away. -/
def leastNormal : Nat := Nat.pow 2 52

/-- Splits 64 bits into sign, 11 bits of exponent and 52 bits of fraction. -/
def Parts.ofBits (bits : UInt64) : Parts :=
  let n := bits.toNat
  let negative := n / Nat.pow 2 63 == 1
  let exponent : Nat := n / Nat.pow 2 52 % Nat.pow 2 11
  let fraction := n % Nat.pow 2 52
  if exponent = 2047 then
    if fraction = 0 then .infinite negative else .nan
  else if exponent = 0 then .finite negative fraction leastExponent
  else .finite negative (leastNormal + fraction) (leastExponent + exponent - 1)

def Parts.ofFloat (x : Float) : Parts := .ofBits x.toBits

/-! ## Signs and special values -/

def signText (negative : Bool) : List Char := if negative then ['-'] else []

def nanText : List Char := ['N', 'a', 'N']

def infiniteText (negative : Bool) : List Char := signText negative ++ ['i', 'n', 'f']

/-! ## Fixed decimals

A value with a fixed number of decimals is its exact value rounded to them, ties to the even
neighbour, never with an exponent. The sign stays where a value rounds to zero.
-/

/-- The number of hundredths, thousandths, ... nearest to `m * 2 ^ q`. -/
def scaled (places : Nat) (m : Nat) (q : Int) : Nat :=
  roundDiv .toEven (m * Nat.pow 10 places * Nat.pow 2 q.toNat) (Nat.pow 2 (-q).toNat)

/-- Writes a count of units of the last decimal. -/
def point (places n : Nat) : List Char :=
  let ds := zeros (places + 1 - (digits n).length) ++ digits n
  let whole := ds.length - places
  ds.take whole ++ (if places = 0 then [] else '.' :: ds.drop whole)

def fixedParts (places : Nat) : Parts → List Char
  | .nan => nanText
  | .infinite negative => infiniteText negative
  | .finite negative m q => signText negative ++ point places (scaled places m q)

/-- A double with `places` decimals. -/
def fixed (places : Nat) (x : Float) : String := .ofList (fixedParts places (.ofFloat x))

end Pacing.Decimal

import Pacing.Json

/-!
# Reading JSON numbers

The digits of a number are taken up as long as they fit an unsigned 64-bit word; the digits after
that only count for the exponent. A double is that word, rounded, and then multiplied or divided by
the double of a power of ten. Texts of up to fifteen digits and small exponents are read exactly;
longer ones may be off by a rounding.
-/

namespace Pacing.Json.Number

/-- The greatest unsigned 64-bit word. -/
def maxWord : Nat := UInt64.size - 1

def digitValue (c : Char) : Nat := c.toNat - '0'.toNat

/-! ## Digits -/

/-- The word made of digits, and how many of them did not fit any more. -/
def takeDigits (word : Nat) : List Char → Nat × Nat
  | [] => (word, 0)
  | c :: cs =>
    let longer := word * 10 + digitValue c
    if maxWord < longer then (word, cs.length + 1) else takeDigits longer cs

structure Pieces where
  minus : Bool
  whole : List Char
  /-- The digits after the point, if there is one. -/
  fraction : Option (List Char)
  /-- The sign and the digits of the exponent, if there is one. -/
  exponent : Option (Bool × List Char)
  deriving DecidableEq

def someDigits? (cs : List Char) : Option (List Char × List Char) :=
  let ds := cs.takeWhile Char.isDigit
  if ds.isEmpty then none else some (ds, cs.dropWhile Char.isDigit)

def sign : List Char → Bool × List Char
  | '-' :: cs => (true, cs)
  | '+' :: cs => (false, cs)
  | cs => (false, cs)

/-- A fraction, if a point begins the text. -/
def fraction? : List Char → Option (Option (List Char) × List Char)
  | '.' :: cs => (someDigits? cs).map fun (ds, rest) => (some ds, rest)
  | cs => some (none, cs)

/-- An exponent, if the text goes on at all. -/
def exponent? : List Char → Option (Option (Bool × List Char))
  | [] => some none
  | e :: cs =>
    if e == 'e' || e == 'E' then
      let (minus, rest) := sign cs
      match someDigits? rest with
      | some (ds, []) => some (some (minus, ds))
      | _ => none
    else none

/-- Splits what follows the sign. The whole part has no leading zero. -/
def Pieces.unsigned? (minus : Bool) (cs : List Char) : Option Pieces := do
  let (whole, cs) ← someDigits? cs
  if whole.head? == some '0' && 1 < whole.length then none
  else
    let (fraction, cs) ← fraction? cs
    let exponent ← exponent? cs
    return { minus, whole, fraction, exponent }

/-- Splits a number's text. -/
def Pieces.ofText? : List Char → Option Pieces
  | '-' :: cs => unsigned? true cs
  | cs => unsigned? false cs

/-! ## Values -/

/-- The double of a power of ten. -/
def powerOfTen (e : Nat) : Float := .ofScientific 1 false e

/-- The greatest power of ten that is a finite double. -/
def maxPower : Nat := 308

/-- A word times a power of ten, if that is finite. -/
def scaleUp? (word e : Nat) : Option Float :=
  if e ≤ maxPower then
    let x := UInt64.toFloat word.toUInt64 * powerOfTen e
    if x.isInf then none else some x
  else if word = 0 then some 0 else none

/-- A word over a power of ten. Beyond the greatest power it is divided twice. -/
def scaleDown (word e : Nat) : Float :=
  let x := UInt64.toFloat word.toUInt64
  if e ≤ maxPower then x / powerOfTen e
  else if e ≤ 2 * maxPower then x / powerOfTen maxPower / powerOfTen (e - maxPower)
  else 0

def scale? (word : Nat) (e : Int) : Option Float :=
  if 0 ≤ e then scaleUp? word e.toNat else some (scaleDown word (-e).toNat)

def exponentValue : Option (Bool × List Char) → Int
  | none => 0
  | some (minus, ds) =>
    let e : Int := ds.foldl (fun n c => n * 10 + digitValue c) 0
    if minus then -e else e

/-- The double of a text with these pieces, if it is finite. -/
def Pieces.real? (p : Pieces) : Option Float :=
  let (word, dropped) := takeDigits 0 p.whole
  let fraction := p.fraction.getD []
  let (word, unread) := takeDigits word fraction
  let e := (dropped : Int) - (fraction.length - unread : Nat) + exponentValue p.exponent
  (scale? word e).map fun x => if p.minus then -x else x

/-- The integer of a text with these pieces, where it has no point, no exponent and no more digits
than a 64-bit word. Minus zero is no integer. -/
def Pieces.integer? (p : Pieces) : Option Number :=
  if p.fraction.isSome || p.exponent.isSome then none
  else
    let (word, dropped) := takeDigits 0 p.whole
    if dropped ≠ 0 then none
    else if !p.minus then some (.natural word)
    else if word = 0 ∨ Nat.pow 2 63 < word then none
    else some (.negative word)

/-- Reads a number. Its text must be a JSON number, and its value finite. -/
def ofText? (cs : List Char) : Option Number := do
  let p ← Pieces.ofText? cs
  match p.integer? with
  | some n => return n
  | none => return .real (← p.real?)

def toFloat : Number → Float
  | .natural n => UInt64.toFloat n.toUInt64
  | .negative n => -UInt64.toFloat n.toUInt64
  | .real x => x

end Pacing.Json.Number

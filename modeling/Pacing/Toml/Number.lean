import Pacing.Toml
import Pacing.Toml.Text

/-!
# TOML numbers and dates

Integers have 64 bits and a sign. Floats are read to the nearest double, and one too great for a
double is refused. Underscores may stand between digits. Dates and times are checked and not kept.
-/

namespace Pacing.Toml

/-! ## Digits -/

/-- Digits of one kind, underscores between them. -/
def digitRun (p : Char → Bool) : Scan (List Char) := do
  let first ← Scan.satisfying p
  let more ← Scan.untilEnd do
    match ← Scan.peek? with
    | some '_' => Scan.char '_'; return some (← Scan.satisfying p)
    | some c => if p c then return some (← Scan.any) else return none
    | none => return none
  return first :: more

/-- A sign, and whether it is a minus. -/
def sign : Scan Bool := do
  match ← Scan.peek? with
  | some '-' => Scan.char '-'; return true
  | some '+' => Scan.char '+'; return false
  | _ => return false

/-- Decimal digits without a leading zero, and whether a minus stands before them. -/
def wholePart : Scan (Bool × List Char) := do
  let minus ← sign
  match ← Scan.peek? with
  | some '0' => Scan.char '0'; return (minus, ['0'])
  | _ => return (minus, ← digitRun Char.isDigit)

/-! ## Integers -/

def integerOf (minus : Bool) (n : Nat) : Scan Node :=
  if minus then (if n ≤ Nat.pow 2 63 then return .integer (-n) else failure)
  else (if n < Nat.pow 2 63 then return .integer n else failure)

def isOctal (c : Char) : Bool := '0' ≤ c && c ≤ '7'

def isBinary (c : Char) : Bool := c == '0' || c == '1'

/-- An integer in a base other than ten, which its second character tells. -/
def basedInteger (mark : Char) (p : Char → Bool) (base : Nat) : Scan Node := do
  Scan.chars ['0', mark]
  integerOf false (numberOf base (← digitRun p))

def integer : Scan Node := do
  match ← Scan.ahead 2 with
  | ['0', 'x'] => basedInteger 'x' isHex 16
  | ['0', 'o'] => basedInteger 'o' isOctal 8
  | ['0', 'b'] => basedInteger 'b' isBinary 2
  | _ =>
    let (minus, ds) ← wholePart
    integerOf minus (numberOf 10 ds)

/-! ## Floats -/

/-- The double nearest to `0.d₁d₂… * 10 ^ e` with its sign. -/
def floatOf (minus : Bool) (ds : List Char) (e : Int) : Float :=
  let x := Float.ofScientific (numberOf 10 ds) (e < 0) e.natAbs
  if minus then -x else x

def exponent : Scan Int := do
  let _ ← Scan.satisfying fun c => c == 'e' || c == 'E'
  let minus ← sign
  let n := numberOf 10 (← digitRun Char.isDigit)
  return if minus then -n else n

def fractionPart : Scan (List Char) := do
  Scan.char '.'
  digitRun Char.isDigit

/-- A float in digits, with a fraction or an exponent or both. Only a negative one may overflow. -/
def decimalFloat : Scan Node := do
  let (minus, whole) ← wholePart
  let fraction ← Scan.optional fractionPart
  let e ← Scan.optional exponent
  if fraction.isNone && e.isNone then failure
  let fraction := fraction.getD []
  let x := floatOf minus (whole ++ fraction) (e.getD 0 - fraction.length)
  if x.isInf && !minus then failure
  return .float x

/-- An infinite value, or what is no number. -/
def specialFloat : Scan Node := do
  let minus ← sign
  let x : Float ← (do Scan.chars ['i', 'n', 'f']; return 1 / 0) <|>
    (do Scan.chars ['n', 'a', 'n']; return 0 / 0)
  return .float (if minus then -x else x)

/-! ## Dates -/

/-- A number of `n` digits in a range. -/
def field (n lo hi : Nat) : Scan Nat := do
  let v := numberOf 10 (← Scan.exactly Char.isDigit n)
  if lo ≤ v ∧ v ≤ hi then return v else failure

def isLeapYear (y : Nat) : Bool := y % 4 == 0 && (y % 100 != 0 || y % 400 == 0)

def daysInMonth (y m : Nat) : Nat :=
  if m = 2 then (if isLeapYear y then 29 else 28)
  else if m = 4 ∨ m = 6 ∨ m = 9 ∨ m = 11 then 30
  else 31

def fullDate : Scan Unit := do
  let y ← field 4 0 9999
  Scan.char '-'
  let m ← field 2 1 12
  Scan.char '-'
  let _ ← field 2 1 (daysInMonth y m)

/-- A time of day. A minute may have a leap second. -/
def clockTime : Scan Unit := do
  let _ ← field 2 0 23
  Scan.char ':'
  let _ ← field 2 0 59
  Scan.char ':'
  let _ ← field 2 0 60
  let _ ← Scan.optional do
    Scan.char '.'
    let _ ← Scan.satisfying Char.isDigit
    let _ ← Scan.run Char.isDigit

def zone : Scan Unit := do
  match ← Scan.any with
  | 'Z' | 'z' => return ()
  | '+' | '-' =>
    let _ ← field 2 0 23
    Scan.char ':'
    let _ ← field 2 0 59
  | _ => failure

/-- A date with or without a time, or a time alone. -/
def date : Scan Node := do
  (do
    fullDate
    let _ ← Scan.optional do
      let _ ← Scan.satisfying fun c => c == 'T' || c == 't' || c == ' '
      clockTime
      let _ ← Scan.optional zone) <|> clockTime
  return .date

def dateOrNumber : Scan Node := date <|> decimalFloat <|> specialFloat <|> integer

end Pacing.Toml

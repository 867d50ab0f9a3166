import Pacing.Decimal.Style

/-!
# JSON values and their texts

Numbers are integers where their text is one that fits 64 bits, and doubles otherwise. An object
keeps its fields in order, repeated ones too.
-/

namespace Pacing

inductive Json.Number
  /-- An unsigned 64-bit integer. -/
  | natural (n : Nat)
  /-- A signed 64-bit integer below zero, by its magnitude. -/
  | negative (n : Nat)
  | real (x : Float)
  deriving DecidableEq

inductive Json
  | null
  | bool (b : Bool)
  | number (n : Json.Number)
  | string (s : List Char)
  | array (items : List Json)
  | object (fields : List (List Char × Json))

namespace Json

/-! ## Numbers -/

/-- Doubles have a point or an exponent, so that they read back as doubles. What is not finite has no
number and is written as `null`. -/
def realStyle : Decimal.Style where
  positional := fun e => -5 ≤ e && e < 16
  pointZero := true
  exponentPlus := true
  tie := .toEven
  nanText := ['n', 'u', 'l', 'l']
  infiniteText := fun _ => ['n', 'u', 'l', 'l']

def Number.text : Number → List Char
  | .natural n => Decimal.digits n
  | .negative n => '-' :: Decimal.digits n
  | .real x => realStyle.parts (.ofFloat x)

/-! ## Strings -/

/-- The two characters by which the escape of a control character ends. -/
def hexPair (n : Nat) : List Char := [Nat.digitChar (n / 16), Nat.digitChar (n % 16)]

/-- A character as it stands in a string. -/
def escaped (c : Char) : List Char :=
  match c with
  | '"' => ['\\', '"']
  | '\\' => ['\\', '\\']
  | '\n' => ['\\', 'n']
  | '\r' => ['\\', 'r']
  | '\t' => ['\\', 't']
  | c =>
    if c.toNat = 8 then ['\\', 'b']
    else if c.toNat = 12 then ['\\', 'f']
    else if c.toNat < 32 then ['\\', 'u', '0', '0'] ++ hexPair c.toNat
    else [c]

def quoted (s : List Char) : List Char := '"' :: (s.flatMap escaped ++ ['"'])

/-! ## Values -/

/-- Puts a comma between texts. -/
def commaSeparated : List (List Char) → List Char
  | [] => []
  | [t] => t
  | t :: ts => t ++ ',' :: commaSeparated ts

mutual

/-- The text of a value, without blanks. -/
def text : Json → List Char
  | null => ['n', 'u', 'l', 'l']
  | bool b => if b then ['t', 'r', 'u', 'e'] else ['f', 'a', 'l', 's', 'e']
  | number n => n.text
  | string s => quoted s
  | array items => '[' :: (commaSeparated (itemTexts items) ++ [']'])
  | object fields => '\x7b' :: (commaSeparated (fieldTexts fields) ++ ['\x7d'])

def itemTexts : List Json → List (List Char)
  | [] => []
  | v :: vs => v.text :: itemTexts vs

def fieldTexts : List (List Char × Json) → List (List Char)
  | [] => []
  | (k, v) :: fs => (quoted k ++ ':' :: v.text) :: fieldTexts fs

end

end Json

end Pacing

import Pacing.Decimal.Shortest

/-!
# Styles of shortest decimals

A style lays the digits of a shortest decimal out: in positional notation between two exponents, in
scientific notation beyond them.
-/

namespace Pacing.Decimal

structure Style where
  /-- The exponents of the first digit that are written in positional notation. -/
  positional : Int → Bool
  /-- An integer in positional notation ends in `.0`. -/
  pointZero : Bool
  /-- A positive exponent has a sign. -/
  exponentPlus : Bool
  tie : Tie
  nanText : List Char
  infiniteText : Bool → List Char

/-- Digits in positional notation, the point after the first `point` of them. -/
def Numeral.positional (d : Numeral) (pointZero : Bool) : List Char :=
  let n := d.figures.length
  if d.point ≤ 0 then '0' :: '.' :: (zeros (-d.point).toNat ++ d.figures)
  else
    let whole := d.point.toNat
    if n ≤ whole then
      d.figures ++ zeros (whole - n) ++ (if pointZero then ['.', '0'] else [])
    else d.figures.take whole ++ '.' :: d.figures.drop whole

def exponentText (plus : Bool) (e : Int) : List Char :=
  (if e < 0 then ['-'] else if plus then ['+'] else []) ++ digits e.natAbs

/-- Digits in scientific notation, the point after the first of them. -/
def Numeral.scientific (d : Numeral) (plus : Bool) : List Char :=
  d.figures.take 1 ++ (if d.figures.length ≤ 1 then [] else '.' :: d.figures.drop 1) ++
    'e' :: exponentText plus (d.point - 1)

def Numeral.zero : Numeral := ⟨['0'], 1⟩

def Style.layOut (s : Style) (d : Numeral) : List Char :=
  if s.positional (d.point - 1) then d.positional s.pointZero else d.scientific s.exponentPlus

def Style.parts (s : Style) : Parts → List Char
  | .nan => s.nanText
  | .infinite negative => s.infiniteText negative
  | .finite negative m q =>
    signText negative ++ s.layOut (if m = 0 then .zero else shortest s.tie m q)

def Style.text (s : Style) (x : Float) : String := .ofList (s.parts (.ofFloat x))

/-- Never an exponent, and integers without a point. -/
def plain : Style where
  positional := fun _ => true
  pointZero := false
  exponentPlus := false
  tie := .up
  nanText := nanText
  infiniteText := infiniteText

/-- As `plain`, but a point in every positional text, and an exponent below `10⁻⁴` and from `10¹⁶`
on. -/
def pointed : Style :=
  { plain with
    positional := fun e => -4 ≤ e && e < 16
    pointZero := true }

end Pacing.Decimal

import Pacing.Decimal

/-!
# Shortest decimals

The shortest decimal of a double is the one with the fewest digits among those that are nearer to it
than to any other double; of two with equally many digits the nearer one. A decimal halfway to a
neighbour counts as this double's if its count of units is even, as reading rounds ties to even.
-/

namespace Pacing.Decimal

/-- A decimal `0.d₁d₂…dₙ * 10 ^ point`. -/
structure Numeral where
  figures : List Char
  point : Int
  deriving DecidableEq, Repr

/-- A value and the ends of the interval that rounds to it, all in quarters of a unit. -/
structure Span where
  lo : Nat
  value : Nat
  hi : Nat
  /-- Whether the ends belong to the interval. -/
  closed : Bool

/-- The interval of `m * 2 ^ q`. Below a power of two the next double is only half a unit away. -/
def Span.ofUnits (m : Nat) (q : Int) : Span where
  lo := if m = leastNormal ∧ leastExponent < q then 4 * m - 1 else 4 * m - 2
  value := 4 * m
  hi := 4 * m + 2
  closed := m % 2 == 0

/-- Whether `a` lies in the interval, for `a` and the ends counted in the same measure. -/
def Span.holds (s : Span) (scale a : Nat) : Bool :=
  if s.closed then s.lo * scale ≤ a && a ≤ s.hi * scale
  else s.lo * scale < a && a < s.hi * scale

structure Ratio where
  num : Nat
  den : Nat

/-- The ratio of a quarter of the unit `2 ^ q` to the decimal unit `10 ^ k`. -/
def Ratio.ofUnits (q k : Int) : Ratio where
  num := Nat.pow 2 (q - 2).toNat * Nat.pow 10 (-k).toNat
  den := Nat.pow 2 (2 - q).toNat * Nat.pow 10 k.toNat

/-- The multiple of the decimal unit nearest to the value among its two neighbours that lie in the
interval. -/
def Span.nearest? (s : Span) (t : Tie) (r : Ratio) : Option Nat :=
  let lower := s.value * r.num / r.den
  let below := s.holds r.num (lower * r.den)
  let above := s.holds r.num ((lower + 1) * r.den)
  if below && above then
    some (t.pick lower (compare (2 * (s.value * r.num % r.den)) r.den))
  else if below then some lower
  else if above then some (lower + 1)
  else none

/-- The exponent of the first digit of `m * 2 ^ q`. -/
def magnitude (m : Nat) (q : Int) : Int :=
  let shift : Nat := 340
  (digits (m * Nat.pow 2 q.toNat * Nat.pow 10 shift / Nat.pow 2 (-q).toNat)).length - 1 - shift

/-- Seventeen digits always tell a double from its neighbours. -/
def maxDigits : Nat := 17

/-- The decimal of a count of `10 ^ k`, without its trailing zeros. -/
def Numeral.ofCount (c : Nat) (k : Int) : Numeral :=
  let ds := digits c
  ⟨(ds.reverse.dropWhile (· == '0')).reverse, k + ds.length⟩

/-- The count and the exponent of the decimal unit for the coarsest grid that has a point in the
interval. -/
def coarsest? (t : Tie) (m : Nat) (q : Int) : Option (Nat × Int) :=
  (List.range maxDigits).findSome? fun n =>
    let k := magnitude m q - Int.ofNat n
    ((Span.ofUnits m q).nearest? t (.ofUnits q k)).map (·, k)

/-- The shortest decimal of `m * 2 ^ q`, for `m` positive. -/
def shortest (t : Tie) (m : Nat) (q : Int) : Numeral :=
  let (c, k) := (coarsest? t m q).getD (m, q)
  .ofCount c k

end Pacing.Decimal

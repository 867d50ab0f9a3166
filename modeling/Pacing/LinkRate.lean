import Pacing.Config

/-!
# Link rate from ack arrivals

The gaps between acks are averaged, each new one with a weight of a sixteenth. The rate is told once
enough acks have come.
-/

namespace Pacing

variable {α : Type} [Scalar α]

open Scalar

/-- An estimate of the rate at which acks arrive. -/
structure LinkRate (α : Type) where
  /-- The average gap (ms), once there was one. -/
  gap : Option α
  /-- When the last ack came (ms). -/
  lastArrival : Option α
  /-- How many acks have come. -/
  seen : Nat
  /-- How many acks come before a rate is told. -/
  warmup : Nat
  deriving DecidableEq

namespace LinkRate

def start (warmup : Nat) : LinkRate α := ⟨none, none, 0, warmup⟩

/-- The weight of a new gap. -/
def weight : α := one / ofNat 16

def average (gap : Option α) (new : α) : α :=
  match gap with
  | none => new
  | some old => (one - weight) * old + weight * new

/-- The estimate after an ack. A clock that stepped back makes no gap. -/
def arrive (e : LinkRate α) (now : α) : LinkRate α :=
  { e with
    gap := match e.lastArrival with
      | none => e.gap
      | some last => some (average e.gap (Scalar.max (now - last) zero))
    lastArrival := some now
    seen := e.seen + 1 }

/-- The rate (segments per second), if enough acks have come to tell. -/
def rate? (e : LinkRate α) : Option α :=
  e.gap.bind fun gap => if e.warmup < e.seen ∧ zero < gap then some (msPerSec / gap) else none

def onAck (e : LinkRate α) (now : α) : LinkRate α × Option α :=
  let next := e.arrive now
  (next, next.rate?)

end LinkRate

end Pacing

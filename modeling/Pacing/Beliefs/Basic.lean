import Pacing.Config

/-!
# Beliefs about a path

What a flow believes about its path: the round-trip time without queueing, how much is in flight and
in the bottleneck queue, an interval for the capacity, and a throughput that the path has carried
without a queue. This module holds the record, what every ack changes in it, and the estimate of the
queue.
-/

namespace Pacing

variable {α : Type} [Scalar α]

open Scalar

/-- How many segments a flow has sent, seen delivered and counted as lost. -/
structure Counters where
  sent : Nat
  delivered : Nat
  lost : Nat
  deriving DecidableEq, Repr

namespace Counters

def zero : Counters := ⟨0, 0, 0⟩

/-- Segments neither delivered nor lost. -/
def inflight (n : Counters) : Nat := n.sent - n.delivered - n.lost

end Counters

/-- What a flow believes about its path. -/
structure Beliefs (α : Type) where
  /-- The least round-trip time seen (ms). -/
  minRtt : α
  /-- Queueing delay of the last ack (ms). -/
  minQdel : α
  /-- Segments in flight. -/
  bqBelief1 : Nat
  /-- A throughput that was carried without a queue (segments per second). -/
  minCLambda : α
  /-- Segments in the bottleneck queue. -/
  bqBelief2 : α
  /-- The sent count when the queue estimate was last advanced. -/
  lastSegsSent : Nat
  /-- The lower capacity bound (segments per second). -/
  minC : α
  /-- The upper capacity bound (segments per second). -/
  maxC : α
  /-- The lower bound as learnt since the last repair alone. -/
  mincSinceLastTimeout : α
  /-- The upper bound as learnt since the last repair alone. -/
  maxcSinceLastTimeout : α
  /-- The lower bound that the last repair left. -/
  lastTimeoutMinc : α
  /-- The upper bound that the last repair left. -/
  lastTimeoutMaxc : α
  /-- When the last repair was (ms). -/
  lastTimeoutTime : α
  deriving DecidableEq

namespace Beliefs

/-- A lower and an upper bound on a capacity (segments per second). -/
structure Bounds (α : Type) where
  minC : α
  maxC : α
  deriving DecidableEq

/-- Nothing is known but a round-trip time. -/
def start (c : Config α) (minRtt : α) : Beliefs α where
  minRtt
  minQdel := c.timeDeltaMax
  bqBelief1 := 0
  minCLambda := c.initMinC
  bqBelief2 := zero
  lastSegsSent := 0
  minC := c.initMinC
  maxC := c.initMaxC
  mincSinceLastTimeout := c.initMinC
  maxcSinceLastTimeout := c.initMaxC
  lastTimeoutMinc := c.initMinC
  lastTimeoutMaxc := c.initMaxC
  lastTimeoutTime := zero

/-- The round-trip time as a time base, at least `minRtprop`. -/
def rtprop (b : Beliefs α) : α := Scalar.max b.minRtt minRtprop

/-- Delay above the round-trip time that still counts as noise. -/
def jitter (b : Beliefs α) (c : Config α) : α := b.rtprop * c.jitterMultiplier

/-- The greatest round-trip time that shows no queue. -/
def threshold (b : Beliefs α) (c : Config α) : α := b.rtprop + b.jitter c

/-- The floor rate: the smallest window once per round trip. -/
def minSendingRate (b : Beliefs α) (c : Config α) : α := c.minWindow * msPerSec / b.rtprop

/-- The capacity bounds. -/
def held (b : Beliefs α) : Bounds α := ⟨b.minC, b.maxC⟩

/-- The capacity bounds as learnt since the last repair alone. -/
def recent (b : Beliefs α) : Bounds α := ⟨b.mincSinceLastTimeout, b.maxcSinceLastTimeout⟩

def isValid (b : Beliefs α) : Bool := b.minC ≤ b.maxC

def onRtt (b : Beliefs α) (rtt : α) (n : Counters) (c : Config α) : Beliefs α :=
  let seen := { b with minRtt := Scalar.min b.minRtt rtt }
  { seen with
    minQdel := Scalar.max (rtt - seen.rtprop - seen.jitter c) zero
    bqBelief1 := n.inflight }

/-! ## The bottleneck queue

The queue grows by what was sent and shrinks by what the bottleneck is believed to have drained. It
holds no more than what is in flight.
-/

/-- Segments drained in a span of time, at the throughput believed in. -/
def drained (b : Beliefs α) (elapsed : α) : α :=
  b.minCLambda * Scalar.max elapsed zero / msPerSec

def advanceQueue (b : Beliefs α) (cumSent : Nat) (elapsed : α) : Beliefs α :=
  { b with
    bqBelief2 :=
      clamp (b.bqBelief2 + ofNat (cumSent - b.lastSegsSent) - b.drained elapsed)
        zero (ofNat b.bqBelief1)
    lastSegsSent := cumSent }

end Beliefs

end Pacing

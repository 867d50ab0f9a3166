import Pacing.Scalar

/-!
# History samples

A sample is a snapshot of a flow's counters at an interval boundary. The newest sample stays open:
the round-trip times of its interval are folded into it until the next one is taken.
-/

namespace Pacing

variable {α : Type} [Scalar α]

/-- The counters at a boundary, and what was seen while the sample was the newest one. -/
structure Sample (α : Type) where
  /-- When the sample was taken (ms). -/
  tstamp : α
  /-- The least round-trip time of the interval (ms). -/
  minRtt : α
  /-- The greatest round-trip time of the interval (ms). -/
  maxRtt : α
  cumSent : Nat
  cumDelivered : Nat
  cumLost : Nat
  /-- The sending rate at the boundary (segments per second). -/
  sendingRate : α
  /-- How much had been delivered when the segment was sent whose ack took this sample. -/
  cumDeliveredAtSend : Nat
  /-- How many segments were newly marked lost in the interval. -/
  segsLost : Nat
  /-- Already used as the start of a throughput window. -/
  processed : Bool
  deriving DecidableEq

namespace Sample

/-- No delay above the threshold and no loss: the sender was what limited the flow. -/
def isUnderutilized (s : Sample α) (threshold : α) : Bool :=
  s.maxRtt ≤ threshold && s.segsLost == 0

/-- A queue throughout the interval, or a loss: the link was kept busy. -/
def isUtilized (s : Sample α) (threshold : α) : Bool :=
  threshold < s.minRtt || 0 < s.segsLost

/-- Folds another round-trip time into an open sample. -/
def extend (s : Sample α) (rtt : α) : Sample α :=
  { s with minRtt := Scalar.min s.minRtt rtt, maxRtt := Scalar.max s.maxRtt rtt }

def markProcessed (s : Sample α) : Sample α := { s with processed := true }

end Sample

end Pacing

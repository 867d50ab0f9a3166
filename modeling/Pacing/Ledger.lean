import Pacing.Anomaly
import Pacing.Ledger.Memory
import Pacing.Scalar
import Pacing.SeqMap

/-!
# Ledger of outstanding segments

The ledger holds one segment per sequence number that was sent and not resolved. Losses are read off
the order of sequence numbers: an ack shows that every outstanding segment below it is lost. A lost
segment stays in the ledger, so that a late ack still finds it, until it is old enough to expire.
-/

namespace Pacing

variable {α : Type} [Scalar α]

/-- What is known of a segment from its send to its ack. -/
structure Segment (α : Type) where
  /-- When it was sent (ms). -/
  sendTstamp : α
  /-- How much had been delivered when it was sent. -/
  cumDeliveredAtSend : Nat
  /-- Its round-trip time (ms), once it is acked. -/
  rtt : α
  /-- How many segments its ack newly marked lost. -/
  lossCount : Nat
  /-- Marked lost by the ack of a later segment. -/
  lost : Bool
  deriving DecidableEq

def Segment.sent (now : α) (delivered : Nat) : Segment α :=
  ⟨now, delivered, Scalar.zero, 0, false⟩

/-- The outstanding segments, and the numbers resolved of late. -/
structure Ledger (α : Type) where
  outstanding : SeqMap (Segment α)
  resolved : Memory

namespace Ledger

def empty (memory : Nat) : Ledger α := ⟨.empty, .empty memory⟩

def clear (l : Ledger α) : Ledger α := ⟨.empty, l.resolved.clear⟩

def size (l : Ledger α) : Nat := l.outstanding.size

def find? (l : Ledger α) (seq : Nat) : Option (Segment α) := l.outstanding.find? seq

/-- Enters a segment. A segment that is still outstanding keeps its entry. -/
def recordSent (l : Ledger α) (seq : Nat) (now : α) (delivered : Nat) :
    Except Anomaly (Ledger α) :=
  if l.outstanding.contains seq then .error (.duplicateSend seq)
  else .ok { l with outstanding := l.outstanding.insert seq (.sent now delivered) }

/-- The ledger without a segment, its number remembered as resolved. -/
def settle (l : Ledger α) (seq : Nat) : Ledger α :=
  { outstanding := l.outstanding.erase seq, resolved := l.resolved.remember seq }

/-- Takes an acked segment out. -/
def resolve (l : Ledger α) (seq : Nat) : Except Anomaly (Segment α × Ledger α) :=
  match l.outstanding.find? seq with
  | some s => .ok (s, l.settle seq)
  | none =>
    if l.resolved.contains seq then .error (.duplicateAck seq) else .error (.unknownAck seq)

/-- Marks every outstanding segment below `seq` lost. -/
def markLosses (l : Ledger α) (seq : Nat) : Ledger α :=
  { l with
    outstanding := l.outstanding.map fun i s => if i < seq then { s with lost := true } else s }

/-- How many segments `markLosses` marks that were not marked before. -/
def newLosses (l : Ledger α) (seq : Nat) : Nat :=
  l.outstanding.count fun i s => i < seq && !s.lost

/-- Drops the lost segments that were sent before the horizon. -/
def expireLost (l : Ledger α) (horizon : α) : Ledger α :=
  { l with outstanding := l.outstanding.filter fun _ s => !(s.lost && s.sendTstamp < horizon) }

end Ledger

end Pacing

/-!
# Anomalies

What a flow can find wrong with an event. None of them ends the flow: each is counted and reported,
and the flow keeps its rate and window.
-/

namespace Pacing

inductive Anomaly
  /-- An ack for a segment that is neither outstanding nor remembered. -/
  | unknownAck (seq : Nat)
  /-- An ack for a segment that was resolved a short while ago. -/
  | duplicateAck (seq : Nat)
  /-- A send of a segment that is still outstanding. -/
  | duplicateSend (seq : Nat)
  /-- An ack for a segment that had been marked lost. -/
  | reorderedDelivery (seq : Nat)
  | timeout
  deriving DecidableEq, Repr

def Anomaly.message : Anomaly → String
  | .unknownAck seq => s!"ack for untracked segment {seq}"
  | .duplicateAck seq => s!"ack for already resolved segment {seq}"
  | .duplicateSend seq => s!"segment {seq} sent while still outstanding"
  | .reorderedDelivery seq => s!"segment {seq} acked after being marked lost"
  | .timeout => "no ack within the driver's timeout"

end Pacing

import Pacing.Flow

/-!
# Events and runs

Everything that can happen to a flow is an event, and a run is a list of them.
-/

namespace Pacing

variable {α : Type} [Scalar α]

inductive Event (α : Type)
  /-- The driver sets the flow's clock. -/
  | clock (now : α)
  | init
  | sent (seq : Nat)
  /-- An ack, with the times (ms) at which the receiver and the sender stamped it. -/
  | ack (ackSeq : Nat) (receiverTs senderTs : α)
  | timeout
  | linkRate (rate : α)
  | minRtt (rtt : α)
  | steadyState
  | close
  deriving DecidableEq

namespace Flow

def step (f : Flow α) : Event α → Flow α × List (Entry α)
  | .clock now => (f.setTime now, [])
  | .init => f.init
  | .sent seq => f.sent seq
  | .ack ackSeq _ _ =>
    let outcome := f.ack ackSeq
    (outcome.flow, outcome.entries)
  | .timeout => f.timeout
  | .linkRate rate => f.measureLinkRate rate
  | .minRtt rtt => f.setMinRtt rtt
  | .steadyState => f.enterSteadyState
  | .close => f.close

/-- The flow after a run, and all that it reports. -/
def run (f : Flow α) : List (Event α) → Flow α × List (Entry α)
  | [] => (f, [])
  | e :: events =>
    let (g, entries) := f.step e
    let (h, more) := g.run events
    (h, entries ++ more)

end Flow

end Pacing

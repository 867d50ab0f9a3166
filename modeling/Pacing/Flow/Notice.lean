import Pacing.Anomaly
import Pacing.Beliefs.Basic
import Pacing.Decision
import Pacing.Sample

/-!
# Notices

What a flow has to say about itself: one value per line of its diagnostics, before any text is made
of it. Anomalies are errors, the flow's life is information, and the dump after each recompute is for
debugging.
-/

namespace Pacing

/-- How much a line matters, most first. -/
inductive Level
  | error
  | info
  | debug
  deriving DecidableEq, Repr

namespace Level

def all : List Level := [.error, .info, .debug]

def label : Level → String
  | .error => "ERROR"
  | .info => "INFO"
  | .debug => "DEBUG"

def ofLabel? (s : String) : Option Level :=
  all.find? (·.label == s)

def rank : Level → Nat
  | .error => 0
  | .info => 1
  | .debug => 2

end Level

/-- What can be seen of a flow from outside, at one moment. -/
structure Stats (α : Type) where
  law : Law
  phase : Phase
  /-- The window reported to the driver (segments). -/
  window : UInt32
  intersendTime : α
  sendingRate : α
  minRtt : α
  minQdel : α
  inflight : Nat
  bqBelief2 : α
  minC : α
  maxC : α
  minCLambda : α
  cumSent : Nat
  cumDelivered : Nat
  cumLost : Nat
  /-- Segments in the ledger. -/
  outstanding : Nat
  historyLen : Nat
  recomputes : Nat
  repairs : Nat
  unknownAcks : Nat
  duplicateAcks : Nat
  duplicateSends : Nat
  reorderedDeliveries : Nat
  timeouts : Nat
  /-- The last link rate that the driver measured (segments per second). -/
  linkRate : Option α
  deriving DecidableEq

inductive Notice (α : Type)
  | started (law : Law) (minRtt : α)
  /-- A round-trip time measured by the driver was of no use. -/
  | bootstrapRefused (rtt : α)
  | bootstrapped (rtt : α)
  | anomaly (a : Anomaly)
  | timeout
  | linkRate (rate : α)
  | phaseChanged (old new : Phase)
  | closed (stats : Stats α)
  /-- The outcome of a recompute. -/
  | state (phase : Phase) (d : Decision α) (window : UInt32) (n : Counters)
  | beliefs (b : Beliefs α)
  | historyLen (len : Nat)
  | sample (index : Nat) (s : Sample α)
  deriving DecidableEq

def Notice.level {α : Type} : Notice α → Level
  | .bootstrapRefused _ | .anomaly _ => .error
  | .started .. | .bootstrapped _ | .timeout | .phaseChanged .. | .closed _ => .info
  | .linkRate _ | .state .. | .beliefs _ | .historyLen _ | .sample .. => .debug

/-- A notice and the time (ms) at which it was given. -/
structure Entry (α : Type) where
  now : α
  notice : Notice α
  deriving DecidableEq

end Pacing

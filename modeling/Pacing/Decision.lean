import Pacing.Beliefs.Basic

/-!
# Decisions on rate and window

A phase machine holds the phase of a flow and turns beliefs into a sending rate. Whatever the phase
asks for, the rate is at least the floor rate, and the window at least the smallest one.
-/

namespace Pacing

variable {α : Type} [Scalar α]

open Scalar

structure Decision (α : Type) where
  /-- Segments per second. -/
  sendingRate : α
  /-- The window in segments, with its fraction. -/
  cwnd : α
  /-- Spacing between two sends (ms). -/
  intersendTime : α
  deriving DecidableEq

/-- The decision to send at a rate. The window holds twice what the upper capacity bound lets
through in a round trip and its jitter. -/
def Decision.ofRate (rate : α) (b : Beliefs α) (c : Config α) : Decision α where
  sendingRate := rate
  cwnd := Scalar.max (ofNat 2 * b.maxC * (b.rtprop + b.jitter c) / msPerSec) c.minWindow
  intersendTime := msPerSec / rate

/-- The phase of a flow, and how many ticks of a probe are over. -/
structure PhaseMachine where
  law : Law
  phase : Phase
  probeCounter : Nat
  deriving DecidableEq, Repr

namespace PhaseMachine

def start (law : Law) : PhaseMachine := ⟨law, .slowStart, 0⟩

def reset (m : PhaseMachine) : PhaseMachine := start m.law

/-- Leaves slow start for the steady state of the law. In any other phase nothing changes. -/
def enterSteadyState (m : PhaseMachine) : PhaseMachine :=
  if m.phase = .slowStart then { m with phase := m.law.steadyPhase, probeCounter := 0 } else m

/-! ## Rates of the phases -/

/-- The rate that goes past an estimate by the jitter's share. -/
def boosted (c : Config α) (estimate : α) : α := (one + c.jitterMultiplier) * estimate

/-- Slow start: half the lower bound when a queue is seen, past it otherwise. -/
def slowStartRate (b : Beliefs α) (c : Config α) : α :=
  if zero < b.minQdel then b.minC / ofNat 2 else boosted c b.minC

/-- Congestion avoidance: the floor rate while the pipe is full. -/
def congAvoidRate (b : Beliefs α) (c : Config α) : α :=
  if c.fullPipe < b.bqBelief1 then b.minSendingRate c
  else boosted c b.minCLambda + b.minSendingRate c

/-- The rate of a probe: what congestion avoidance sends, spread over the measurement interval. -/
def probeRate (b : Beliefs α) (c : Config α) : α :=
  (boosted c b.minCLambda + b.minSendingRate c) / ofNat c.measurementSpan

/-- One tick of a probe, after which the flow drains again if the interval is over. -/
def tickProbe (m : PhaseMachine) (c : Config α) (ticks : Nat) : PhaseMachine :=
  if c.measurementSpan ≤ ticks + 1 then { m with phase := .drain, probeCounter := 0 }
  else { m with phase := .probe, probeCounter := ticks + 1 }

/-- The rate that the phase asks for, and the phase of the next tick. A drain turns into a probe
within the tick that finds the pipe no longer full. -/
def advance (m : PhaseMachine) (b : Beliefs α) (c : Config α) : PhaseMachine × α :=
  match m.phase with
  | .slowStart => (m, slowStartRate b c)
  | .congAvoid => (m, congAvoidRate b c)
  | .probe => (m.tickProbe c m.probeCounter, probeRate b c)
  | .drain =>
    if c.fullPipe < b.bqBelief1 then (m, b.minSendingRate c)
    else (m.tickProbe c 0, probeRate b c)

/-! ## Decisions -/

def decision (m : PhaseMachine) (b : Beliefs α) (c : Config α) : PhaseMachine × Decision α :=
  let (next, rate) := m.advance b c
  (next, .ofRate (Scalar.max rate (b.minSendingRate c)) b c)

/-- The decision to send at the floor rate, whatever the phase. -/
def floor (b : Beliefs α) (c : Config α) : Decision α := .ofRate (b.minSendingRate c) b c

end PhaseMachine

end Pacing

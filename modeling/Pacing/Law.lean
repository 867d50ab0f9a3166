/-!
# Control laws and phases

A flow starts in slow start under either law. Its operator decides when the law's steady state
begins.
-/

namespace Pacing

/-- What a flow does once it has left slow start. -/
inductive Law
  /-- Follow the throughput estimate in congestion avoidance. -/
  | phaseDriven
  /-- Alternate between draining the queue and probing. -/
  | dutyCycled
  deriving DecidableEq, Repr

namespace Law

def all : List Law := [.phaseDriven, .dutyCycled]

def name : Law → String
  | .phaseDriven => "phase-driven"
  | .dutyCycled => "duty-cycled"

/-- The law of that name. Case and punctuation count. -/
def ofName? (s : String) : Option Law :=
  all.find? (·.name == s)

end Law

/-- What decides the rate at the moment. -/
inductive Phase
  /-- Ramp past the lower capacity bound, or back off when a queue is seen. -/
  | slowStart
  /-- Pace at the throughput estimate, or at the floor while the pipe is full. -/
  | congAvoid
  /-- Send at the probe rate for one measurement interval. -/
  | probe
  /-- Hold the floor rate until the queue has drained. -/
  | drain
  deriving DecidableEq, Repr

namespace Phase

def all : List Phase := [.slowStart, .congAvoid, .probe, .drain]

def name : Phase → String
  | .slowStart => "SLOW_START"
  | .congAvoid => "CONG_AVOID"
  | .probe => "PROBE"
  | .drain => "DRAIN"

def shortName : Phase → String
  | .slowStart => "SlowStart"
  | .congAvoid => "CongAvoid"
  | .probe => "Probe"
  | .drain => "Drain"

end Phase

/-- The phase in which the law's steady state begins. -/
def Law.steadyPhase : Law → Phase
  | .phaseDriven => .congAvoid
  | .dutyCycled => .drain

end Pacing

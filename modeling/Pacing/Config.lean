import Pacing.Law
import Pacing.Scalar

/-!
# Configuration of a flow

Every period is a multiple of the round-trip time that the flow believes in, so that its cadence
follows the path and no wall clock. `Config.check` says which configurations a flow is built from.
-/

namespace Pacing

variable {α : Type} [Scalar α]

open Scalar

/-! ## Units -/

def msPerSec : α := ofNat 1000

/-- The shortest window (ms) that a rate is measured over. -/
def timeEpsilon : α := ofNat 1 / ofNat 1000000

/-- The shortest round-trip time (ms) that serves as a time base. -/
def minRtprop : α := one

/-- Of no use as a length of time: not finite, or not positive. -/
def uselessTime (t : α) : Bool := !isFinite t || t ≤ zero

/-! ## Configurations -/

structure Config (α : Type) where
  /-- The law that rules after slow start. -/
  law : Law
  /-- How many history samples are kept. -/
  historySize : Nat
  /-- The smallest window (segments). It sets the floor rate, too. -/
  minCwnd : UInt32
  /-- The lower capacity bound before anything is learnt (segments per second). -/
  initMinC : α
  /-- The upper capacity bound before anything is learnt (segments per second). -/
  initMaxC : α
  /-- The round-trip time (ms) assumed until one is seen. -/
  timeDeltaMax : α
  /-- The window reported before the first recompute. -/
  initialWindow : UInt32
  /-- Spacing of history samples (round trips). -/
  interHistoryTime : α
  /-- Spacing of repair checkpoints (round trips). -/
  beliefsTimeoutPeriod : α
  /-- Delay above the round-trip time that still counts as noise (round trips). -/
  jitterMultiplier : α
  /-- How many history samples a throughput window spans. -/
  measurementIntervalHistory : Nat
  /-- Spacing of recomputes (round trips). -/
  interRateUpdateTime : α
  /-- The ratio above which a bound moved significantly. -/
  significantChange : α
  /-- How far a repair lets the upper capacity bound grow (ratio). -/
  timeoutThresh : α
  /-- How many resolved sequence numbers are remembered. -/
  resolvedSeqMemory : Nat
  deriving DecidableEq

namespace Config

/-- How long a throughput window is (round trips). -/
def measurementIntervalRtprop : α := one

/-- The standard spacing of history samples (round trips). -/
def standardInterHistoryTime : α := one

def standard : Config α where
  law := .phaseDriven
  historySize := 32
  minCwnd := 5
  initMinC := ofNat 5
  initMaxC := ofNat 100000
  timeDeltaMax := ofNat 100000
  initialWindow := 2
  interHistoryTime := standardInterHistoryTime
  beliefsTimeoutPeriod := ofNat 12
  jitterMultiplier := one
  measurementIntervalHistory :=
    (truncate (measurementIntervalRtprop / standardInterHistoryTime : α)).toNat
  interRateUpdateTime := one
  significantChange := ofNat 11 / ofNat 10
  timeoutThresh := ofNat 3 / ofNat 2
  resolvedSeqMemory := 1024

def minWindow (c : Config α) : α := ofNat c.minCwnd.toNat

/-- How many samples a throughput window spans, at least one. -/
def measurementSpan (c : Config α) : Nat := Nat.max c.measurementIntervalHistory 1

/-- The amount of data in flight above which the pipe counts as full: two smallest windows. -/
def fullPipe (c : Config α) : Nat := 2 * c.minCwnd.toNat

/-! ## Checking -/

inductive Fault
  | historySize
  | minCwnd
  | measurementInterval
  | period
  | jitter
  | capacityBounds
  | thresholds
  deriving DecidableEq, Repr

def Fault.message : Fault → String
  | .historySize => "history-size must be at least 2"
  | .minCwnd => "min-cwnd must be positive"
  | .measurementInterval => "measurement-interval-history must be in 1..history-size"
  | .period => "periods must be positive and finite"
  | .jitter => "jitter-multiplier must be non-negative"
  | .capacityBounds => "capacity bounds must satisfy 0 < init-min-c <= init-max-c"
  | .thresholds => "thresholds must be at least 1.0"

/-- The multiples of a round trip, and the round trip assumed at first. -/
def periods (c : Config α) : List α :=
  [c.interHistoryTime, c.beliefsTimeoutPeriod, c.interRateUpdateTime, c.timeDeltaMax]

/-- The first fault of a configuration. An upper capacity bound or a threshold that is no number
passes, since it compares false. -/
def fault? (c : Config α) : Option Fault :=
  if c.historySize < 2 then some .historySize
  else if c.minCwnd = 0 then some .minCwnd
  else if c.measurementIntervalHistory = 0 ∨ c.historySize ≤ c.measurementIntervalHistory then
    some .measurementInterval
  else if c.periods.any uselessTime then some .period
  else if isNaN c.jitterMultiplier ∨ c.jitterMultiplier < zero then some .jitter
  else if isNaN c.initMinC ∨ c.initMinC ≤ zero ∨ c.initMaxC < c.initMinC then
    some .capacityBounds
  else if c.significantChange < one ∨ c.timeoutThresh < one then some .thresholds
  else none

def check (c : Config α) : Except Fault (Config α) :=
  match c.fault? with
  | some f => .error f
  | none => .ok c

end Config

end Pacing

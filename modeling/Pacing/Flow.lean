import Pacing.Beliefs.Capacity
import Pacing.Beliefs.Repair
import Pacing.Beliefs.Throughput
import Pacing.Flow.Notice
import Pacing.Ledger

/-!
# Flows

A flow takes in what happens to it, one event at a time, and always has a window and a spacing of
sends to offer. It reads no clock: the driver sets its time before each event, so a recorded run
replays to the same outputs. Each operation gives the flow after it and the entries it reports, in
order.
-/

namespace Pacing

variable {α : Type} [Scalar α]

open Scalar

/-- How often a flow did something in its life. A new epoch keeps these counts. -/
structure Tally where
  recomputes : Nat
  repairs : Nat
  unknownAcks : Nat
  duplicateAcks : Nat
  duplicateSends : Nat
  reorderedDeliveries : Nat
  timeouts : Nat
  deriving DecidableEq, Repr

namespace Tally

def zero : Tally := ⟨0, 0, 0, 0, 0, 0, 0⟩

def count (t : Tally) : Anomaly → Tally
  | .unknownAck _ => { t with unknownAcks := t.unknownAcks + 1 }
  | .duplicateAck _ => { t with duplicateAcks := t.duplicateAcks + 1 }
  | .duplicateSend _ => { t with duplicateSends := t.duplicateSends + 1 }
  | .reorderedDelivery _ => { t with reorderedDeliveries := t.reorderedDeliveries + 1 }
  | .timeout => { t with timeouts := t.timeouts + 1 }

end Tally

structure Flow (α : Type) where
  config : Config α
  ledger : Ledger α
  history : Ring (Sample α)
  beliefs : Beliefs α
  counters : Counters
  phases : PhaseMachine
  decision : Decision α
  /-- The window reported to the driver (segments). -/
  window : UInt32
  /-- A timeout has come that no recompute has answered yet. -/
  pendingTimeout : Bool
  now : α
  /-- When the rate was last recomputed, or the epoch began. -/
  lastRateUpdate : α
  /-- When the newest sample was taken, or the epoch began. -/
  lastHistoryUpdate : α
  /-- The round-trip time with which every epoch starts, once the driver has measured one. -/
  bootstrapMinRtt : Option α
  linkRate : Option α
  tally : Tally

namespace Flow

/-! ## Epochs -/

/-- Forgets all but the configuration, the clock, what the driver has measured and the tally. -/
def reset (f : Flow α) : Flow α :=
  let beliefs := Beliefs.start f.config (f.bootstrapMinRtt.getD f.config.timeDeltaMax)
  { f with
    ledger := f.ledger.clear
    history := f.history.clear
    beliefs := { beliefs with lastTimeoutTime := f.now }
    counters := .zero
    phases := f.phases.reset
    decision := ⟨f.config.initMinC, f.config.minWindow, zero⟩
    window := f.config.initialWindow
    pendingTimeout := false
    lastRateUpdate := f.now
    lastHistoryUpdate := f.now }

/-- A flow at time zero, its first epoch begun. -/
def start (c : Config α) : Flow α :=
  reset
    { config := c
      ledger := .empty c.resolvedSeqMemory
      history := .empty (Nat.max c.historySize 1) (Nat.le_max_right _ _)
      beliefs := .start c c.timeDeltaMax
      counters := .zero
      phases := .start c.law
      decision := ⟨c.initMinC, c.minWindow, zero⟩
      window := c.initialWindow
      pendingTimeout := false
      now := zero
      lastRateUpdate := zero
      lastHistoryUpdate := zero
      bootstrapMinRtt := none
      linkRate := none
      tally := .zero }

/-- A flow whose configuration has passed its check. -/
def build (c : Config α) : Except Config.Fault (Flow α) :=
  match c.check with
  | .ok c => .ok (start c)
  | .error f => .error f

def stats (f : Flow α) : Stats α where
  law := f.phases.law
  phase := f.phases.phase
  window := f.window
  intersendTime := f.decision.intersendTime
  sendingRate := f.decision.sendingRate
  minRtt := f.beliefs.minRtt
  minQdel := f.beliefs.minQdel
  inflight := f.beliefs.bqBelief1
  bqBelief2 := f.beliefs.bqBelief2
  minC := f.beliefs.minC
  maxC := f.beliefs.maxC
  minCLambda := f.beliefs.minCLambda
  cumSent := f.counters.sent
  cumDelivered := f.counters.delivered
  cumLost := f.counters.lost
  outstanding := f.ledger.size
  historyLen := f.history.size
  recomputes := f.tally.recomputes
  repairs := f.tally.repairs
  unknownAcks := f.tally.unknownAcks
  duplicateAcks := f.tally.duplicateAcks
  duplicateSends := f.tally.duplicateSends
  reorderedDeliveries := f.tally.reorderedDeliveries
  timeouts := f.tally.timeouts
  linkRate := f.linkRate

/-! ## Reports -/

def entry (f : Flow α) (n : Notice α) : Entry α := ⟨f.now, n⟩

/-- Counts an anomaly and reports it. -/
def noteAnomaly (f : Flow α) (a : Anomaly) : Flow α × List (Entry α) :=
  ({ f with tally := f.tally.count a }, [f.entry (.anomaly a)])

/-- The state, the beliefs and the whole history, oldest sample first. -/
def dump (f : Flow α) : List (Entry α) :=
  let samples := f.history.toList.zipIdx.map fun (s, i) => Notice.sample i s
  let notices := .state f.phases.phase f.decision f.window f.counters :: .beliefs f.beliefs ::
    .historyLen f.history.size :: samples
  notices.map f.entry

/-! ## Recomputes -/

/-- Whether a full period has passed since the last recompute, or there is no telling. -/
def rateDue (f : Flow α) : Bool :=
  !(f.now - f.lastRateUpdate < f.config.interRateUpdateTime * f.beliefs.rtprop : Bool)

/-- Decides on the rate and window anew. A timeout since the last recompute calls for the floor rate
and leaves the phase alone. -/
def redecide (f : Flow α) : Flow α :=
  let (phases, d) :=
    if f.pendingTimeout then (f.phases, PhaseMachine.floor f.beliefs f.config)
    else f.phases.decision f.beliefs f.config
  { f with
    phases
    decision := d
    window := truncate d.cwnd
    pendingTimeout := false
    lastRateUpdate := f.now
    tally := { f.tally with recomputes := f.tally.recomputes + 1 } }

/-- Recomputes if that is due, and dumps the outcome. -/
def recompute (f : Flow α) : Flow α × List (Entry α) :=
  if f.rateDue then
    let g := f.redecide
    (g, g.dump)
  else
    (f, [])

/-! ## History -/

/-- Whether an ack only extends the open sample. -/
def sampleOpen (f : Flow α) : Bool :=
  !f.history.isEmpty &&
    f.now - f.lastHistoryUpdate < f.config.interHistoryTime * f.beliefs.rtprop

/-- The sample that the ack of a segment takes now. -/
def newSample (f : Flow α) (s : Segment α) : Sample α where
  tstamp := f.now
  minRtt := s.rtt
  maxRtt := s.rtt
  cumSent := f.counters.sent
  cumDelivered := f.counters.delivered
  cumLost := f.counters.lost
  sendingRate := f.decision.sendingRate
  cumDeliveredAtSend := s.cumDeliveredAtSend
  segsLost := s.lossCount
  processed := false

/-- Runs a repair checkpoint if one is due. The first one waits for a second sample. -/
def repairBounds (f : Flow α) : Flow α :=
  if f.history.size ≤ 1 then f
  else
    match f.beliefs.repair f.config f.now with
    | (b, some _) =>
      { f with beliefs := b, tally := { f.tally with repairs := f.tally.repairs + 1 } }
    | (b, none) => { f with beliefs := b }

/-- How long ago a lost segment may have been sent and still be kept: the span of a full history. -/
def retention (f : Flow α) : α :=
  ofNat f.config.historySize * f.config.interHistoryTime * f.beliefs.rtprop

/-- The flow once a new sample is in its history and the bounds are tightened by what the history
shows. -/
def merged (f : Flow α) (s : Segment α) : Flow α :=
  let history := (f.history.push (f.newSample s)).1
  { f with
    history
    beliefs := (f.beliefs.advanceQueue f.counters.sent (f.now - f.lastHistoryUpdate)).learnBounds
      f.config history.toList
    lastHistoryUpdate := f.now }

/-- How a pass learns throughput from a history, given how much had been delivered when the acked
segment was sent. A flow learns by `learnThroughput`; other passes can be compared with it. -/
abbrev Learn (α : Type) [Scalar α] : Type :=
  Beliefs α → Config α → Nat → Ring (Sample α) → Beliefs α × Ring (Sample α)

/-- The flow once its bounds are repaired, too, and throughput is learnt. -/
def measured (f : Flow α) (s : Segment α) (learn : Learn α := Beliefs.learnThroughput) : Flow α :=
  let g := (f.merged s).repairBounds
  let (beliefs, history) := learn g.beliefs g.config s.cumDeliveredAtSend g.history
  { g with beliefs, history }

/-- Drops the lost segments that are too old to be kept. -/
def dropExpired (f : Flow α) : Flow α :=
  { f with ledger := f.ledger.expireLost (f.now - f.retention) }

/-- Takes a sample and learns from the history with it. -/
def takeSample (f : Flow α) (s : Segment α) (learn : Learn α := Beliefs.learnThroughput) : Flow α :=
  (f.measured s learn).dropExpired

def extendSample (f : Flow α) (s : Segment α) : Flow α :=
  { f with history := f.history.modifyBack (·.extend s.rtt) }

/-- Extends the open sample by the ack of a segment, or takes the next one. -/
def updateHistory (f : Flow α) (s : Segment α) (learn : Learn α := Beliefs.learnThroughput) :
    Flow α :=
  if f.sampleOpen then f.extendSample s else f.takeSample s learn

/-! ## Events -/

def init (f : Flow α) : Flow α × List (Entry α) :=
  let g := f.reset
  (g, [g.entry (.started g.phases.law g.beliefs.minRtt)])

def setTime (f : Flow α) (now : α) : Flow α := { f with now }

/-- Takes in a round-trip time that the driver has measured, for this epoch and all later ones. Only
a positive finite one is of use. -/
def setMinRtt (f : Flow α) (rtt : α) : Flow α × List (Entry α) :=
  if uselessTime rtt then (f, [f.entry (.bootstrapRefused rtt)])
  else
    ({ f with
        bootstrapMinRtt := some rtt
        beliefs := { f.beliefs with minRtt := Scalar.min f.beliefs.minRtt rtt } },
      [f.entry (.bootstrapped rtt)])

def recordSent (f : Flow α) (seq : Nat) : Flow α × List (Entry α) :=
  match f.ledger.recordSent seq f.now f.counters.delivered with
  | .ok ledger =>
    ({ f with ledger, counters := { f.counters with sent := f.counters.sent + 1 } }, [])
  | .error a => f.noteAnomaly a

def sent (f : Flow α) (seq : Nat) : Flow α × List (Entry α) :=
  let (f, early) := f.recordSent seq
  let (f, late) := f.recompute
  (f, early ++ late)

/-- Takes back the loss of a segment that was delivered after all. -/
def correctLoss (f : Flow α) (seq : Nat) (s : Segment α) : Flow α × List (Entry α) :=
  if s.lost then
    let counters := { f.counters with lost := f.counters.lost - 1 }
    { f with counters }.noteAnomaly (.reorderedDelivery seq)
  else
    (f, [])

/-- The acked segment with its round-trip time and the losses that its ack reveals. -/
def ackedSegment (f : Flow α) (seq : Nat) (s : Segment α) : Segment α :=
  { s with
    lossCount := f.ledger.newLosses seq
    rtt := Scalar.max (f.now - s.sendTstamp) zero }

/-- The flow once the delivery of an acked segment and the losses that its ack reveals are counted,
and its round-trip time is taken in. -/
def credited (f : Flow α) (seq : Nat) (s : Segment α) : Flow α :=
  let counters :=
    { f.counters with
      lost := f.counters.lost + s.lossCount
      delivered := f.counters.delivered + 1 }
  { f with
    ledger := f.ledger.markLosses seq
    counters
    beliefs := f.beliefs.onRtt s.rtt counters f.config }

/-- What an ack that is not refused hands on to the history: the flow, the segment that it resolved,
and the entries so far. -/
structure Accepted (α : Type) where
  flow : Flow α
  segment : Segment α
  entries : List (Entry α)

/-- The delivery of a segment that has left the ledger. -/
def deliver (f : Flow α) (seq : Nat) (s : Segment α) : Accepted α :=
  let (f, entries) := f.correctLoss seq s
  let s := f.ackedSegment seq s
  ⟨f.credited seq s, s, entries⟩

/-- Takes the acked segment out of the ledger. The number of an ack is one more than that of the
segment delivered. -/
def accept (f : Flow α) : Nat → Except Anomaly (Accepted α)
  | 0 => .error (.unknownAck 0)
  | seq + 1 =>
    match f.ledger.resolve seq with
    | .error a => .error a
    | .ok (s, ledger) => .ok ({ f with ledger }.deliver seq s)

/-- What an ack leads to: the flow, the segment that it resolved, and the entries. -/
structure AckOutcome (α : Type) where
  flow : Flow α
  segment? : Option (Segment α)
  entries : List (Entry α)

def refuseAck (f : Flow α) (a : Anomaly) : AckOutcome α :=
  let (f, entries) := f.noteAnomaly a
  ⟨f, none, entries⟩

/-- An ack has come. -/
def ack (f : Flow α) (n : Nat) (learn : Learn α := Beliefs.learnThroughput) : AckOutcome α :=
  match f.accept n with
  | .error a => f.refuseAck a
  | .ok r =>
    let (f, late) := (r.flow.updateHistory r.segment learn).recompute
    ⟨f, some r.segment, r.entries ++ late⟩

/-- No ack came before the driver's deadline. The next recompute answers it. -/
def timeout (f : Flow α) : Flow α × List (Entry α) :=
  ({ f with pendingTimeout := true, tally := f.tally.count .timeout }, [f.entry .timeout])

/-- The driver has measured the link rate. It is reported and not used. -/
def measureLinkRate (f : Flow α) (rate : α) : Flow α × List (Entry α) :=
  ({ f with linkRate := some rate }, [f.entry (.linkRate rate)])

def enterSteadyState (f : Flow α) : Flow α × List (Entry α) :=
  let phases := f.phases.enterSteadyState
  ({ f with phases },
    if f.phases.phase = phases.phase then []
    else [f.entry (.phaseChanged f.phases.phase phases.phase)])

/-- Ends the flow, which still takes events. -/
def close (f : Flow α) : Flow α × List (Entry α) := (f, [f.entry (.closed f.stats)])

end Flow

end Pacing

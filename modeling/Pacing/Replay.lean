import Pacing.Trace.Record

/-!
# Replay of a trace

A flow is driven by the records of a trace, the clock set to the time of each of them first. A flow
reads no clock of its own, so two replays give the same steps.
-/

namespace Pacing

/-- What a flow offers after a record. -/
structure Replay.Step where
  /-- The flow's time (ms). -/
  t : Float
  window : UInt32
  intersendTime : Float
  phase : Phase
  deriving DecidableEq

namespace Replay

def advance (f : Flow Float) (r : Trace.Record) : Flow Float := (f.run r.events).1

def Step.of (t : Float) (f : Flow Float) : Step :=
  ⟨t, f.window, f.decision.intersendTime, f.phases.phase⟩

/-- Drives a flow, last set to time `t`, through some records. -/
def stepsFrom (t : Float) (f : Flow Float) : List Trace.Record → Flow Float × List Step
  | [] => (f, [])
  | r :: rest =>
    let t := r.time?.getD t
    let f := advance f r
    let (last, steps) := stepsFrom t f rest
    (last, .of t f :: steps)

/-- Drives a flow through a trace, and closes it. -/
def steps (f : Flow Float) (records : List Trace.Record) : Flow Float × List Step :=
  let (last, steps) := stepsFrom 0 f records
  (last.close.1, steps)

def Step.toJson (s : Step) : Json :=
  .object
    [("t".toList, .number (.real s.t)),
      ("window".toList, .number (.natural s.window.toNat)),
      ("intersend_time".toList, .number (.real s.intersendTime)),
      ("phase".toList, .string s.phase.name.toList)]

end Replay

end Pacing

import Pacing.Beliefs.Basic
import Pacing.Ring
import Pacing.Sample

/-!
# Throughput without a queue

A window of `measurementSpan` samples measures throughput once the acked segment was sent after all
of the window had been delivered: no later event can then change what the window saw. A window is
used once, and only if no interval from its start to the newest sample shows a queue or a loss. The
walk goes from new to old and ends at the first usable window that is not clean, since every older
one would include the same interval.
-/

namespace Pacing

variable {α : Type} [Scalar α]

open Scalar

namespace Sample

/-- The time between two samples. -/
def lengthTo (st et : Sample α) : α := et.tstamp - st.tstamp

/-- Segments sent per second between two samples. -/
def rateTo (st et : Sample α) : α := ofNat (et.cumSent - st.cumSent) * msPerSec / st.lengthTo et

end Sample

namespace Beliefs

structure Pass (α : Type) where
  /-- How deep below the newest sample the windows start that were used, newest first. -/
  used : List Nat
  /-- The best throughput so far (segments per second). -/
  best : α

/-- The better of a throughput and that of the window from `st` to `et`. -/
def bestOf (best : α) (st et : Sample α) : α :=
  if timeEpsilon < st.lengthTo et then Scalar.max best (st.rateTo et) else best

/-- Walks the samples from new to old. `starts` are those not yet visited, the first of them
`depth` below the newest; `ends` begins with the one that is `span` newer, once there is one. `clean`
holds as long as no sample visited shows a queue or a loss. -/
def Pass.walk (span anchor : Nat) (threshold : α) :
    List (Sample α) → List (Sample α) → Nat → Bool → α → Pass α
  | [], _, _, _, best => ⟨[], best⟩
  | _, [], _, _, best => ⟨[], best⟩
  | st :: starts, et :: ends, depth, clean, best =>
    let clean := clean && st.isUnderutilized threshold
    if depth < span then
      walk span anchor threshold starts (et :: ends) (depth + 1) clean best
    else if st.processed || anchor < et.cumDelivered then
      walk span anchor threshold starts ends (depth + 1) clean best
    else if clean then
      let rest := walk span anchor threshold starts ends (depth + 1) clean (bestOf best st et)
      { rest with used := depth :: rest.used }
    else
      ⟨[depth], best⟩

def pass (b : Beliefs α) (c : Config α) (anchor : Nat) (history : List (Sample α)) : Pass α :=
  match history.reverse with
  | [] => ⟨[], c.initMinC⟩
  | newest :: older =>
    Pass.walk c.measurementSpan anchor (b.threshold c) older (newest :: older) 1
      (newest.isUnderutilized (b.threshold c)) c.initMinC

/-- Raises the throughput by what a history shows, and marks the windows used. `anchor` is how much
had been delivered when the acked segment was sent. One sample shows nothing. -/
def learnThroughput (b : Beliefs α) (c : Config α) (anchor : Nat) (history : Ring (Sample α)) :
    Beliefs α × Ring (Sample α) :=
  if history.size ≤ 1 then (b, history)
  else
    let found := b.pass c anchor history.toList
    ({ b with minCLambda := Scalar.max b.minCLambda found.best },
      found.used.foldl (fun r d => r.modify (r.size - 1 - d) Sample.markProcessed) history)

end Beliefs

end Pacing

import Pacing.Beliefs.Basic

/-!
# Repair of the capacity bounds

Bounds only ever tighten, so a stale one can cross the other. At a checkpoint, a bound that has not
moved since the last one is relaxed: to what was learnt since then, where the bounds have crossed or
the other bound has not tightened significantly either. If the bounds still cross, the lower one
yields.
-/

namespace Pacing.Beliefs

variable {α : Type} [Scalar α]

open Scalar

structure Findings where
  mincChanged : Bool
  maxcChanged : Bool
  mincChangedSignificantly : Bool
  maxcChangedSignificantly : Bool
  invalid : Bool
  deriving DecidableEq, Repr

namespace Findings

/-- The lower bound is relaxed. -/
def resetMinc (f : Findings) : Bool :=
  !f.mincChanged && (f.invalid || !f.maxcChangedSignificantly)

/-- The upper bound is relaxed. -/
def shrinkMaxc (f : Findings) : Bool :=
  !f.maxcChanged && (f.invalid || !f.mincChangedSignificantly)

end Findings

structure Repair where
  findings : Findings
  /-- The bounds still crossed, and the lower one was brought down to the upper one. -/
  forced : Bool
  deriving DecidableEq, Repr

/-- Compares the bounds with those that the last checkpoint left. -/
def findings (b : Beliefs α) (c : Config α) : Findings where
  mincChanged := b.lastTimeoutMinc < b.minC
  maxcChanged := b.maxC < b.lastTimeoutMaxc
  mincChangedSignificantly := c.significantChange * b.lastTimeoutMinc < b.minC
  maxcChangedSignificantly := b.maxC * c.significantChange < b.lastTimeoutMaxc
  invalid := b.maxC < b.minC

/-- The bounds after the actions that the findings call for. -/
def relaxed (b : Beliefs α) (c : Config α) (f : Findings) : Bounds α where
  minC := if f.resetMinc then b.mincSinceLastTimeout else b.minC
  maxC :=
    if f.shrinkMaxc then Scalar.min (b.maxC * c.timeoutThresh) b.maxcSinceLastTimeout else b.maxC

/-- Whether a checkpoint is due: more than a full period has passed since the last one, or there is
no telling. -/
def repairDue (b : Beliefs α) (c : Config α) (now : α) : Bool :=
  !(now - b.lastTimeoutTime ≤ b.rtprop * c.beliefsTimeoutPeriod : Bool)

def checkpoint (b : Beliefs α) (c : Config α) (now : α) : Beliefs α × Repair :=
  let found := b.findings c
  let bounds := b.relaxed c found
  let forced : Bool := bounds.maxC < bounds.minC
  let minC := if forced then bounds.maxC else bounds.minC
  ({ b with
      minC
      maxC := bounds.maxC
      lastTimeoutMinc := minC
      lastTimeoutMaxc := bounds.maxC
      mincSinceLastTimeout := c.initMinC
      maxcSinceLastTimeout := c.initMaxC
      lastTimeoutTime := now }, ⟨found, forced⟩)

def repair (b : Beliefs α) (c : Config α) (now : α) : Beliefs α × Option Repair :=
  if b.repairDue c now then
    let (repaired, done) := b.checkpoint c now
    (repaired, some done)
  else
    (b, none)

end Pacing.Beliefs

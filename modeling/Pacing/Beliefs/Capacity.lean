import Pacing.Beliefs.Basic
import Pacing.Sample

/-!
# Capacity bounds from history

Every older sample spans a window with the newest one. What was delivered in the window, over its
length and the jitter, is a rate that the path achieved, so it raises the lower bound. Over its
length less the jitter it caps the capacity, but only where every interval walked so far kept the
link busy; the interval just before the newest sample is too noisy to cap anything.
-/

namespace Pacing.Beliefs

variable {α : Type} [Scalar α]

open Scalar

/-- Takes in the window from `st` to `et`, `depth` samples long. -/
def Bounds.observe (f : Bounds α) (jitter : α) (et st : Sample α) (depth : Nat) (busy : Bool) :
    Bounds α :=
  let window := et.tstamp - st.tstamp
  let delivered : α := ofNat (et.cumDelivered - st.cumDelivered)
  { minC :=
      if timeEpsilon < window + jitter then
        Scalar.max f.minC (delivered * msPerSec / (window + jitter))
      else f.minC
    maxC :=
      if busy && 1 < depth && timeEpsilon < window - jitter then
        Scalar.min f.maxC (delivered * msPerSec / (window - jitter))
      else f.maxC }

/-- Walks the samples before `et`, newest first. `busy` holds as long as all of them kept the link
busy. -/
def Bounds.scan (jitter threshold : α) (et : Sample α) :
    List (Sample α) → Nat → Bool → Bounds α → Bounds α
  | [], _, _, f => f
  | st :: older, depth, busy, f =>
    let busy := busy && st.isUtilized threshold
    Bounds.scan jitter threshold et older (depth + 1) busy (f.observe jitter et st depth busy)

def fresh (b : Beliefs α) (c : Config α) (et : Sample α) (older : List (Sample α)) : Bounds α :=
  Bounds.scan (b.jitter c) (b.threshold c) et older 1 true ⟨c.initMinC, c.initMaxC⟩

/-- Bounds tightened by fresh ones. The upper bound stays at the floor rate or above. -/
def Bounds.tighten (g f : Bounds α) (floor : α) : Bounds α where
  minC := Scalar.max g.minC f.minC
  maxC := Scalar.max (Scalar.min g.maxC f.maxC) floor

/-- Tightens both pairs of bounds by fresh ones. -/
def tighten (b : Beliefs α) (c : Config α) (f : Bounds α) : Beliefs α :=
  let floor := b.minSendingRate c
  let held := b.held.tighten f floor
  let recent := b.recent.tighten f floor
  { b with
    mincSinceLastTimeout := recent.minC
    maxcSinceLastTimeout := recent.maxC
    minC := held.minC
    maxC := held.maxC }

/-- Learns capacity bounds from a history, oldest sample first. One sample shows nothing. -/
def learnBounds (b : Beliefs α) (c : Config α) (history : List (Sample α)) : Beliefs α :=
  match history.reverse with
  | et :: st :: older => b.tighten c (b.fresh c et (st :: older))
  | _ => b

end Pacing.Beliefs

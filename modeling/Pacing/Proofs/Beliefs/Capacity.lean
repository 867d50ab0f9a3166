import Pacing.Beliefs.Capacity
import Pacing.Proofs.Beliefs.Floor

/-!
# Capacity bounds from quotients

A scan of the history is a fold over two lists of quotients: what was delivered over each window with the
jitter, and over each continuously utilized window without it. The bounds that a flow holds and those that
it has learnt since the last repair are tightened by the same two folds.
-/

namespace Pacing

variable {α : Type} [Scalar α]

open Scalar

namespace Beliefs

/-- The rate at which a history delivered between two samples, the time between them changed by `slack`. -/
def quotient (slack : α → α) (et st : Sample α) : α :=
  ofNat (et.cumDelivered - st.cumDelivered) * msPerSec / slack (et.tstamp - st.tstamp)

/-- The quotients of those windows that are long enough to measure a rate over. -/
def quotients (slack : α → α) (et : Sample α) (older : List (Sample α)) : List α :=
  (older.filter fun st => timeEpsilon < slack (et.tstamp - st.tstamp)).map (quotient slack et)

/-- Rates that the path achieved. -/
def lowerQuotients (jitter : α) (et : Sample α) (older : List (Sample α)) : List α :=
  quotients (· + jitter) et older

/-- Rates that cap the capacity, from the windows of more than one interval that kept the link busy
throughout. -/
def upperQuotients (jitter threshold : α) (et : Sample α) (older : List (Sample α)) : List α :=
  quotients (· - jitter) et ((older.takeWhile (·.isUtilized threshold)).drop 1)

/-! ## Scans -/

theorem foldl_quotients_cons (op : α → α → α) (slack : α → α) (et st : Sample α)
    (older : List (Sample α)) (x : α) :
    (quotients slack et (st :: older)).foldl op x =
      (quotients slack et older).foldl op
        (if timeEpsilon < slack (et.tstamp - st.tstamp) then op x (quotient slack et st) else x) := by
  unfold quotients
  rw [List.filter_cons]
  by_cases h : timeEpsilon < slack (et.tstamp - st.tstamp) <;> simp [h]

/-- From any depth on, the walk skips what is left of the first interval, and caps nothing once an interval
was not busy. -/
theorem scan_eq_from (jitter threshold : α) (et : Sample α) (older : List (Sample α)) {depth : Nat}
    (hd : 1 ≤ depth) (busy : Bool) (f : Bounds α) :
    Bounds.scan jitter threshold et older depth busy f =
      { minC := (lowerQuotients jitter et older).foldl Scalar.max f.minC
        maxC :=
          if busy then
            (quotients (· - jitter) et
              ((older.takeWhile (·.isUtilized threshold)).drop (2 - depth))).foldl Scalar.min f.maxC
          else f.maxC } := by
  induction older generalizing depth busy f with
  | nil => cases busy <;> simp [Bounds.scan, lowerQuotients, quotients]
  | cons st older ih =>
      rw [Bounds.scan, ih (Nat.le_add_left 1 depth)]
      have hlow : (lowerQuotients jitter et (st :: older)).foldl Scalar.max f.minC =
          (lowerQuotients jitter et older).foldl Scalar.max
            (f.observe jitter et st depth (busy && st.isUtilized threshold)).minC :=
        foldl_quotients_cons ..
      rw [hlow]
      congr 1
      cases busy with
      | false => simp [Bounds.observe]
      | true =>
          cases hu : st.isUtilized threshold with
          | false => simp [Bounds.observe, hu, quotients]
          | true =>
              have hskip : 2 - (depth + 1) = 0 := by omega
              simp only [Bool.and_self, if_true, hskip, List.drop_zero, List.takeWhile_cons, hu]
              rcases Nat.lt_or_ge 1 depth with h1 | h1
              · have h0 : 2 - depth = 0 := by omega
                rw [h0, List.drop_zero, foldl_quotients_cons]
                simp [Bounds.observe, h1, quotient]
              · have h0 : 2 - depth = 1 := by omega
                have hno : ¬ 1 < depth := by omega
                simp [h0, Bounds.observe, hno]

theorem fresh_eq (b : Beliefs α) (c : Config α) (et : Sample α) (older : List (Sample α)) :
    b.fresh c et older =
      { minC := (lowerQuotients (b.jitter c) et older).foldl Scalar.max c.initMinC
        maxC := (upperQuotients (b.jitter c) (b.threshold c) et older).foldl Scalar.min c.initMaxC } :=
  scan_eq_from _ _ et older Nat.le.refl true _

end Beliefs

end Pacing

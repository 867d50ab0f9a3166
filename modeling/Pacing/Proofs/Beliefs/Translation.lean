import Mathlib.Algebra.Order.Ring.Rat
import Pacing.Beliefs.Capacity
import Pacing.Beliefs.Repair
import Pacing.Beliefs.Throughput
import Pacing.Proofs.Ring

/-!
# Estimators under another origin of time

Where nothing is rounded, the estimators read the clock through differences alone: windows between two samples,
the time since the last checkpoint. With every time later by the same amount they learn the same.
-/

namespace Pacing

/-- The sample with its time later by `d`. -/
def Sample.shift (d : Rat) (s : Sample Rat) : Sample Rat := { s with tstamp := s.tstamp + d }

namespace Beliefs

/-- The beliefs with the time of the last checkpoint later by `d`. -/
def shift (d : Rat) (b : Beliefs Rat) : Beliefs Rat := { b with lastTimeoutTime := b.lastTimeoutTime + d }

/-! ## Capacity -/

theorem scan_shift (d jitter threshold : Rat) (et : Sample Rat) (older : List (Sample Rat)) (depth : Nat)
    (busy : Bool) (f : Bounds Rat) :
    Bounds.scan jitter threshold (et.shift d) (older.map (Sample.shift d)) depth busy f =
      Bounds.scan jitter threshold et older depth busy f := by
  induction older generalizing depth busy f with
  | nil => rfl
  | cons st older ih =>
      have hwindow : (et.shift d).tstamp - (st.shift d).tstamp = et.tstamp - st.tstamp := add_sub_add_right_eq_sub ..
      have hobserve (busy : Bool) : f.observe jitter (et.shift d) (st.shift d) depth busy =
          f.observe jitter et st depth busy := by
        unfold Bounds.observe
        rw [hwindow]
        rfl
      simp only [List.map_cons, Bounds.scan]
      rw [hobserve, ih]
      rfl

theorem learnBounds_shift (d : Rat) (b : Beliefs Rat) (c : Config Rat) (history : List (Sample Rat)) :
    (b.shift d).learnBounds c (history.map (Sample.shift d)) = (b.learnBounds c history).shift d := by
  unfold learnBounds
  rw [← List.map_reverse]
  match history.reverse with
  | [] => rfl
  | [_] => rfl
  | et :: st :: older =>
      have hfresh : (b.shift d).fresh c (et.shift d) ((st :: older).map (Sample.shift d)) =
          b.fresh c et (st :: older) :=
        scan_shift ..
      simp only [List.map_cons] at hfresh ⊢
      rw [hfresh]
      rfl

/-! ## Repair -/

theorem repair_shift (d : Rat) (b : Beliefs Rat) (c : Config Rat) (now : Rat) :
    (b.shift d).repair c (now + d) = ((b.repair c now).1.shift d, (b.repair c now).2) := by
  have hdue : (b.shift d).repairDue c (now + d) = b.repairDue c now := by
    have hsince : now + d - (b.shift d).lastTimeoutTime = now - b.lastTimeoutTime := add_sub_add_right_eq_sub ..
    unfold repairDue
    rw [hsince]
    rfl
  unfold repair
  rw [hdue]
  split <;> rfl

/-! ## Throughput -/

theorem bestOf_shift (d best : Rat) (st et : Sample Rat) :
    bestOf best (st.shift d) (et.shift d) = bestOf best st et := by
  have hlength : (st.shift d).lengthTo (et.shift d) = st.lengthTo et := add_sub_add_right_eq_sub ..
  unfold bestOf Sample.rateTo
  rw [hlength]
  rfl

theorem walk_shift (d : Rat) (span anchor : Nat) (threshold : Rat) (starts ends : List (Sample Rat)) (depth : Nat)
    (clean : Bool) (best : Rat) :
    Pass.walk span anchor threshold (starts.map (Sample.shift d)) (ends.map (Sample.shift d)) depth clean best =
      Pass.walk span anchor threshold starts ends depth clean best := by
  induction starts generalizing ends depth clean best with
  | nil => rfl
  | cons st starts ih =>
      cases ends with
      | nil => rfl
      | cons et ends =>
          have hrest := ih (et :: ends)
          simp only [List.map_cons, Pass.walk, bestOf_shift] at hrest ⊢
          rw [hrest, ih, ih]
          rfl

theorem learnThroughput_shift (d : Rat) (b : Beliefs Rat) (c : Config Rat) (anchor : Nat)
    (history : Ring (Sample Rat)) :
    (b.shift d).learnThroughput c anchor (history.map (Sample.shift d)) =
      ((b.learnThroughput c anchor history).1.shift d,
        (b.learnThroughput c anchor history).2.map (Sample.shift d)) := by
  have hpass : (b.shift d).pass c anchor (history.toList.map (Sample.shift d)) = b.pass c anchor history.toList := by
    unfold pass
    rw [← List.map_reverse]
    cases history.toList.reverse with
    | nil => rfl
    | cons newest older => exact walk_shift d _ _ _ older (newest :: older) ..
  have hmarks (used : List Nat) (r : Ring (Sample Rat)) :
      used.foldl (fun r n => r.modify (r.size - 1 - n) Sample.markProcessed) (r.map (Sample.shift d)) =
        (used.foldl (fun r n => r.modify (r.size - 1 - n) Sample.markProcessed) r).map (Sample.shift d) := by
    induction used generalizing r with
    | nil => rfl
    | cons n used ih =>
        have hmark (s : Sample Rat) : (s.shift d).markProcessed = s.markProcessed.shift d := rfl
        rw [List.foldl_cons, List.foldl_cons, Ring.size_map, Ring.modify_map r hmark, ih]
  unfold learnThroughput
  rw [Ring.size_map, Ring.toList_map, hpass]
  split
  · rfl
  · simp only [hmarks]
    rfl

end Beliefs

end Pacing

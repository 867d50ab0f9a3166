import Pacing.Flow
import Pacing.Proofs.Config
import Pacing.Proofs.Scalar.Double

/-!
# The configurations that flows are built from

The check passes every configuration that is as documented. Beyond these it passes those whose upper capacity
bound or thresholds are no number, since it refuses these fields by a comparison, and no comparison holds of
what is no number.
-/

namespace Pacing

variable {α : Type} [Scalar α]

open Scalar

namespace Config

/-- What is documented of all fields but the upper capacity bound and the thresholds. -/
structure Regular (c : Config α) : Prop where
  two_le_historySize : 2 ≤ c.historySize
  zero_lt_minCwnd : 0 < c.minCwnd
  one_le_interval : 1 ≤ c.measurementIntervalHistory
  interval_lt_historySize : c.measurementIntervalHistory < c.historySize
  period : ∀ p ∈ [c.interHistoryTime, c.beliefsTimeoutPeriod, c.interRateUpdateTime, c.timeDeltaMax],
    isFinite p = true ∧ zero < p
  zero_le_jitterMultiplier : zero ≤ c.jitterMultiplier
  zero_lt_initMinC : zero < c.initMinC

/-- What is documented of a configuration. -/
structure Documented (c : Config α) : Prop extends c.Regular where
  initMinC_le_initMaxC : c.initMinC ≤ c.initMaxC
  one_le_significantChange : one ≤ c.significantChange
  one_le_timeoutThresh : one ≤ c.timeoutThresh

theorem check_eq_ok_iff {c c' : Config α} : c.check = .ok c' ↔ c.fault? = none ∧ c' = c := by
  unfold check
  cases c.fault? with
  | none => simp [eq_comm]
  | some f => simp

theorem build_eq_ok_iff {c : Config α} {f : Flow α} :
    Flow.build c = .ok f ↔ c.fault? = none ∧ f = .start c := by
  unfold Flow.build check
  cases c.fault? with
  | none => simp [eq_comm]
  | some _ => simp

variable [LawfulScalar α] {c : Config α}

theorem fault?_eq_none_iff_regular :
    c.fault? = none ↔ c.Regular ∧
      (c.initMinC ≤ c.initMaxC ∨ isNaN c.initMaxC = true) ∧
      (one ≤ c.significantChange ∨ isNaN c.significantChange = true) ∧
      (one ≤ c.timeoutThresh ∨ isNaN c.timeoutThresh = true) := by
  rw [fault?_eq_none, not_lt_iff_le_or_isNaN number_one, not_lt_iff_le_or_isNaN number_one,
    number_and_not_lt_iff number_zero]
  simp only [uselessTime_eq_false]
  constructor
  · rintro ⟨hsize, hcwnd, ⟨hpos, hlt⟩, hperiods, hjitter, ⟨hnum, hmin, hbounds⟩, hchange, hthresh⟩
    have hregular : c.Regular := ⟨hsize, UInt32.pos_iff_ne_zero.mpr hcwnd, Nat.pos_of_ne_zero hpos, hlt, hperiods,
      hjitter, (number_and_not_le_iff number_zero).mp ⟨hnum, hmin⟩⟩
    exact ⟨hregular, (not_lt_iff_le_or_isNaN hnum).mp hbounds, hchange, hthresh⟩
  · rintro ⟨h, hbounds, hchange, hthresh⟩
    obtain ⟨hnum, hmin⟩ := (number_and_not_le_iff number_zero).mpr h.zero_lt_initMinC
    exact ⟨h.two_le_historySize, UInt32.pos_iff_ne_zero.mp h.zero_lt_minCwnd,
      ⟨Nat.ne_of_gt h.one_le_interval, h.interval_lt_historySize⟩, h.period, h.zero_le_jitterMultiplier,
      ⟨hnum, hmin, (not_lt_iff_le_or_isNaN hnum).mpr hbounds⟩, hchange, hthresh⟩

/-- Where the upper capacity bound and the thresholds are numbers, the check is the documentation. -/
theorem fault?_eq_none_iff_documented (hbound : isNaN c.initMaxC = false)
    (hchange : isNaN c.significantChange = false) (hthresh : isNaN c.timeoutThresh = false) :
    c.fault? = none ↔ c.Documented := by
  rw [fault?_eq_none_iff_regular]
  simp only [hbound, hchange, hthresh, Bool.false_eq_true, or_false]
  constructor
  · exact fun ⟨h, hmax, hsig, hgrow⟩ => ⟨h, hmax, hsig, hgrow⟩
  · exact fun h => ⟨h.toRegular, h.initMinC_le_initMaxC, h.one_le_significantChange, h.one_le_timeoutThresh⟩

theorem start_valid_iff (h : c.fault? = none) :
    (Flow.start c).beliefs.minC ≤ (Flow.start c).beliefs.maxC ↔ isNaN c.initMaxC = false := by
  change c.initMinC ≤ c.initMaxC ↔ _
  constructor
  · exact number_right
  · intro hnum
    obtain ⟨-, hle | hnan, -⟩ := fault?_eq_none_iff_regular.mp h
    · exact hle
    · simp [hnum] at hnan

/-- The check passes the configurations that are as documented, and those that are but for an upper capacity bound
or a threshold that is no number. The bounds that a flow starts with are in order unless the upper one is no
number. -/
theorem accepted_up_to_nan (c : Config Float) :
    (c.check = .ok c ↔ c.Regular ∧
      (c.initMinC ≤ c.initMaxC ∨ isNaN c.initMaxC = true) ∧
      (one ≤ c.significantChange ∨ isNaN c.significantChange = true) ∧
      (one ≤ c.timeoutThresh ∨ isNaN c.timeoutThresh = true)) ∧
    (isNaN c.initMaxC = false → isNaN c.significantChange = false → isNaN c.timeoutThresh = false →
      (c.check = .ok c ↔ c.Documented)) ∧
    ∀ f, (Flow.build c = .ok f ↔ c.check = .ok c ∧ f = .start c) ∧
      (Flow.build c = .ok f → (f.beliefs.minC ≤ f.beliefs.maxC ↔ isNaN c.initMaxC = false)) := by
  have hcheck : c.check = .ok c ↔ c.fault? = none := by simp [check_eq_ok_iff]
  rw [hcheck]
  refine ⟨fault?_eq_none_iff_regular, fault?_eq_none_iff_documented, fun f => ⟨build_eq_ok_iff, fun hf => ?_⟩⟩
  obtain ⟨hnone, rfl⟩ := build_eq_ok_iff.mp hf
  exact start_valid_iff hnone

/-- Each of the three fields passes where it is no number, against the documentation. With such an upper bound, a
flow starts with bounds that are not in order. -/
theorem nan_accepted :
    let nan : Float := .ofBits 0x7ff8000000000000
    let bound : Config Float := { Config.standard with initMaxC := nan }
    let change : Config Float := { Config.standard with significantChange := nan }
    let thresh : Config Float := { Config.standard with timeoutThresh := nan }
    (bound.check = .ok bound ∧ ¬ bound.Documented) ∧
      (change.check = .ok change ∧ ¬ change.Documented) ∧
      (thresh.check = .ok thresh ∧ ¬ thresh.Documented) ∧
      ∃ f, Flow.build bound = .ok f ∧ ¬ f.beliefs.minC ≤ f.beliefs.maxC := by
  intro nan bound change thresh
  have hbound : bound.fault? = none := by decide +kernel
  have hchange : change.fault? = none := by decide +kernel
  have hthresh : thresh.fault? = none := by decide +kernel
  refine ⟨⟨?_, fun h => ?_⟩, ⟨?_, fun h => ?_⟩, ⟨?_, fun h => ?_⟩, .start bound, ?_, ?_⟩
  · exact check_eq_ok_iff.mpr ⟨hbound, rfl⟩
  · exact absurd h.initMinC_le_initMaxC (by decide +kernel)
  · exact check_eq_ok_iff.mpr ⟨hchange, rfl⟩
  · exact absurd h.one_le_significantChange (by decide +kernel)
  · exact check_eq_ok_iff.mpr ⟨hthresh, rfl⟩
  · exact absurd h.one_le_timeoutThresh (by decide +kernel)
  · exact build_eq_ok_iff.mpr ⟨hbound, rfl⟩
  · decide +kernel

end Config

end Pacing

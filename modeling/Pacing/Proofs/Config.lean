import Pacing.Config
import Pacing.Proofs.Scalar.Lawful

/-!
# What a check of a configuration promises
-/

namespace Pacing

variable {α : Type}

open Scalar

theorem uselessTime_eq_false [Scalar α] [LawfulScalar α] {t : α} :
    uselessTime t = false ↔ isFinite t = true ∧ zero < t := by
  simp only [uselessTime, Bool.or_eq_false_iff, Bool.not_eq_false', decide_eq_false_iff_not]
  exact and_congr_right fun hfin => not_le_iff (LawfulScalar.number_of_isFinite hfin) number_zero

namespace Config

theorem zero_lt_measurementSpan (c : Config α) : 0 < c.measurementSpan := Nat.le_max_right ..

theorem interHistoryTime_mem_periods (c : Config α) : c.interHistoryTime ∈ c.periods := by simp [periods]

theorem beliefsTimeoutPeriod_mem_periods (c : Config α) : c.beliefsTimeoutPeriod ∈ c.periods := by simp [periods]

theorem interRateUpdateTime_mem_periods (c : Config α) : c.interRateUpdateTime ∈ c.periods := by simp [periods]

theorem timeDeltaMax_mem_periods (c : Config α) : c.timeDeltaMax ∈ c.periods := by simp [periods]

variable [Scalar α] {c : Config α}

theorem ite_some_eq_none {p : Prop} [Decidable p] {f : Fault} {rest : Option Fault} :
    (if p then some f else rest) = none ↔ ¬ p ∧ rest = none := by
  split <;> simp [*]

theorem fault?_eq_none :
    c.fault? = none ↔
      2 ≤ c.historySize ∧ c.minCwnd ≠ 0 ∧
      (c.measurementIntervalHistory ≠ 0 ∧ c.measurementIntervalHistory < c.historySize) ∧
      (∀ p ∈ c.periods, uselessTime p = false) ∧
      (isNaN c.jitterMultiplier = false ∧ ¬ c.jitterMultiplier < zero) ∧
      (isNaN c.initMinC = false ∧ ¬ c.initMinC ≤ zero ∧ ¬ c.initMaxC < c.initMinC) ∧
      ¬ c.significantChange < one ∧ ¬ c.timeoutThresh < one := by
  have hperiods : ¬ c.periods.any uselessTime = true ↔ ∀ p ∈ c.periods, uselessTime p = false := by
    simp
  simp only [fault?, ite_some_eq_none, hperiods, not_or, Nat.not_lt, Nat.not_le, Bool.not_eq_true, ne_eq,
    and_true]

theorem useful_period (h : c.fault? = none) {p : α} (hp : p ∈ c.periods) : uselessTime p = false :=
  (fault?_eq_none.mp h).2.2.2.1 p hp

/-- What the documentation asks of the capacity bounds and of the repair. Since a comparison holds of numbers
only, none of these fields is no number. -/
structure Coherent (c : Config α) : Prop where
  zero_lt_initMinC : zero < c.initMinC
  initMinC_le_initMaxC : c.initMinC ≤ c.initMaxC
  one_le_timeoutThresh : one ≤ c.timeoutThresh
  minCwnd_ne_zero : c.minCwnd ≠ 0

variable [LawfulScalar α]

theorem isFinite_period (h : c.fault? = none) {p : α} (hp : p ∈ c.periods) : isFinite p = true :=
  (uselessTime_eq_false.mp (useful_period h hp)).1

theorem zero_lt_period (h : c.fault? = none) {p : α} (hp : p ∈ c.periods) : zero < p :=
  (uselessTime_eq_false.mp (useful_period h hp)).2

theorem zero_lt_initMinC (h : c.fault? = none) : zero < c.initMinC := by
  obtain ⟨-, -, -, -, -, ⟨hnum, hnot, -⟩, -⟩ := fault?_eq_none.mp h
  exact (not_le_iff hnum number_zero).mp hnot

theorem zero_le_jitterMultiplier (h : c.fault? = none) : zero ≤ c.jitterMultiplier := by
  obtain ⟨-, -, -, -, ⟨hnum, hnot⟩, -⟩ := fault?_eq_none.mp h
  exact le_of_not_gt number_zero hnum hnot

end Config

end Pacing

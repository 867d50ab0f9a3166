import Pacing.Beliefs.Repair
import Pacing.Proofs.Beliefs.Capacity
import Pacing.Proofs.Config

/-!
# Repairs only relax

A flow holds two pairs of capacity bounds: those of the epoch, and those learnt since the last repair, which
the repair falls back on. Both are tightened alike, so the second pair never gets tighter than the first,
and falling back on it relaxes.
-/

namespace Pacing

variable {α : Type} [Scalar α]

open Scalar Beliefs

/-- The bounds that a flow holds, and those that it has learnt since the last repair. -/
structure Capacity (α : Type) where
  held : Bounds α
  recent : Bounds α

namespace Capacity

def tighten (k : Capacity α) (f : Bounds α) (floor : α) : Capacity α where
  held := k.held.tighten f floor
  recent := k.recent.tighten f floor

/-- The bounds learnt since the last repair are no tighter than those held, unless these were never
tightened. -/
structure Anchored (c : Config α) (k : Capacity α) : Prop where
  number_minC : isNaN k.held.minC = false
  number_maxC : isNaN k.held.maxC = false
  recent_minC_le : k.recent.minC ≤ Scalar.max k.held.minC c.initMinC
  le_recent_maxC : Scalar.min k.held.maxC c.initMaxC ≤ k.recent.maxC

/-- Once a history was learnt from, there is no exception. -/
structure Tightened (floor : α) (k : Capacity α) : Prop where
  number_minC : isNaN k.held.minC = false
  recent_minC_le : k.recent.minC ≤ k.held.minC
  le_recent_maxC : k.held.maxC ≤ k.recent.maxC
  floor_le_maxC : floor ≤ k.held.maxC

/-- A rate within both pairs of bounds. -/
structure Brackets (rate : α) (k : Capacity α) : Prop where
  minC_le : k.held.minC ≤ rate
  le_maxC : rate ≤ k.held.maxC
  recent_minC_le : k.recent.minC ≤ rate
  le_recent_maxC : rate ≤ k.recent.maxC

end Capacity

def Beliefs.capacity (b : Beliefs α) : Capacity α where
  held := b.held
  recent := b.recent

namespace Capacity

variable [LawfulScalar α] {c : Config α} {k : Capacity α} {f : Bounds α} {floor rate : α}

/-! ## Tightening -/

theorem Anchored.tighten (hk : k.Anchored c) (hlow : c.initMinC ≤ f.minC) (hhigh : f.maxC ≤ c.initMaxC)
    (hfloor : isNaN floor = false) : (k.tighten f floor).Tightened floor := by
  have hfmin := number_right hlow
  have hfmax := number_left hhigh
  refine ⟨number_right (le_max_left hk.number_minC _), ?_, ?_, le_max_right _ hfloor⟩
  · refine max_le (le_trans hk.recent_minC_le (max_le (le_max_left hk.number_minC _) ?_))
      (le_max_right _ hfmin)
    exact le_trans hlow (le_max_right _ hfmin)
  · have hmin : Scalar.min k.held.maxC f.maxC ≤ Scalar.min k.recent.maxC f.maxC := by
      refine le_min (le_trans (le_min (min_le_left hk.number_maxC _) ?_) hk.le_recent_maxC)
        (min_le_right _ hfmax)
      exact le_trans (min_le_right _ hfmax) hhigh
    exact max_le (le_trans hmin (le_max_left (number_right hmin) _)) (le_max_right _ hfloor)

theorem Tightened.anchored (hk : k.Tightened floor) : k.Anchored c := by
  have hmax := number_right hk.floor_le_maxC
  exact ⟨hk.number_minC, hmax, le_trans hk.recent_minC_le (le_max_left hk.number_minC _),
    le_trans (min_le_left hmax _) hk.le_recent_maxC⟩

/-- Bounds that are the initial ones, or were relaxed to them, are anchored whatever the held ones are. -/
theorem anchored_of_recent (hc : c.Coherent) (hmin : isNaN k.held.minC = false)
    (hmax : isNaN k.held.maxC = false) (hrecent : k.recent = ⟨c.initMinC, c.initMaxC⟩) :
    k.Anchored c := by
  refine ⟨hmin, hmax, ?_, ?_⟩ <;> rw [hrecent]
  · exact le_max_right _ (number_left hc.initMinC_le_initMaxC)
  · exact min_le_right _ (number_right hc.initMinC_le_initMaxC)

theorem Brackets.tighten (hk : k.Brackets rate) (hlow : f.minC ≤ rate) (hhigh : rate ≤ f.maxC) :
    (k.tighten f floor).Brackets rate := by
  have hheld := le_min hk.le_maxC hhigh
  have hrecent := le_min hk.le_recent_maxC hhigh
  exact ⟨max_le hk.minC_le hlow, le_trans hheld (le_max_left (number_right hheld) _),
    max_le hk.recent_minC_le hlow, le_trans hrecent (le_max_left (number_right hrecent) _)⟩

end Capacity

/-! ## Checkpoints -/

namespace Beliefs

variable {b b' : Beliefs α} {c : Config α}

/-- What a repair makes of the beliefs right before it. -/
structure Relaxes (c : Config α) (b b' : Beliefs α) : Prop where
  valid : b'.minC ≤ b'.maxC
  minC_le : b'.minC ≤ b.minC
  le_maxC : b.maxC ≤ b'.maxC
  floor_le_maxC : b'.minSendingRate c ≤ b'.maxC
  lastTimeoutMinc : b'.lastTimeoutMinc = b'.minC
  lastTimeoutMaxc : b'.lastTimeoutMaxc = b'.maxC
  mincSinceLastTimeout : b'.mincSinceLastTimeout = c.initMinC
  maxcSinceLastTimeout : b'.maxcSinceLastTimeout = c.initMaxC

theorem Relaxes.learnt (h : Relaxes c b b') (rate : α) :
    Relaxes c b { b' with minCLambda := rate } :=
  ⟨h.valid, h.minC_le, h.le_maxC, h.floor_le_maxC, h.lastTimeoutMinc, h.lastTimeoutMaxc,
    h.mincSinceLastTimeout, h.maxcSinceLastTimeout⟩

variable [LawfulScalar α]

theorem relaxed_minC_le (found : Findings) (h : b.capacity.Tightened (b.minSendingRate c)) :
    (b.relaxed c found).minC ≤ b.minC := by
  unfold relaxed
  dsimp only
  split
  · exact h.recent_minC_le
  · exact le_refl h.number_minC

/-- Scaling by a ratio of at least one gives no less, or no number, which the fallback replaces. -/
theorem le_min_scaled {x ratio fallback y : α} (hx : zero ≤ x) (hratio : one ≤ ratio) (hy : y ≤ x)
    (hfall : y ≤ fallback) : y ≤ Scalar.min (x * ratio) fallback := by
  cases hnan : isNaN (x * ratio) with
  | true =>
      rw [min_of_isNaN_left hnan (number_right hfall)]
      exact hfall
  | false => exact le_min (le_trans hy (LawfulScalar.le_mul hx hratio hnan)) hfall

theorem le_relaxed_maxC (found : Findings) (hc : c.Coherent)
    (h : b.capacity.Tightened (b.minSendingRate c)) : b.maxC ≤ (b.relaxed c found).maxC := by
  have hpos : zero ≤ b.maxC := le_trans (b.zero_le_minSendingRate hc.minCwnd_ne_zero) h.floor_le_maxC
  have hself := le_refl (number_right h.floor_le_maxC)
  unfold relaxed
  dsimp only
  split
  · exact le_min_scaled hpos hc.one_le_timeoutThresh hself h.le_recent_maxC
  · exact hself

theorem relaxes_checkpoint (hc : c.Coherent) (h : b.capacity.Tightened (b.minSendingRate c)) (now : α) :
    Relaxes c b (b.checkpoint c now).1 := by
  have hmin := relaxed_minC_le (b.findings c) h
  have hmax := le_relaxed_maxC (b.findings c) hc h
  unfold checkpoint
  dsimp only
  split
  · rename_i hforced
    have hlt : (b.relaxed c (b.findings c)).maxC < (b.relaxed c (b.findings c)).minC := by
      simpa using hforced
    exact ⟨le_refl (number_right hmax), le_trans (le_of_lt hlt) hmin, hmax,
      le_trans h.floor_le_maxC hmax, rfl, rfl, rfl, rfl⟩
  · rename_i hforced
    have hge : ¬ (b.relaxed c (b.findings c)).maxC < (b.relaxed c (b.findings c)).minC := by
      simpa using hforced
    exact ⟨le_of_not_gt (number_left hmin) (number_right hmax) hge, hmin, hmax,
      le_trans h.floor_le_maxC hmax, rfl, rfl, rfl, rfl⟩

theorem Relaxes.anchored (hc : c.Coherent) (h : Relaxes c b b') : b'.capacity.Anchored c :=
  Capacity.anchored_of_recent hc (number_left h.valid) (number_right h.valid)
    (by rw [capacity, Beliefs.recent, h.mincSinceLastTimeout, h.maxcSinceLastTimeout])

theorem brackets_relaxed {rate : α} (found : Findings) (hc : c.Coherent) (hlow : c.initMinC ≤ rate)
    (h : b.capacity.Brackets rate) :
    (b.relaxed c found).minC ≤ rate ∧ rate ≤ (b.relaxed c found).maxC := by
  have hpos : zero ≤ b.maxC := le_trans (le_of_lt hc.zero_lt_initMinC) (le_trans hlow h.le_maxC)
  unfold relaxed
  dsimp only
  constructor
  · split
    · exact h.recent_minC_le
    · exact h.minC_le
  · split
    · exact le_min_scaled hpos hc.one_le_timeoutThresh h.le_maxC h.le_recent_maxC
    · exact h.le_maxC

/-- A rate within both pairs of bounds keeps a repair from crossing them, and stays within. -/
theorem brackets_checkpoint {rate : α} (hc : c.Coherent) (hlow : c.initMinC ≤ rate)
    (hhigh : rate ≤ c.initMaxC) (h : b.capacity.Brackets rate) (now : α) :
    (b.checkpoint c now).1.capacity.Brackets rate ∧ (b.checkpoint c now).2.forced = false := by
  obtain ⟨hmin, hmax⟩ := brackets_relaxed (b.findings c) hc hlow h
  have hno : ¬ (b.relaxed c (b.findings c)).maxC < (b.relaxed c (b.findings c)).minC :=
    fun hlt => not_ge_of_lt hlt (le_trans hmin hmax)
  unfold checkpoint
  simp only [hno, decide_false, Bool.false_eq_true, if_false]
  exact ⟨⟨hmin, hmax, hlow, hhigh⟩, trivial⟩

end Beliefs

end Pacing

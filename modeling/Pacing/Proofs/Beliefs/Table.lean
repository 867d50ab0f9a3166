import Pacing.Proofs.Beliefs.Repair
import Pacing.Proofs.Scalar.Double

/-!
# The decision table of a repair

A repair relaxes a bound that has not changed since the last checkpoint, as a table says by what else it finds.
While the bounds are in order, the documented table asks that the other bound has not changed either. The repair
asks less there, that the other bound has not changed significantly.
-/

namespace Pacing.Beliefs

variable {α : Type} [Scalar α]

open Scalar

/-! ## What a checkpoint finds -/

/-- A capacity bound. -/
inductive Side
  | lower
  | upper
  deriving DecidableEq

def Side.other : Side → Side
  | .lower => .upper
  | .upper => .lower

section findings

variable (c : Config α) (b : Beliefs α)

/-- The bound got tighter since the last checkpoint. -/
def Changed : Side → Prop
  | .lower => b.lastTimeoutMinc < b.minC
  | .upper => b.maxC < b.lastTimeoutMaxc

def Unchanged : Side → Prop
  | .lower => b.minC ≤ b.lastTimeoutMinc
  | .upper => b.lastTimeoutMaxc ≤ b.maxC

/-- It did so by more than the ratio of a significant change. -/
def ChangedSignificantly : Side → Prop
  | .lower => c.significantChange * b.lastTimeoutMinc < b.minC
  | .upper => b.maxC * c.significantChange < b.lastTimeoutMaxc

def Invalid : Prop := b.maxC < b.minC

def Valid : Prop := b.minC ≤ b.maxC

/-- The bounds, and those of the last checkpoint, are numbers. -/
structure Comparable : Prop where
  minC : isNaN b.minC = false
  maxC : isNaN b.maxC = false
  lastTimeoutMinc : isNaN b.lastTimeoutMinc = false
  lastTimeoutMaxc : isNaN b.lastTimeoutMaxc = false

end findings

/-! ## Tables -/

/-- A row of a decision table: the bound to relax, and what it takes. -/
structure Row where
  relaxes : Side
  /-- Whether the lower bound must have changed. Here and below, `none` asks nothing. -/
  mincChanged : Option Bool
  maxcChanged : Option Bool
  invalid : Option Bool
  /-- The bound that must not have changed significantly. -/
  steady : Option Side

/-- What an entry of a row asks of a finding and its opposite. -/
def Asked (yes no : Prop) : Option Bool → Prop
  | none => True
  | some true => yes
  | some false => no

@[simp] theorem asked_none (yes no : Prop) : Asked yes no none := trivial

def Row.Applies (r : Row) (c : Config α) (b : Beliefs α) : Prop :=
  Asked (b.Changed .lower) (b.Unchanged .lower) r.mincChanged ∧
    Asked (b.Changed .upper) (b.Unchanged .upper) r.maxcChanged ∧
    Asked b.Invalid b.Valid r.invalid ∧
    ∀ s, r.steady = some s → ¬ b.ChangedSignificantly c s

def Calls (rows : List Row) (c : Config α) (b : Beliefs α) (s : Side) : Prop :=
  ∃ r ∈ rows, r.relaxes = s ∧ r.Applies c b

/-- The first two rows are for bounds that have crossed, the others for bounds in order. What these ask about a
change of the other bound is `otherChanged`. -/
def rows (otherChanged : Option Bool) : List Row :=
  [⟨.lower, some false, none, some true, none⟩,
    ⟨.upper, none, some false, some true, none⟩,
    ⟨.lower, some false, otherChanged, some false, some .upper⟩,
    ⟨.upper, otherChanged, some false, some false, some .lower⟩]

/-- The table as documented. -/
def documented : List Row := rows (some false)

/-- The table that a repair follows. While the bounds are in order, a change of the other bound that is not
significant does not matter to it. -/
def followed : List Row := rows none

/-- The lower of two bounds that cross comes down to the upper one. -/
def yielded (low high : α) : α := if high < low then high else low

/-- What a repair makes of the bounds where it relaxes those that are called for. -/
structure Obeys (calls : Side → Prop) (c : Config α) (b b' : Beliefs α) : Prop where
  shrunk_maxC : calls .upper → b'.maxC = Scalar.min (b.maxC * c.timeoutThresh) b.maxcSinceLastTimeout
  kept_maxC : ¬ calls .upper → b'.maxC = b.maxC
  reset_minC : calls .lower → b'.minC = yielded b.mincSinceLastTimeout b'.maxC
  kept_minC : ¬ calls .lower → b'.minC = yielded b.minC b'.maxC

section rows

variable {c : Config α} {b : Beliefs α} {s : Side} {otherChanged : Option Bool}

theorem calls_rows_iff :
    Calls (rows otherChanged) c b s ↔ b.Unchanged s ∧
      (b.Invalid ∨ b.Valid ∧ Asked (b.Changed s.other) (b.Unchanged s.other) otherChanged ∧
        ¬ b.ChangedSignificantly c s.other) := by
  -- Two of the four rows relax each bound: one is for crossed bounds, the other for bounds in order.
  simp only [Calls, rows, List.exists_mem_cons_iff, Row.Applies]
  cases s with
  | lower =>
      simp [Side.other]
      tauto
  | upper =>
      simp [Side.other]
      tauto

theorem calls_documented_iff :
    Calls documented c b s ↔ b.Unchanged s ∧
      (b.Invalid ∨ b.Valid ∧ b.Unchanged s.other ∧ ¬ b.ChangedSignificantly c s.other) :=
  calls_rows_iff

theorem calls_followed_iff :
    Calls followed c b s ↔ b.Unchanged s ∧ (b.Invalid ∨ b.Valid ∧ ¬ b.ChangedSignificantly c s.other) := by
  rw [followed, calls_rows_iff]
  simp only [asked_none, true_and]

end rows

/-! ## Repairs by the table -/

section repair

variable [LawfulScalar α] {c : Config α} {b : Beliefs α}

theorem unchanged_iff (hb : b.Comparable) (s : Side) : b.Unchanged s ↔ ¬ b.Changed s := by
  cases s with
  | lower => exact (not_lt_iff hb.lastTimeoutMinc hb.minC).symm
  | upper => exact (not_lt_iff hb.maxC hb.lastTimeoutMaxc).symm

theorem valid_iff (hb : b.Comparable) : b.Valid ↔ ¬ b.Invalid := (not_lt_iff hb.maxC hb.minC).symm

/-- Beyond the documented rows, a bound is relaxed where the bounds are in order and the other one changed, but not
significantly. -/
theorem calls_followed_iff_documented (hb : b.Comparable) (s : Side) :
    Calls followed c b s ↔ Calls documented c b s ∨
      b.Unchanged s ∧ b.Valid ∧ b.Changed s.other ∧ ¬ b.ChangedSignificantly c s.other := by
  rw [calls_followed_iff, calls_documented_iff, unchanged_iff hb s.other]
  tauto

/-- Numbers are in order or cross, so the table comes down to what did not change. -/
theorem calls_followed_iff_not (hb : b.Comparable) {s : Side} :
    Calls followed c b s ↔ ¬ b.Changed s ∧ (b.Invalid ∨ ¬ b.ChangedSignificantly c s.other) := by
  rw [calls_followed_iff, unchanged_iff hb, valid_iff hb]
  tauto

theorem resetMinc_findings_iff (hb : b.Comparable) :
    (b.findings c).resetMinc = true ↔ Calls followed c b .lower := by
  rw [calls_followed_iff_not hb]
  simp [Findings.resetMinc, findings, Changed, Invalid, ChangedSignificantly, Side.other]

theorem shrinkMaxc_findings_iff (hb : b.Comparable) :
    (b.findings c).shrinkMaxc = true ↔ Calls followed c b .upper := by
  rw [calls_followed_iff_not hb]
  simp [Findings.shrinkMaxc, findings, Changed, Invalid, ChangedSignificantly, Side.other]

theorem obeys_checkpoint (hb : b.Comparable) (now : α) :
    Obeys (Calls followed c b) c b (b.checkpoint c now).1 := by
  have hreset := resetMinc_findings_iff (c := c) hb
  have hshrink := shrinkMaxc_findings_iff (c := c) hb
  have hlow : (b.checkpoint c now).1.minC =
      yielded (b.relaxed c (b.findings c)).minC (b.checkpoint c now).1.maxC := by
    simp [checkpoint, yielded]
  refine ⟨fun h => ?_, fun h => ?_, fun h => ?_, fun h => ?_⟩
  · rw [← hshrink] at h
    simp [checkpoint, relaxed, h]
  · rw [← hshrink] at h
    simp [checkpoint, relaxed, h]
  · rw [← hreset] at h
    rw [hlow, relaxed, if_pos h]
  · rw [← hreset] at h
    rw [hlow, relaxed, if_neg h]

omit [LawfulScalar α] in
theorem repair_of_elapsed {now : α} (h : ¬ now - b.lastTimeoutTime ≤ b.rtprop * c.beliefsTimeoutPeriod) :
    (b.repair c now).1 = (b.checkpoint c now).1 := by
  have hdue : b.repairDue c now = true := by simp [repairDue, h]
  rw [repair, if_pos hdue]

omit [LawfulScalar α] in
theorem repair_of_not_elapsed {now : α} (h : now - b.lastTimeoutTime ≤ b.rtprop * c.beliefsTimeoutPeriod) :
    b.repair c now = (b, none) := by
  have hdue : b.repairDue c now = false := by simp [repairDue, h]
  rw [repair, hdue]
  rfl

end repair

/-- A repair relaxes the bounds that the table calls for which it follows: a bound that did not change, where the
bounds have crossed or the other one has not changed significantly. That is the documented table, but for bounds in
order of which the other one changed slightly. If the bounds still cross, the lower one yields. Before a full period
has elapsed, nothing happens. -/
theorem repair_by_table (b : Beliefs Float) (c : Config Float) (now : Float) (hb : b.Comparable) :
    (¬ now - b.lastTimeoutTime ≤ b.rtprop * c.beliefsTimeoutPeriod →
      Obeys (Calls followed c b) c b (b.repair c now).1) ∧
    (∀ s, Calls followed c b s ↔
      b.Unchanged s ∧ (b.Invalid ∨ b.Valid ∧ ¬ b.ChangedSignificantly c s.other)) ∧
    (∀ s, Calls followed c b s ↔ Calls documented c b s ∨
      b.Unchanged s ∧ b.Valid ∧ b.Changed s.other ∧ ¬ b.ChangedSignificantly c s.other) ∧
    (now - b.lastTimeoutTime ≤ b.rtprop * c.beliefsTimeoutPeriod → b.repair c now = (b, none)) := by
  refine ⟨fun helapsed => ?_, fun _ => calls_followed_iff, calls_followed_iff_documented hb,
    repair_of_not_elapsed⟩
  rw [repair_of_elapsed helapsed]
  exact obeys_checkpoint hb now

/-- The upper bound came down by a twentieth, which is not significant, and the lower one did not change. -/
def slightlyTightened : Beliefs Float :=
  { Beliefs.start .standard (ofNat 10) with
    minC := ofNat 100
    lastTimeoutMinc := ofNat 100
    mincSinceLastTimeout := ofNat 80
    maxC := ofNat 950
    lastTimeoutMaxc := ofNat 1000
    maxcSinceLastTimeout := ofNat 1200 }

theorem comparable_slightlyTightened : slightlyTightened.Comparable :=
  ⟨by decide +kernel, by decide +kernel, by decide +kernel, by decide +kernel⟩

/-- The lower bound is reset. A millisecond earlier the period has not elapsed, and it is not. -/
theorem repair_by_table_of_slight_change :
    let b := slightlyTightened
    let c : Config Float := .standard
    b.Comparable ∧ ¬ ofNat 121 - b.lastTimeoutTime ≤ b.rtprop * c.beliefsTimeoutPeriod ∧
      Obeys (Calls followed c b) c b (b.repair c (ofNat 121)).1 ∧
      (b.repair c (ofNat 121)).1.minC = ofNat 80 ∧ (b.repair c (ofNat 120)).1.minC = ofNat 100 := by
  intro b c
  have helapsed : ¬ ofNat 121 - b.lastTimeoutTime ≤ b.rtprop * c.beliefsTimeoutPeriod := by decide +kernel
  have hearly : ofNat 120 - b.lastTimeoutTime ≤ b.rtprop * c.beliefsTimeoutPeriod := by decide +kernel
  have hrepair := (repair_by_table b c (ofNat 121) comparable_slightlyTightened).1 helapsed
  have hnothing := (repair_by_table b c (ofNat 120) comparable_slightlyTightened).2.2.2 hearly
  refine ⟨comparable_slightlyTightened, helapsed, hrepair, by decide +kernel, ?_⟩
  rw [hnothing]
  rfl

/-- The documented table leaves the lower bound alone there, since the upper one changed. -/
theorem reset_without_documented_row :
    let b := slightlyTightened
    let c : Config Float := .standard
    c.fault? = none ∧ b.Comparable ∧ b.rtprop * c.beliefsTimeoutPeriod < ofNat 121 - b.lastTimeoutTime ∧
      ¬ Obeys (Calls documented c b) c b (b.repair c (ofNat 121)).1 := by
  intro b c
  refine ⟨by decide +kernel, comparable_slightlyTightened, by decide +kernel, fun h => ?_⟩
  have hcall : ¬ Calls documented c b .lower := by
    rw [calls_documented_iff]
    rintro ⟨-, hcrossed | ⟨-, hsteady, -⟩⟩
    · exact absurd hcrossed (by decide +kernel : ¬ b.maxC < b.minC)
    · exact absurd hsteady (by decide +kernel : ¬ b.lastTimeoutMaxc ≤ b.maxC)
  have hkept : ¬ (b.repair c (ofNat 121)).1.minC = yielded b.minC (b.repair c (ofNat 121)).1.maxC := by
    decide +kernel
  exact hkept (h.kept_minC hcall)

end Pacing.Beliefs

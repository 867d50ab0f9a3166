import Pacing.Proofs.Beliefs.Rereading
import Pacing.Proofs.Flow.History
import Pacing.Proofs.Flow.Outputs
import Pacing.Proofs.Scalar.Difference

/-!
# Cadence of the timers

A flow recomputes, takes samples and repairs its bounds each at most once in a period of its own, measured
from the last time that it did. All three periods are multiples of the round-trip time as it stands once the
event has taken its own in.
-/

namespace Pacing

variable {α : Type} [Scalar α]

open Scalar

namespace Transition

/-- The event can make the flow recompute: it is a send, or an ack that is not refused. -/
def paces (t : Transition α) : Bool :=
  match t.event with
  | .sent _ => true
  | _ => t.resolved?.isSome

/-- The event made the flow repair its capacity bounds. -/
def repaired (t : Transition α) : Bool := t.before.tally.repairs < t.after.tally.repairs

end Transition

/-- When the last transition of a kind was, or else when the epoch began. -/
def lastTime (kind : Transition α → Bool) (began : α) (ts : List (Transition α)) : α :=
  (ts.filter kind).getLast?.elim began Transition.time

omit [Scalar α] in
theorem lastTime_concat (kind : Transition α → Bool) (began : α) (ts : List (Transition α))
    (t : Transition α) :
    lastTime kind began (ts ++ [t]) = if kind t then t.time else lastTime kind began ts := by
  unfold lastTime
  cases h : kind t <;> simp [h]

namespace Flow

/-! ## Stages -/

/-- No timer goes off between two flows. -/
structure Rests (f g : Flow α) : Prop where
  config : g.config = f.config
  lastRateUpdate : g.lastRateUpdate = f.lastRateUpdate
  lastHistoryUpdate : g.lastHistoryUpdate = f.lastHistoryUpdate
  lastTimeoutTime : g.beliefs.lastTimeoutTime = f.beliefs.lastTimeoutTime
  recomputes : g.tally.recomputes = f.tally.recomputes
  repairs : g.tally.repairs = f.tally.repairs

omit [Scalar α] in
theorem rests_noteAnomaly (f : Flow α) (a : Anomaly) : f.Rests (f.noteAnomaly a).1 := by
  cases a <;> exact ⟨rfl, rfl, rfl, rfl, rfl, rfl⟩

theorem rests_recordSent (f : Flow α) (seq : Nat) : f.Rests (f.recordSent seq).1 := by
  unfold recordSent
  split
  · exact ⟨rfl, rfl, rfl, rfl, rfl, rfl⟩
  · exact f.rests_noteAnomaly _

theorem rests_accepted {f g : Flow α} {n : Nat} {s : Segment α} (h : f.accepted? n = some (g, s)) :
    f.Rests g ∧ g.now = f.now ∧ g.history = f.history := by
  obtain ⟨seq, s₀, -, hacc⟩ := accepts_of_accepted h
  obtain ⟨ledger, counters, beliefs, tally, hg⟩ := accepted_frame h
  refine ⟨⟨hacc.config, by rw [hg], by rw [hg], ?_, hacc.recomputes, hacc.repairs⟩, hacc.now, hacc.history⟩
  rw [hacc.beliefs]
  rfl

section recompute

variable (f : Flow α)

@[simp] theorem lastHistoryUpdate_recompute : f.recompute.1.lastHistoryUpdate = f.lastHistoryUpdate := by
  unfold recompute; split <;> rfl

@[simp] theorem now_recompute : f.recompute.1.now = f.now := by
  unfold recompute; split <;> rfl

theorem lastRateUpdate_recompute :
    f.recompute.1.lastRateUpdate = if f.rateDue then f.now else f.lastRateUpdate := by
  unfold recompute; split <;> rfl

theorem recomputes_recompute :
    f.recompute.1.tally.recomputes = f.tally.recomputes + if f.rateDue then 1 else 0 := by
  unfold recompute; split <;> rfl

end recompute

theorem lastTimeoutTime_merged (g : Flow α) (s : Segment α) :
    (g.merged s).beliefs.lastTimeoutTime = g.beliefs.lastTimeoutTime := by
  unfold merged Beliefs.learnBounds
  dsimp only
  split <;> rfl

theorem lastTimeoutTime_repairBounds (g : Flow α) :
    g.repairBounds.beliefs.lastTimeoutTime =
      if g.repair?.isSome then g.now else g.beliefs.lastTimeoutTime := by
  rw [beliefs_repairBounds_eq]
  cases g.repair? <;> rfl

theorem repair?_isSome (g : Flow α) :
    g.repair?.isSome = true ↔ 1 < g.history.size ∧ g.beliefs.repairDue g.config g.now = true := by
  unfold repair? Beliefs.repair
  by_cases hsize : g.history.size ≤ 1
  · simp [hsize]
  · cases hdue : g.beliefs.repairDue g.config g.now <;> simp [hsize, Nat.lt_of_not_le hsize]

theorem timers_takeSample (g : Flow α) (s : Segment α) :
    (g.takeSample s).lastHistoryUpdate = g.now ∧
      (g.takeSample s).tally.repairs = g.tally.repairs + (if (g.merged s).repair?.isSome then 1 else 0) ∧
      (g.takeSample s).beliefs.lastTimeoutTime =
        if (g.merged s).repair?.isSome then g.now else g.beliefs.lastTimeoutTime := by
  refine ⟨?_, ?_, ?_⟩
  · obtain ⟨b, n, h⟩ := (g.merged s).repairBounds_frame
    rw [takeSample, measured, h]
    rfl
  · exact repairs_repairBounds (g.merged s)
  · obtain ⟨rate, h⟩ := g.beliefs_takeSample s
    rw [h, ← lastTimeoutTime_merged g s]
    exact lastTimeoutTime_repairBounds (g.merged s)

/-! ## Events -/

variable {t : Transition α}

theorem rests_of_not_paces (hi : t.event.isInit = false) (hp : t.paces = false) : t.before.Rests t.after := by
  obtain ⟨f, e⟩ := t
  cases e with
  | init => cases hi
  | sent seq => cases hp
  | ack n r r' =>
      obtain ⟨-, a, ha⟩ | ⟨_, _, _, _, _, -, -, -, hseg⟩ := f.ack_cases n
      · simp only [Transition.after, step, ha]
        exact f.rests_noteAnomaly a
      · simp [Transition.paces, Transition.resolved?, hseg] at hp
  | minRtt rtt =>
      simp only [Transition.after, step, setMinRtt]
      split <;> exact ⟨rfl, rfl, rfl, rfl, rfl, rfl⟩
  | _ => exact ⟨rfl, rfl, rfl, rfl, rfl, rfl⟩

theorem paces_eq (t : Transition α) : t.paces = t.paced?.isSome := by
  obtain ⟨f, e⟩ := t
  cases e with
  | ack n r r' =>
      simp only [Transition.paces, Transition.resolved?, Transition.paced?, segment?_ack, Option.isSome_map]
  | _ => rfl

/-- An event that can recompute does so at its end. -/
theorem after_of_paces (hp : t.paces = true) :
    ∃ g : Flow α, t.after = g.recompute.1 ∧ g.config = t.before.config ∧ g.now = t.time ∧
      g.lastRateUpdate = t.before.lastRateUpdate ∧ g.tally.recomputes = t.before.tally.recomputes := by
  rw [paces_eq] at hp
  obtain ⟨g, hg⟩ := Option.isSome_iff_exists.mp hp
  obtain ⟨hafter, hcount, _, _, _, _, _, _, hframe⟩ := paced_frame hg
  exact ⟨g, hafter, by rw [hframe], by rw [hframe]; rfl, by rw [hframe], hcount⟩

/-- A flow recomputes where an event can make it to and no less than a period has passed. -/
theorem recomputed_iff (hi : t.event.isInit = false) :
    t.recomputed = true ↔ t.paces = true ∧ ¬ (t.time - t.before.lastRateUpdate <
      t.before.config.interRateUpdateTime * t.after.beliefs.rtprop) := by
  cases hp : t.paces with
  | false =>
      have hrests := rests_of_not_paces hi hp
      simp [Transition.recomputed, hrests.recomputes]
  | true =>
      obtain ⟨g, hafter, hconfig, hnow, hrate, hcount⟩ := after_of_paces hp
      have hdue : g.rateDue = true ↔ ¬ (t.time - t.before.lastRateUpdate <
          t.before.config.interRateUpdateTime * t.after.beliefs.rtprop) := by
        rw [rateDue, hafter, beliefs_recompute, hnow, hrate, hconfig]
        simp
      rw [← hdue, Transition.recomputed, hafter, recomputes_recompute, ← hcount]
      cases g.rateDue <;> simp

theorem lastRateUpdate_after (hi : t.event.isInit = false) :
    t.after.lastRateUpdate = if t.recomputed then t.time else t.before.lastRateUpdate := by
  cases hp : t.paces with
  | false =>
      have hrests := rests_of_not_paces hi hp
      rw [hrests.lastRateUpdate, Transition.recomputed, hrests.recomputes]
      simp
  | true =>
      obtain ⟨g, hafter, hconfig, hnow, hrate, hcount⟩ := after_of_paces hp
      rw [Transition.recomputed, hafter, recomputes_recompute, lastRateUpdate_recompute, ← hcount, hnow, hrate]
      cases g.rateDue <;> simp

theorem rests_of_not_sampled (hi : t.event.isInit = false) (hs : t.sampled? = none) :
    t.after.lastHistoryUpdate = t.before.lastHistoryUpdate ∧
      t.after.beliefs.lastTimeoutTime = t.before.beliefs.lastTimeoutTime ∧
      t.after.tally.repairs = t.before.tally.repairs := by
  obtain ⟨f, e⟩ := t
  cases e with
  | sent seq =>
      have hrests := f.rests_recordSent seq
      simp only [Transition.after, step, sent, lastHistoryUpdate_recompute, beliefs_recompute, repairs_recompute]
      exact ⟨hrests.lastHistoryUpdate, hrests.lastTimeoutTime, hrests.repairs⟩
  | ack n r r' =>
      obtain ⟨-, a, ha⟩ | ⟨_, _, g, s, _, hn, -, hflow, -⟩ := f.ack_cases n
      · have hrests := rests_of_not_paces (t := ⟨f, .ack n r r'⟩) hi (by
          simp [Transition.paces, Transition.resolved?, ha, refuseAck])
        exact ⟨hrests.lastHistoryUpdate, hrests.lastTimeoutTime, hrests.repairs⟩
      · obtain ⟨hrests, -⟩ := rests_accepted hn
        have hopen : g.sampleOpen = true := by simpa [Transition.sampled?, hn] using hs
        simp only [Transition.after, step, hflow, lastHistoryUpdate_recompute, beliefs_recompute,
          repairs_recompute, updateHistory, hopen, if_true]
        exact ⟨hrests.lastHistoryUpdate, hrests.lastTimeoutTime, hrests.repairs⟩
  | _ =>
      have hrests := rests_of_not_paces hi rfl
      exact ⟨hrests.lastHistoryUpdate, hrests.lastTimeoutTime, hrests.repairs⟩

theorem timers_of_sampled {g : Flow α} {s : Segment α} (hs : t.sampled? = some (g, s)) :
    t.before.Rests g ∧ g.now = t.time ∧ t.after.lastHistoryUpdate = t.time ∧
      t.after.tally.repairs = t.before.tally.repairs + (if t.repair?.isSome then 1 else 0) ∧
      t.after.beliefs.lastTimeoutTime =
        if t.repair?.isSome then t.time else t.before.beliefs.lastTimeoutTime := by
  have hrepair : t.repair? = (g.merged s).repair? := by rw [Transition.repair?, hs]; rfl
  obtain ⟨f, e⟩ := t
  obtain ⟨n, r, r', he, ha, hopen⟩ := sampled?_eq_some hs
  obtain rfl : e = .ack n r r' := he
  obtain ⟨hrests, hnow, -⟩ := rests_accepted ha
  obtain ⟨hhistory, hrepairs, htimeout⟩ := g.timers_takeSample s
  have hafter : (Transition.after ⟨f, .ack n r r'⟩) = (g.takeSample s).recompute.1 := by
    rw [Transition.after, step, (ack_of_accepted ha).1, updateHistory, hopen]
    rfl
  rw [hafter, hrepair, lastHistoryUpdate_recompute, repairs_recompute, beliefs_recompute, hhistory, hrepairs,
    htimeout, hrests.repairs, hrests.lastTimeoutTime, hnow]
  exact ⟨hrests, rfl, rfl, rfl, rfl⟩

theorem tstamp_newSample {g : Flow α} {s : Segment α} (hs : t.sampled? = some (g, s)) :
    (g.newSample s).tstamp = t.time := (timers_of_sampled hs).2.1

theorem rtprop_of_accepted {f g : Flow α} {n : Nat} {s : Segment α} (h : f.accepted? n = some (g, s))
    (r r' : α) : (Transition.after ⟨f, .ack n r r'⟩).beliefs.rtprop = g.beliefs.rtprop := by
  simp [Transition.after, step, (ack_of_accepted h).1, Beliefs.rtprop]

/-- An ack that is not refused takes a sample where there is none or no less than a period has passed. -/
theorem sampled_iff : t.sampled?.isSome = true ↔ t.resolved?.isSome = true ∧
    (t.before.history.back? = none ∨ ¬ (t.time - t.before.lastHistoryUpdate <
      t.before.config.interHistoryTime * t.after.beliefs.rtprop)) := by
  obtain ⟨f, e⟩ := t
  cases e with
  | ack n r r' =>
      obtain ⟨hn, a, ha⟩ | ⟨_, _, g, s, _, hn, hacc, hflow, hseg⟩ := f.ack_cases n
      · simp [Transition.sampled?, Transition.resolved?, hn, ha, refuseAck]
      · obtain ⟨hrests, hnow, hhistory⟩ := rests_accepted hn
        have hclosed : g.sampleOpen = false ↔ f.history.back? = none ∨ ¬ (f.now - f.lastHistoryUpdate <
            f.config.interHistoryTime * g.beliefs.rtprop) := by
          rw [sampleOpen, hhistory, hnow, hrests.lastHistoryUpdate, hrests.config, ← Ring.isEmpty_eq_true]
          cases f.history.isEmpty <;> simp
        simp only [Transition.sampled?, Transition.resolved?, Transition.time, hn, hseg, rtprop_of_accepted hn,
          Option.isSome_some, true_and, Option.filter_some, ← hclosed]
        cases g.sampleOpen <;> simp
  | _ => simp [Transition.sampled?, Transition.resolved?]

theorem lastHistoryUpdate_after (hi : t.event.isInit = false) :
    t.after.lastHistoryUpdate = if t.sampled?.isSome then t.time else t.before.lastHistoryUpdate := by
  cases hs : t.sampled? with
  | none => exact (rests_of_not_sampled hi hs).1
  | some q => exact (timers_of_sampled hs).2.2.1

theorem repaired_eq (hi : t.event.isInit = false) : t.repaired = t.repair?.isSome := by
  cases hs : t.sampled? with
  | none => simp [Transition.repaired, Transition.repair?, hs, (rests_of_not_sampled hi hs).2.2]
  | some q =>
      rw [Transition.repaired, (timers_of_sampled hs).2.2.2.1]
      cases t.repair?.isSome <;> simp

theorem lastTimeoutTime_after (hi : t.event.isInit = false) :
    t.after.beliefs.lastTimeoutTime =
      if t.repaired then t.time else t.before.beliefs.lastTimeoutTime := by
  rw [repaired_eq hi]
  cases hs : t.sampled? with
  | none => simp [Transition.repair?, hs, (rests_of_not_sampled hi hs).2.1]
  | some q => exact (timers_of_sampled hs).2.2.2.2

/-- The bounds are repaired where a sample makes two of them and more than a period has passed. -/
theorem repaired_iff (hi : t.event.isInit = false) : t.repaired = true ↔
    t.sampled?.isSome = true ∧ 1 < t.after.history.size ∧ ¬ (t.time - t.before.beliefs.lastTimeoutTime ≤
      t.after.beliefs.rtprop * t.before.config.beliefsTimeoutPeriod) := by
  rw [repaired_eq hi]
  cases hs : t.sampled? with
  | none => simp [Transition.repair?, hs]
  | some q =>
      obtain ⟨g, s⟩ := q
      obtain ⟨hrests, hnow, -⟩ := timers_of_sampled hs
      have hsize : (g.merged s).history.size = t.after.history.size := by
        rw [(after_of_sampled hs).1]
        obtain ⟨b, n, -, hmeasured⟩ := g.measured_eq s
        rw [hmeasured]
        exact (Beliefs.sameSamples_learnThroughput ..).size
      have hrtprop : (g.merged s).beliefs.rtprop = t.after.beliefs.rtprop := by
        obtain ⟨f, e⟩ := t
        obtain ⟨n, r, r', he, ha, -⟩ := sampled?_eq_some hs
        obtain rfl : e = .ack n r r' := he
        rw [rtprop_of_accepted ha, Beliefs.rtprop, minRtt_merged]
        rfl
      rw [Transition.repair?, hs]
      change (g.merged s).repair?.isSome = true ↔ _
      rw [repair?_isSome, hsize, Beliefs.repairDue, lastTimeoutTime_merged, hrtprop]
      change _ ∧ (!decide (g.now - _ ≤ _ * g.config.beliefsTimeoutPeriod)) = true ↔ _
      rw [hrests.lastTimeoutTime, hrests.config, hnow]
      simp

theorem now_after (hi : t.event.isInit = false) (hnow : isFinite t.before.now = true)
    (he : t.event.finiteClock = true) : isFinite t.after.now = true := by
  cases hp : t.paces with
  | true =>
      obtain ⟨g, hafter, -, hg, -⟩ := after_of_paces hp
      rw [hafter, now_recompute, hg]
      exact hnow
  | false =>
      obtain ⟨f, e⟩ := t
      cases e with
      | clock now => exact he
      | init => cases hi
      | sent seq => cases hp
      | ack n r r' =>
          obtain ⟨-, a, ha⟩ | ⟨_, _, _, _, _, -, -, -, hseg⟩ := f.ack_cases n
          · simp only [Transition.after, step, ha]
            exact hnow
          · simp [Transition.paces, Transition.resolved?, hseg] at hp
      | minRtt rtt =>
          simp only [Transition.after, step, setMinRtt]
          split <;> exact hnow
      | _ => exact hnow

/-! ## Runs -/

/-- The timers hold finite times, and the one of the history that of its newest sample. -/
structure Clocked (f : Flow α) : Prop where
  now : isFinite f.now = true
  lastRateUpdate : isFinite f.lastRateUpdate = true
  lastHistoryUpdate : isFinite f.lastHistoryUpdate = true
  lastTimeoutTime : isFinite f.beliefs.lastTimeoutTime = true
  newest : ∀ x, f.history.back? = some x → x.tstamp = f.lastHistoryUpdate

namespace Clocked

theorem reset {f : Flow α} (h : isFinite f.now = true) : f.reset.Clocked where
  now := h
  lastRateUpdate := h
  lastHistoryUpdate := h
  lastTimeoutTime := h
  newest := by
    intro x hx
    rw [Ring.back?_eq_below?, below?_reset] at hx
    cases hx

theorem after (h : t.before.Clocked) (hi : t.event.isInit = false) (he : t.event.finiteClock = true) :
    t.after.Clocked where
  now := now_after hi h.now he
  lastRateUpdate := by
    rw [lastRateUpdate_after hi]
    split
    · exact h.now
    · exact h.lastRateUpdate
  lastHistoryUpdate := by
    rw [lastHistoryUpdate_after hi]
    split
    · exact h.now
    · exact h.lastHistoryUpdate
  lastTimeoutTime := by
    rw [lastTimeoutTime_after hi]
    split
    · exact h.now
    · exact h.lastTimeoutTime
  newest := by
    intro x hx
    rw [Ring.back?_eq_below?] at hx
    rw [lastHistoryUpdate_after hi]
    cases hs : t.sampled? with
    | none =>
        obtain ⟨y, hy, hlater⟩ := (below?_after hi).1 hs hx
        rw [hlater.tstamp]
        exact h.newest y (by rwa [Ring.back?_eq_below?])
    | some q =>
        obtain ⟨g, s⟩ := q
        cases (newest_eq hs).symm.trans hx
        exact tstamp_newSample hs

end Clocked

section periods

variable [DifferenceScalar α] {c : Config α} {p : α}

theorem zero_lt_mul_rtprop (hc : c.fault? = none) (hp : p ∈ c.periods) (b : Beliefs α) :
    zero < p * b.rtprop := by
  have hpos := Config.zero_lt_period hc hp
  have hnum := number_right (MonotoneScalar.mul_nonneg (Config.isFinite_period hc hp) hpos
    (Scalar.le_of_lt b.zero_lt_rtprop))
  exact lt_of_lt_of_le hpos (LawfulScalar.le_mul (Scalar.le_of_lt hpos) b.minRtprop_le_rtprop hnum)

theorem not_lt_period_iff (hc : c.fault? = none) (hp : p ∈ c.periods) (b : Beliefs α) {now last : α}
    (hnow : isFinite now = true) (hlast : isFinite last = true) :
    ¬ now - last < p * b.rtprop ↔ p * b.rtprop ≤ now - last :=
  not_lt_iff (DifferenceScalar.number_sub hnow (LawfulScalar.number_of_isFinite hlast))
    (number_right (Scalar.le_of_lt (zero_lt_mul_rtprop hc hp b)))

theorem lt_of_period_le (hc : c.fault? = none) (hp : p ∈ c.periods) (b : Beliefs α) {now last : α}
    (hnow : isFinite now = true) (hlast : isFinite last = true) (h : p * b.rtprop ≤ now - last) : last < now :=
  (DifferenceScalar.zero_lt_sub hnow hlast).mp (lt_of_lt_of_le (zero_lt_mul_rtprop hc hp b) h)

namespace Clocked

variable (h : t.before.Clocked) (hc : c.fault? = none) (hconfig : t.before.config = c)

include h hc hconfig

theorem recomputed_iff (hi : t.event.isInit = false) : t.recomputed = true ↔ t.paces = true ∧
    c.interRateUpdateTime * t.after.beliefs.rtprop ≤ t.time - t.before.lastRateUpdate := by
  rw [Flow.recomputed_iff hi, hconfig]
  exact and_congr_right fun _ =>
    not_lt_period_iff hc c.interRateUpdateTime_mem_periods _ h.now h.lastRateUpdate

theorem lt_time_of_recomputed (hi : t.event.isInit = false) (hr : t.recomputed = true) :
    t.before.lastRateUpdate < t.time :=
  lt_of_period_le hc c.interRateUpdateTime_mem_periods _ h.now h.lastRateUpdate
    ((h.recomputed_iff hc hconfig hi).mp hr).2

theorem sampled_iff : t.sampled?.isSome = true ↔ t.resolved?.isSome = true ∧
    (t.before.history.back? = none ∨
      c.interHistoryTime * t.after.beliefs.rtprop ≤ t.time - t.before.lastHistoryUpdate) := by
  rw [Flow.sampled_iff, hconfig]
  exact and_congr_right fun _ => or_congr_right
    (not_lt_period_iff hc c.interHistoryTime_mem_periods _ h.now h.lastHistoryUpdate)

/-- A sample is taken later than all that it joins. -/
theorem lt_time_of_sampled (hs : t.sampled?.isSome = true) {depth : Nat} {st : Sample α}
    (hst : t.before.history.below? depth = some st) : t.before.lastHistoryUpdate < t.time :=
  lt_of_period_le hc c.interHistoryTime_mem_periods _ h.now h.lastHistoryUpdate
    (((h.sampled_iff hc hconfig).mp hs).2.resolve_left (Ring.back?_ne_none hst))

theorem repaired_iff (hi : t.event.isInit = false) : t.repaired = true ↔
    t.sampled?.isSome = true ∧ 1 < t.after.history.size ∧
      t.after.beliefs.rtprop * c.beliefsTimeoutPeriod < t.time - t.before.beliefs.lastTimeoutTime := by
  have hnum := DifferenceScalar.number_sub h.now (LawfulScalar.number_of_isFinite h.lastTimeoutTime)
  have hperiod := number_right (DifferenceScalar.mul_nonneg_of_pos t.after.beliefs.zero_lt_rtprop
    (Config.zero_lt_period hc c.beliefsTimeoutPeriod_mem_periods))
  rw [Flow.repaired_iff hi, hconfig]
  exact and_congr_right fun _ => and_congr_right fun _ => not_le_iff hnum hperiod

end Clocked

end periods

/-- The times of the recomputes among some transitions, in order. -/
def recomputeTimes (ts : List (Transition α)) : List α :=
  (ts.filter Transition.recomputed).map Transition.time

theorem recomputeTimes_concat (ts : List (Transition α)) (t : Transition α) :
    recomputeTimes (ts ++ [t]) = if t.recomputed then recomputeTimes ts ++ [t.time] else recomputeTimes ts := by
  unfold recomputeTimes
  cases h : t.recomputed <;> simp [h]

/-- The timers of an epoch stand where they last went off, and the recomputes come one after the other. -/
structure Timed (began : α) (ts : List (Transition α)) (f : Flow α) : Prop where
  clocked : f.Clocked
  rate : f.lastRateUpdate = lastTime Transition.recomputed began ts
  repair : f.beliefs.lastTimeoutTime = lastTime Transition.repaired began ts
  latest : ∀ u ∈ began :: recomputeTimes ts, u ≤ f.lastRateUpdate
  increasing : (began :: recomputeTimes ts).Pairwise (· < ·)

/-- An ack that is not refused finds no sample, or a newest one that was taken no less than a period ago. -/
def TakesSample (c : Config α) (t : Transition α) : Prop :=
  t.resolved?.isSome = true ∧ ∀ x, t.before.history.back? = some x →
    c.interHistoryTime * t.after.beliefs.rtprop ≤ t.time - x.tstamp

/-- What the timers do at an event, given when the epoch began and what came in it before. -/
structure Periodic (c : Config α) (began : α) (ts : List (Transition α)) (t : Transition α) : Prop where
  recompute : t.recomputed = true ↔ t.paces = true ∧
    c.interRateUpdateTime * t.after.beliefs.rtprop ≤ t.time - lastTime Transition.recomputed began ts
  push : TakesSample c t →
    ∃ x, x.tstamp = t.time ∧ SameSamples (t.before.history.push x).1 t.after.history
  keep : ¬ TakesSample c t → t.after.history = t.before.history ∨
    (∃ s, t.resolved? = some s ∧ t.after.history = t.before.history.modifyBack (·.extend s.rtt)) ∨
    t.event.isInit = true ∧ t.after.history.toList = []
  repair : t.repaired = true ↔ TakesSample c t ∧ 1 < t.after.history.size ∧
    t.after.beliefs.rtprop * c.beliefsTimeoutPeriod < t.time - lastTime Transition.repaired began ts
  increasing : (began :: recomputeTimes ts).Pairwise (· < ·)

namespace Timed

variable [DifferenceScalar α] {c : Config α} {began : α} {ts : List (Transition α)}

theorem reset {f : Flow α} (h : isFinite f.now = true) : Timed f.now [] f.reset where
  clocked := .reset h
  rate := rfl
  repair := rfl
  latest := by
    intro u hu
    cases List.mem_singleton.mp hu
    exact le_refl (LawfulScalar.number_of_isFinite h)
  increasing := List.pairwise_singleton ..

theorem after (hc : c.fault? = none) (hconfig : t.before.config = c) (h : Timed began ts t.before)
    (hi : t.event.isInit = false) (he : t.event.finiteClock = true) : Timed began (ts ++ [t]) t.after where
  clocked := h.clocked.after hi he
  rate := by rw [lastRateUpdate_after hi, lastTime_concat, h.rate]
  repair := by rw [lastTimeoutTime_after hi, lastTime_concat, h.repair]
  latest := by
    rw [lastRateUpdate_after hi, recomputeTimes_concat]
    cases hr : t.recomputed with
    | false => exact h.latest
    | true =>
        intro u hu
        rw [if_pos rfl, ← List.cons_append, List.mem_append, List.mem_singleton] at hu
        rcases hu with hu | rfl
        · exact Scalar.le_trans (h.latest u hu)
            (Scalar.le_of_lt (h.clocked.lt_time_of_recomputed hc hconfig hi hr))
        · exact le_refl (LawfulScalar.number_of_isFinite h.clocked.now)
  increasing := by
    rw [recomputeTimes_concat]
    cases hr : t.recomputed with
    | false => exact h.increasing
    | true =>
        rw [if_pos rfl, ← List.cons_append]
        refine List.pairwise_append.mpr ⟨h.increasing, List.pairwise_singleton .., fun u hu v hv => ?_⟩
        cases List.mem_singleton.mp hv
        exact Scalar.lt_of_le_of_lt (h.latest u hu) (h.clocked.lt_time_of_recomputed hc hconfig hi hr)

theorem afterRun (hc : c.fault? = none) (events : List (Event α))
    (hfin : ∀ e ∈ events, e.finiteClock = true) :
    Timed (Flow.began c events) (epoch c events) (Flow.afterRun c events) :=
  epoch_induction_of c (reset (LawfulScalar.isFinite_ofNat (by decide))) (fun _ _ _ _ h => reset h.clocked.now)
    (fun _ _ f e hconfig hi he h => after (t := ⟨f, e⟩) hc hconfig h hi he) events hfin

theorem sampled_iff_takesSample (hc : c.fault? = none) (hconfig : t.before.config = c)
    (h : Timed began ts t.before) : t.sampled?.isSome = true ↔ TakesSample c t := by
  rw [h.clocked.sampled_iff hc hconfig, TakesSample]
  refine and_congr_right fun _ => ?_
  cases hx : t.before.history.back? with
  | none => simp
  | some x => simp [h.clocked.newest x hx]

theorem periodic (hc : c.fault? = none) (hconfig : t.before.config = c) (h : Timed began ts t.before)
    (hi : t.event.isInit = false) : Periodic c began ts t where
  recompute := by
    rw [h.clocked.recomputed_iff hc hconfig hi, h.rate]
  push := by
    intro hs
    obtain ⟨⟨g, s⟩, hs⟩ := Option.isSome_iff_exists.mp ((h.sampled_iff_takesSample hc hconfig).mpr hs)
    obtain ⟨b, n, -, hmeasured⟩ := g.measured_eq s
    refine ⟨g.newSample s, tstamp_newSample hs, ?_⟩
    rw [(after_of_sampled hs).1, hmeasured, ← history_merged hs]
    exact Beliefs.sameSamples_learnThroughput ..
  keep := by
    intro hs
    rw [← h.sampled_iff_takesSample hc hconfig, Option.not_isSome_iff_eq_none] at hs
    rcases history_of_not_sampled hi hs with ⟨-, hsame⟩ | hextended
    · exact .inl hsame
    · exact .inr (.inl hextended)
  repair := by
    rw [h.clocked.repaired_iff hc hconfig hi, h.sampled_iff_takesSample hc hconfig, h.repair]
  increasing := h.increasing

omit [DifferenceScalar α] in
/-- The beginning of an epoch sets the timers, and none goes off. -/
theorem periodic_init (h : Timed began ts t.before) (hi : t.event.isInit = true) : Periodic c began ts t := by
  obtain ⟨f, e⟩ := t
  cases e <;> cases hi
  have hno : ¬ TakesSample c (⟨f, .init⟩ : Transition α) := fun hs => Bool.false_ne_true hs.1
  refine ⟨?_, fun hs => absurd hs hno, fun _ => .inr (.inr ⟨rfl, rfl⟩), ?_, h.increasing⟩
  · exact iff_of_false (fun hr => Nat.lt_irrefl _ (of_decide_eq_true hr)) fun hp => Bool.false_ne_true hp.1
  · exact iff_of_false (fun hr => Nat.lt_irrefl _ (of_decide_eq_true hr)) fun hs => hno hs.1

end Timed

/-- Under a configuration that passes its check and with a clock that may step back but stays finite, the three
timers of a flow keep their periods, at every event of every run. -/
theorem timers_periodic (c : Config Float) (hc : c.fault? = none) (events : List (Event Float))
    (e : Event Float) (hfin : ∀ e' ∈ events, e'.finiteClock = true) :
    Periodic c (began c events) (epoch c events) ⟨afterRun c events, e⟩ := by
  have h := Timed.afterRun hc events hfin
  cases hi : e.isInit with
  | true => exact h.periodic_init hi
  | false => exact h.periodic hc (config_afterRun c events) hi

/-- Two segments are acked after 20 and 300 ms, and the clock steps back between. The second ack makes all three
timers go off. -/
theorem timers_periodic_when_due :
    let c : Config Float := .standard
    let zero : Float := Scalar.zero
    let events : List (Event Float) :=
      [.sent 0, .sent 1, .clock (ofNat 20), .ack 1 zero zero, .clock (ofNat 10), .clock (ofNat 300)]
    let t : Transition Float := ⟨afterRun c events, .ack 2 zero zero⟩
    c.fault? = none ∧ (∀ e ∈ events, e.finiteClock = true) ∧ recomputeTimes (epoch c events) = [ofNat 20] ∧
      t.recomputed = true ∧ t.repaired = true ∧ t.after.history.size = 2 ∧
      Periodic c (began c events) (epoch c events) t := by
  intro c zero events t
  have hc : c.fault? = none := by decide +kernel
  have hfin : ∀ e ∈ events, e.finiteClock = true := by decide +kernel
  refine ⟨hc, hfin, ?_, ?_, ?_, ?_, timers_periodic c hc events _ hfin⟩ <;> decide +kernel

end Flow

end Pacing

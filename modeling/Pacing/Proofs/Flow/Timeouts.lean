import Pacing.Proofs.Flow.Outputs
import Pacing.Proofs.Flow.Overlay

/-!
# Answers to timeouts

A timeout is put on record and nothing else: until the next recompute the flow does what it would have done
without. That recompute answers all timeouts on record with one floor decision, from the beliefs as they are then,
and the phase machine does not take part in it.
-/

namespace Pacing

variable {α : Type}

def Event.isTimeout : Event α → Bool
  | .timeout => true
  | _ => false

theorem Event.isTimeout_eq_true {e : Event α} : e.isTimeout = true ↔ e = .timeout := by
  cases e <;> simp [isTimeout]

variable [Scalar α]

namespace Transition

/-- The flow that the event makes decide anew, if it does. -/
def deciding? (t : Transition α) : Option (Flow α) := t.paced?.filter Flow.rateDue

/-- The event makes the flow decide, and the decision is the one at the floor that answers timeouts. -/
def answersTimeouts (t : Transition α) : Bool := t.deciding?.any (·.pendingTimeout)

/-- Of some transitions, those after the last recompute. -/
def sinceRecompute (ts : List (Transition α)) : List (Transition α) := ts.rtakeWhile fun t => !t.recomputed

theorem sinceRecompute_concat (ts : List (Transition α)) (t : Transition α) :
    sinceRecompute (ts ++ [t]) = if t.recomputed then [] else sinceRecompute ts ++ [t] := by
  rw [sinceRecompute, List.rtakeWhile_concat]
  cases t.recomputed <;> rfl

end Transition

open Transition

namespace Flow

/-! ## Decisions -/

theorem recompute_of_not_due {g : Flow α} (h : g.rateDue = false) : g.recompute.1 = g := by
  rw [recompute, h]
  rfl

variable {t : Transition α} {g : Flow α}

theorem recomputed_eq (t : Transition α) : t.recomputed = t.deciding?.isSome := by
  rw [Transition.recomputed, deciding?]
  cases hp : t.paced? with
  | some g =>
      obtain ⟨hafter, hcount, -⟩ := paced_frame hp
      rw [hafter, ← hcount, recompute]
      cases hdue : g.rateDue <;> simp [redecide, hdue]
  | none =>
      rw [(outputs_of_not_paced hp).1]
      simp

theorem exists_deciding (hr : t.recomputed = true) : ∃ g, t.deciding? = some g := by
  rw [recomputed_eq] at hr
  exact Option.isSome_iff_exists.mp hr

/-- A recompute is a new decision, from the phase and the timeouts on record that the event found. -/
theorem after_of_deciding (h : t.deciding? = some g) :
    t.after = g.redecide ∧ g.config = t.before.config ∧ g.phases = t.before.phases ∧
      g.pendingTimeout = t.before.pendingTimeout := by
  obtain ⟨hp, hdue⟩ := Option.filter_eq_some_iff.mp h
  obtain ⟨hafter, -, _, _, _, _, _, _, hframe⟩ := paced_frame hp
  refine ⟨?_, ?_, ?_, ?_⟩
  · rw [hafter, recompute, if_pos hdue]
  all_goals rw [hframe]

theorem answersTimeouts_eq (hr : t.recomputed = true) : t.answersTimeouts = t.before.pendingTimeout := by
  obtain ⟨g, hg⟩ := exists_deciding hr
  rw [answersTimeouts, hg, Option.any_some, (after_of_deciding hg).2.2.2]

theorem pendingTimeout_of_recomputed (hr : t.recomputed = true) : t.after.pendingTimeout = false := by
  obtain ⟨g, hg⟩ := exists_deciding hr
  rw [(after_of_deciding hg).1]
  rfl

theorem decided_at_floor (h : t.answersTimeouts = true) :
    t.after.decision = PhaseMachine.floor t.after.beliefs t.before.config ∧ t.after.phases = t.before.phases := by
  cases hg : t.deciding? with
  | none => simp [answersTimeouts, hg] at h
  | some g =>
      obtain ⟨hafter, hconfig, hphases, -⟩ := after_of_deciding hg
      have hpending : g.pendingTimeout = true := by rwa [answersTimeouts, hg, Option.any_some] at h
      rw [hafter, redecide, hpending, ← hphases, ← hconfig]
      exact ⟨rfl, rfl⟩

theorem decided_by_law (hr : t.recomputed = true) (h : t.answersTimeouts = false) :
    (t.after.phases, t.after.decision) = t.before.phases.decision t.after.beliefs t.before.config := by
  obtain ⟨g, hg⟩ := exists_deciding hr
  obtain ⟨hafter, hconfig, hphases, -⟩ := after_of_deciding hg
  have hpending : g.pendingTimeout = false := by rwa [answersTimeouts, hg, Option.any_some] at h
  rw [hafter, redecide, hpending, ← hphases, ← hconfig]
  rfl

/-! ## The record of timeouts -/

theorem pendingTimeout_of_not_recomputed (hi : t.event.isInit = false) (hr : t.recomputed = false) :
    t.after.pendingTimeout = (t.before.pendingTimeout || t.event.isTimeout) := by
  cases hp : t.paced? with
  | some g =>
      obtain ⟨hafter, -, _, _, _, _, _, _, hframe⟩ := paced_frame hp
      have hdue : g.rateDue = false := by simpa [recomputed_eq, deciding?, hp] using hr
      have hother : t.event.isTimeout = false := by
        obtain ⟨f, e⟩ := t
        cases e <;> first | rfl | cases hp
      rw [hafter, recompute_of_not_due hdue, hother, Bool.or_false, hframe]
  | none =>
      obtain ⟨f, e⟩ := t
      cases e with
      | init => cases hi
      | sent seq => cases hp
      | ack n r r' =>
          obtain ⟨-, a, ha⟩ | ⟨_, _, _, _, _, ha, -⟩ := f.ack_cases n
          · simp [Transition.after, step, ha, refuseAck, noteAnomaly, Event.isTimeout]
          · simp [paced?, ha] at hp
      | minRtt rtt =>
          simp only [Transition.after, step, setMinRtt, Event.isTimeout, Bool.or_false]
          split <;> rfl
      | timeout => simp [Transition.after, step, timeout, Event.isTimeout]
      | _ => simp [Transition.after, step, setTime, measureLinkRate, enterSteadyState, close, Event.isTimeout]

/-- A timeout is on record if one came since the last recompute and since the epoch began. -/
theorem pendingTimeout_afterRun (c : Config α) (events : List (Event α)) :
    (afterRun c events).pendingTimeout = (sinceRecompute (epoch c events)).any fun t => t.event.isTimeout := by
  refine epoch_induction (P := fun ts f => f.pendingTimeout = (sinceRecompute ts).any fun t => t.event.isTimeout)
    c rfl (fun _ _ _ => rfl) ?_ events
  intro ts f e _ hi h
  rw [sinceRecompute_concat]
  cases hr : (⟨f, e⟩ : Transition α).recomputed with
  | true => exact pendingTimeout_of_recomputed hr
  | false =>
      have hafter := pendingTimeout_of_not_recomputed hi hr
      rw [Transition.after, h] at hafter
      rw [hafter, if_neg Bool.false_ne_true, List.any_append, List.any_cons, List.any_nil, Bool.or_false]

theorem not_pendingTimeout_run {f : Flow α} (h : f.pendingTimeout = false) {events : List (Event α)}
    (hnone : Event.timeout ∉ events) : (f.run events).1.pendingTimeout = false := by
  induction events generalizing f with
  | nil => exact h
  | cons e events ih =>
      obtain ⟨hne, hnone⟩ := not_or.mp (mt List.mem_cons.mpr hnone)
      refine ih (f := (f.step e).1) ?_ hnone
      cases hr : (⟨f, e⟩ : Transition α).recomputed with
      | true => exact pendingTimeout_of_recomputed hr
      | false =>
          cases hi : e.isInit with
          | true => cases e <;> first | rfl | cases hi
          | false =>
              have hafter := pendingTimeout_of_not_recomputed hi hr
              have hother : e.isTimeout = false := Bool.eq_false_iff.mpr (hne ∘ Eq.symm ∘ Event.isTimeout_eq_true.mp)
              rw [Transition.after, h, hother] at hafter
              exact hafter

/-! ## Flows with one timeout more -/

def timedOut : Overlay α where
  tally := (·.count .timeout)
  linkRate := id
  history := id
  tally_count := fun _ a => by cases a <;> rfl
  tally_recompute := fun _ => rfl
  tally_repair := fun _ => rfl

/-- The flow with one timeout more in its count, and on record if `late`. -/
def withTimeout (f : Flow α) (late : Bool) : Flow α := f.recast timedOut (· || late)

section withTimeout

variable (f : Flow α) (late : Bool)

theorem paced?_withTimeout (e : Event α) :
    (⟨f.withTimeout late, e⟩ : Transition α).paced? =
      (⟨f, e⟩ : Transition α).paced?.map (·.withTimeout late) := by
  cases e with
  | sent seq => exact congrArg some (f.recordSent_recast timedOut _ seq)
  | ack n r r' =>
      simp only [paced?, withTimeout, accepted?_recast, Option.map_map]
      congr 1
      funext q
      exact q.1.updateHistory_recast _ rfl q.2
  | _ => rfl

theorem recomputed_withTimeout (e : Event α) :
    (⟨f.withTimeout late, e⟩ : Transition α).recomputed = (⟨f, e⟩ : Transition α).recomputed := by
  rw [recomputed_eq, recomputed_eq, deciding?, deciding?, paced?_withTimeout]
  cases (⟨f, e⟩ : Transition α).paced? with
  | none => rfl
  | some g =>
      have hdue : (g.withTimeout late).rateDue = g.rateDue := rfl
      simp [hdue]

theorem step_withTimeout {e : Event α} (hr : (⟨f, e⟩ : Transition α).recomputed = false) :
    ((f.withTimeout late).step e).1 = (f.step e).1.withTimeout (late && !e.isInit) := by
  cases hp : (⟨f, e⟩ : Transition α).paced? with
  | some g =>
      have hi : e.isInit = false := by cases e <;> first | rfl | cases hp
      have hp' : (⟨f.withTimeout late, e⟩ : Transition α).paced? = some (g.withTimeout late) := by
        rw [paced?_withTimeout, hp, Option.map_some]
      have hdue : g.rateDue = false := by simpa [recomputed_eq, deciding?, hp] using hr
      -- No decision is made, so nothing has read the record.
      have hafter := (paced_frame hp).1
      have hafter' := (paced_frame hp').1
      rw [Transition.after, recompute_of_not_due hdue] at hafter
      rw [Transition.after, recompute_of_not_due (g := g.withTimeout late) hdue] at hafter'
      rw [hafter, hafter', hi, Bool.not_false, Bool.and_true]
  | none =>
      cases e with
      | sent seq => cases hp
      | init => simp [step, init, withTimeout, recast, overlay, timedOut, reset, Event.isInit]
      | ack n r r' =>
          have hacc : f.accepted? n = none := by simpa [paced?] using hp
          have hack := f.ack_recast_of_refused timedOut (· || late) hacc
          simpa only [step, withTimeout, Event.isInit, Bool.not_false, Bool.and_true] using hack
      | minRtt rtt =>
          simp only [step, setMinRtt, Event.isInit, Bool.not_false, Bool.and_true]
          split <;> rfl
      | timeout => simp [step, timeout, withTimeout, recast, overlay, timedOut]
      | _ => simp [step, withTimeout, recast, overlay, timedOut, setTime, measureLinkRate, enterSteadyState, close,
          Event.isInit]

end withTimeout

/-- Until a recompute, a timeout more shows in the record and in the count. -/
theorem run_withTimeout {f : Flow α} {late : Bool} {events : List (Event α)}
    (h : ∀ t ∈ (f.withTimeout late).transitions events, t.recomputed = false) :
    ((f.withTimeout late).run events).1 =
      (f.run events).1.withTimeout (late && !events.any Event.isInit) := by
  induction events generalizing f late with
  | nil => simp [run]
  | cons e events ih =>
      obtain ⟨hr, h⟩ := List.forall_mem_cons.mp h
      -- Both runs recompute at the same events, so the hypothesis is about either.
      rw [recomputed_withTimeout] at hr
      change ∀ t ∈ ((f.withTimeout late).step e).1.transitions events, _ at h
      change (((f.withTimeout late).step e).1.run events).1 = _
      rw [step_withTimeout f late hr] at h ⊢
      rw [ih h, List.any_cons, Bool.not_or, Bool.and_assoc]
      rfl

/-! ## Main result -/

/-- A recompute answers the timeouts since the last one with one decision at the floor, which leaves the phase
machine as it is. With none to answer, the phase decides. -/
structure Answers (c : Config α) (ts : List (Transition α)) (t : Transition α) : Prop where
  floor_iff : t.answersTimeouts = true ↔ ∃ u ∈ sinceRecompute ts, u.event = .timeout
  at_floor : t.answersTimeouts = true → t.after.decision = PhaseMachine.floor t.after.beliefs c ∧
    t.after.decision.sendingRate = t.after.beliefs.minSendingRate c ∧ t.after.phases = t.before.phases
  by_law : t.answersTimeouts = false →
    (t.after.phases, t.after.decision) = t.before.phases.decision t.after.beliefs c
  cleared : t.after.pendingTimeout = false

theorem answers_afterRun (c : Config α) (events : List (Event α)) {e : Event α}
    (hr : (⟨afterRun c events, e⟩ : Transition α).recomputed = true) :
    Answers c (epoch c events) ⟨afterRun c events, e⟩ where
  floor_iff := by
    rw [answersTimeouts_eq hr, pendingTimeout_afterRun, List.any_eq_true]
    simp only [Event.isTimeout_eq_true]
  at_floor := by
    intro h
    obtain ⟨hdecision, hphases⟩ := decided_at_floor h
    rw [config_afterRun] at hdecision
    exact ⟨hdecision, by rw [hdecision]; rfl, hphases⟩
  by_law := by
    intro h
    have hdecision := decided_by_law hr h
    rwa [config_afterRun] at hdecision
  cleared := pendingTimeout_of_recomputed hr

/-- Every recompute answers the timeouts since the last one, and none that was answered before. Until a
recompute, a timeout shows in the record and in the count alone. -/
theorem timeouts_answered (c : Config α) (events : List (Event α)) :
    (∀ e, (⟨afterRun c events, e⟩ : Transition α).recomputed = true →
      Answers c (epoch c events) ⟨afterRun c events, e⟩ ∧
      ∀ more e', .timeout ∉ more →
        (⟨afterRun c (events ++ e :: more), e'⟩ : Transition α).answersTimeouts = false) ∧
    ∀ more, (∀ t ∈ (afterRun c (events ++ [.timeout])).transitions more, t.recomputed = false) →
      afterRun c (events ++ .timeout :: more) =
        let f := afterRun c (events ++ more)
        { f with
          pendingTimeout := f.pendingTimeout || !more.any Event.isInit
          tally := f.tally.count .timeout } := by
  constructor
  · intro e hr
    refine ⟨answers_afterRun c events hr, fun more e' hnone => ?_⟩
    have hclear : (afterRun c (events ++ [e])).pendingTimeout = false := by
      rw [afterRun_concat]
      exact pendingTimeout_of_recomputed hr
    have hlater : (afterRun c (events ++ e :: more)).pendingTimeout = false := by
      rw [List.append_cons, afterRun_append]
      exact not_pendingTimeout_run hclear hnone
    cases hr' : (⟨afterRun c (events ++ e :: more), e'⟩ : Transition α).recomputed with
    | true => rw [answersTimeouts_eq hr', hlater]
    | false =>
        rw [recomputed_eq, Option.isSome_eq_false_iff, Option.isNone_iff_eq_none] at hr'
        rw [answersTimeouts, hr', Option.any_none]
  · intro more hmore
    have htimeout : afterRun c (events ++ [.timeout]) = (afterRun c events).withTimeout true := by
      rw [afterRun_concat]
      simp only [step, timeout, withTimeout, recast, overlay, Bool.or_true]
      rfl
    rw [htimeout] at hmore
    rw [List.append_cons, afterRun_append, htimeout, run_withTimeout hmore, Bool.true_and,
      afterRun_append c events more]
    rfl

/-- A timeout in the middle of a probe is answered at the floor, and the probe goes on where it was. -/
theorem timeout_answered_in_probe :
    let c : Config Float := { Config.standard with law := .dutyCycled, measurementIntervalHistory := 3 }
    let events : List (Event Float) :=
      [.minRtt (.ofNat 100), .steadyState, .clock (.ofNat 500), .sent 0, .timeout, .clock (.ofNat 1000)]
    let t : Transition Float := ⟨afterRun c events, .sent 1⟩
    t.recomputed = true ∧ t.before.phases = ⟨.dutyCycled, .probe, 1⟩ ∧ t.after.phases = t.before.phases ∧
      Answers c (epoch c events) t := by
  intro c events t
  have hr : t.recomputed = true := by decide +kernel
  obtain ⟨hanswers, -⟩ := (timeouts_answered c events).1 (.sent 1) hr
  have htimeout : t.answersTimeouts = true := by decide +kernel
  exact ⟨hr, by decide +kernel, (hanswers.at_floor htimeout).2.2, hanswers⟩

end Flow

end Pacing

import Pacing.Proofs.Flow.Inert
import Pacing.Proofs.Flow.Timers
import Pacing.Proofs.Ledger.Provenance

/-!
# What the round-trip times depend on

Of all that a flow holds, its ledger and a few timers decide which round-trip times it takes in from an event, and
what an event makes of these depends on nothing else. So an event that leaves them alone may as well not have come,
even if it makes the flow recompute.
-/

namespace Pacing

variable {α : Type}

/-- The part of a flow that decides which round-trip times it takes in. -/
structure RttView (α : Type) where
  config : Config α
  now : α
  ledger : Ledger α
  delivered : Nat
  /-- No sample has been taken in the epoch. -/
  noSample : Bool
  lastHistoryUpdate : α
  bootstrapMinRtt : Option α
  minRtt : α

namespace Flow

def rttView (f : Flow α) : RttView α where
  config := f.config
  now := f.now
  ledger := f.ledger
  delivered := f.counters.delivered
  noSample := f.history.isEmpty
  lastHistoryUpdate := f.lastHistoryUpdate
  bootstrapMinRtt := f.bootstrapMinRtt
  minRtt := f.beliefs.minRtt

variable [Scalar α]

/-- The event is a send of an outstanding segment, or has no effect at all. -/
def ignoresRtt (f : Flow α) : Event α → Bool
  | .sent seq => (f.ledger.find? seq).isSome
  | e => f.inert e

variable {f g : Flow α}

@[simp] theorem rttView_recompute (f : Flow α) : f.recompute.1.rttView = f.rttView := by
  simp [rttView]

theorem rttView_of_refused {n : Nat} (h : (f.ack n).segment? = none) : (f.ack n).flow.rttView = f.rttView := by
  rcases ack_of_refusal h with hflow | hflow <;> rw [hflow] <;> rfl

/-! ## Samples -/

theorem isEmpty_history_updateHistory (f : Flow α) (s : Segment α) :
    (f.updateHistory s).history.isEmpty = false := by
  rw [← Bool.not_eq_true, Ring.isEmpty_eq_true, Ring.back?_eq_below?, updateHistory]
  cases hopen : f.sampleOpen with
  | true =>
      have hsome : f.history.below? 0 ≠ none := by
        rw [← Ring.back?_eq_below?, ne_eq, ← Ring.isEmpty_eq_true]
        simp only [sampleOpen, Bool.and_eq_true, Bool.not_eq_true'] at hopen
        simp [hopen.1]
      simpa [extendSample, Ring.below?_modifyBack] using hsome
  | false =>
      change ¬ (f.measured s).history.below? 0 = none
      rw [below?_measured]
      simp [merged]

@[simp] theorem now_updateHistory (f : Flow α) (s : Segment α) : (f.updateHistory s).now = f.now := by
  obtain ⟨_, _, _, _, _, _, h⟩ := f.updateHistory_frame s
  rw [h]

theorem lastHistoryUpdate_updateHistory (f : Flow α) (s : Segment α) :
    (f.updateHistory s).lastHistoryUpdate = if f.sampleOpen then f.lastHistoryUpdate else f.now := by
  rw [updateHistory]
  split
  · rfl
  · exact (f.timers_takeSample s).1

/-- What the history makes of an ack depends on the view alone. -/
theorem rttView_updateHistory (h : f.rttView = g.rttView) (s s' : Segment α) :
    (f.updateHistory s).rttView = (g.updateHistory s').rttView := by
  simp only [rttView, RttView.mk.injEq] at h
  obtain ⟨hconfig, hnow, hledger, hdelivered, hempty, hlast, hboot, hmin⟩ := h
  have hrtprop : f.beliefs.rtprop = g.beliefs.rtprop := by rw [Beliefs.rtprop, Beliefs.rtprop, hmin]
  have hopen : f.sampleOpen = g.sampleOpen := by
    rw [sampleOpen, sampleOpen, hempty, hnow, hlast, hconfig, hrtprop]
  have hretention : (f.updateHistory s).retention = (g.updateHistory s').retention := by
    simp only [retention, Beliefs.rtprop, config_updateHistory, minRtt_updateHistory, hconfig, hmin]
  simp only [rttView, ledger_updateHistory, isEmpty_history_updateHistory, config_updateHistory, now_updateHistory,
    counters_updateHistory, bootstrapMinRtt_updateHistory, minRtt_updateHistory, lastHistoryUpdate_updateHistory,
    hopen, hledger, hnow, hretention, hconfig, hdelivered, hlast, hboot, hmin]

/-! ## Events -/

theorem rttView_recordSent (h : f.rttView = g.rttView) (seq : Nat) :
    (f.recordSent seq).1.rttView = (g.recordSent seq).1.rttView := by
  have hentered : f.ledger.recordSent seq f.now f.counters.delivered =
      g.ledger.recordSent seq g.now g.counters.delivered := by
    simp only [rttView, RttView.mk.injEq] at h
    simp only [h]
  unfold recordSent
  rw [hentered]
  cases g.ledger.recordSent seq g.now g.counters.delivered with
  | ok ledger =>
      simp only [rttView, RttView.mk.injEq] at h ⊢
      simp only [h, and_self]
  | error a => exact h

theorem accepted?_eq_none_congr (h : f.rttView = g.rttView) (n : Nat) :
    f.accepted? n = none ↔ g.accepted? n = none := by
  cases n with
  | zero => exact Iff.rfl
  | succ seq =>
      have hledger : f.ledger = g.ledger := congrArg RttView.ledger h
      rw [accepted?_eq_none, accepted?_eq_none, hledger]

theorem rttView_accepted (h : f.rttView = g.rttView) {f' g' : Flow α} {n : Nat} {s s' : Segment α}
    (hf : f.accepted? n = some (f', s)) (hg : g.accepted? n = some (g', s')) : f'.rttView = g'.rttView := by
  simp only [rttView, RttView.mk.injEq] at h
  obtain ⟨hconfig, hnow, hledger, hdelivered, hempty, hlast, hboot, hmin⟩ := h
  obtain ⟨seq, s₀, rfl, hfacc⟩ := accepts_of_accepted hf
  obtain ⟨_, s₁, ⟨⟩, hgacc⟩ := accepts_of_accepted hg
  obtain ⟨hfrests, -⟩ := rests_accepted hf
  obtain ⟨hgrests, -⟩ := rests_accepted hg
  obtain rfl : s₀ = s₁ := Option.some.inj (hfacc.find.symm.trans (hledger ▸ hgacc.find))
  have hrtt : s.rtt = s'.rtt := by rw [hfacc.rtt, hgacc.rtt, hnow]
  have hbelief : f'.beliefs.minRtt = g'.beliefs.minRtt := by
    rw [hfacc.beliefs, hgacc.beliefs]
    simp only [Beliefs.onRtt, hmin, hrtt]
  simp only [rttView, hfacc.config, hgacc.config, hfacc.now, hgacc.now, hfacc.ledger, hgacc.ledger, hfacc.counters,
    hgacc.counters, hfacc.history, hgacc.history, hfrests.lastHistoryUpdate, hgrests.lastHistoryUpdate,
    hfacc.bootstrapMinRtt, hgacc.bootstrapMinRtt, hbelief, hconfig, hnow, hledger, hdelivered, hempty, hlast, hboot]

theorem rttView_ack (h : f.rttView = g.rttView) (n : Nat) : (f.ack n).flow.rttView = (g.ack n).flow.rttView := by
  cases hf : f.accepted? n with
  | none =>
      have hg := (accepted?_eq_none_congr h n).mp hf
      rw [rttView_of_refused (by rw [segment?_ack, hf]; rfl), rttView_of_refused (by rw [segment?_ack, hg]; rfl), h]
  | some r =>
      obtain ⟨f', s⟩ := r
      obtain ⟨⟨g', s'⟩, hg⟩ := Option.ne_none_iff_exists'.mp (mt (accepted?_eq_none_congr h n).mpr (by simp [hf]))
      rw [(ack_of_accepted hf).1, (ack_of_accepted hg).1, rttView_recompute, rttView_recompute]
      exact rttView_updateHistory (rttView_accepted h hf hg) s s'

theorem rttView_step (h : f.rttView = g.rttView) (e : Event α) : (f.step e).1.rttView = (g.step e).1.rttView := by
  cases e with
  | sent seq =>
      simp only [step, sent, rttView_recompute]
      exact rttView_recordSent h seq
  | ack n r r' => exact rttView_ack h n
  | minRtt rtt =>
      simp only [step, setMinRtt]
      split
      · exact h
      · simp only [rttView, RttView.mk.injEq] at h ⊢
        simp only [h, and_self]
  | init =>
      simp only [rttView, RttView.mk.injEq] at h ⊢
      simp [step, init, reset, h]
  | clock now =>
      simp only [rttView, RttView.mk.injEq] at h ⊢
      simp [step, setTime, h]
  | _ => exact h

theorem rttView_run (h : f.rttView = g.rttView) (events : List (Event α)) :
    (f.run events).1.rttView = (g.run events).1.rttView := by
  induction events generalizing f g with
  | nil => exact h
  | cons e events ih => exact ih (rttView_step h e)

theorem rttView_of_ignored {e : Event α} (he : f.ignoresRtt e = true) : (f.step e).1.rttView = f.rttView := by
  cases e with
  | sent seq =>
      have hcontains : f.ledger.outstanding.contains seq = true := he
      simp only [step, sent, rttView_recompute, recordSent, Ledger.recordSent, hcontains, if_true]
      rfl
  | ack n r r' => exact rttView_of_refused (Option.isNone_iff_eq_none.mp he)
  | minRtt rtt =>
      have huseless : uselessTime rtt = true := he
      rw [step, setMinRtt, if_pos huseless]
  | linkRate rate => rfl
  | close => rfl
  | _ => cases he

end Flow

end Pacing

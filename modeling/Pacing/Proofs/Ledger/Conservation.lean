import Mathlib.Algebra.GroupWithZero.Nat
import Pacing.Proofs.Flow.Run
import Pacing.Proofs.Ledger.Count

/-!
# Conservation of segments

Every segment sent in an epoch is delivered, counted as lost or outstanding and not marked lost, and the
lost count is what the acks of the epoch revealed less what they took back. So no subtraction of counters
ever stops at zero, and the amount in flight is exact.
-/

namespace Pacing

variable {α : Type} [Scalar α]

/-! ## What the acks of an epoch account for -/

namespace Transition

/-- How many segments the event took out of the ledger other than by acking them. -/
def expired (t : Transition α) : Nat :=
  t.before.ledger.outstanding.count fun seq _ =>
    !t.after.ledger.outstanding.contains seq && !t.event.acks seq

/-- How many segments expired in some transitions. -/
def expiredIn (ts : List (Transition α)) : Nat := (ts.map expired).sum

/-- The segments that the acks of some transitions resolved. -/
def resolvedIn (ts : List (Transition α)) : List (Segment α) := ts.filterMap resolved?

/-- How many segments the acks of some transitions newly marked lost. -/
def revealedIn (ts : List (Transition α)) : Nat := ((resolvedIn ts).map (·.lossCount)).sum

/-- How many segments were delivered in some transitions after they had been marked lost. -/
def correctedIn (ts : List (Transition α)) : Nat := (resolvedIn ts).countP (·.lost)

theorem expired_eq_zero {t : Transition α}
    (h : ∀ seq s, t.before.ledger.find? seq = some s → t.event.acks seq = false →
      t.after.ledger.outstanding.contains seq = true) : t.expired = 0 := by
  have hc : t.expired = t.before.ledger.outstanding.count fun _ _ => false :=
    SeqMap.count_congr fun seq s hs => by
      cases ha : t.event.acks seq with
      | true => simp
      | false => simp [h seq s hs ha]
  rw [hc]
  simp [SeqMap.count]

/-! ### One more transition -/

theorem expiredIn_concat (ts : List (Transition α)) (t : Transition α) :
    expiredIn (ts ++ [t]) = expiredIn ts + t.expired := by
  simp [expiredIn]

theorem revealedIn_concat (ts : List (Transition α)) (t : Transition α) :
    revealedIn (ts ++ [t]) = revealedIn ts + (t.resolved?.map (·.lossCount)).getD 0 := by
  cases h : t.resolved? <;> simp [revealedIn, resolvedIn, h]

theorem correctedIn_concat (ts : List (Transition α)) (t : Transition α) :
    correctedIn (ts ++ [t]) = correctedIn ts + if t.resolved?.any (·.lost) then 1 else 0 := by
  cases h : t.resolved? <;> simp [correctedIn, resolvedIn, h]

end Transition

open Transition

/-- The books of a flow balance with what happened in its epoch. -/
structure Balanced (ts : List (Transition α)) (f : Flow α) : Prop where
  sent : f.counters.sent = f.counters.delivered + f.counters.lost + f.ledger.live
  lost : f.counters.lost = f.ledger.lost + expiredIn ts
  revealed : f.counters.lost + correctedIn ts = revealedIn ts
  sent_le : f.counters.sent ≤ ts.length

namespace Balanced

theorem reset (f : Flow α) : Balanced [] f.reset := ⟨rfl, rfl, rfl, Nat.le_refl 0⟩

variable {ts : List (Transition α)} {f : Flow α} {e : Event α}

/-- An event that leaves ledger and counters alone keeps the balance. -/
theorem quiet (h : Balanced ts f) (hr : (⟨f, e⟩ : Transition α).resolved? = none)
    (hl : (f.step e).1.ledger = f.ledger) (hc : (f.step e).1.counters = f.counters) :
    Balanced (ts ++ [⟨f, e⟩]) (f.step e).1 := by
  have hx : (⟨f, e⟩ : Transition α).expired = 0 :=
    expired_eq_zero fun seq s hs _ => by
      simp only [after, hl, SeqMap.contains]
      exact Option.isSome_of_eq_some hs
  refine ⟨?_, ?_, ?_, ?_⟩
  · rw [hc, hl]; exact h.sent
  · rw [hc, hl, expiredIn_concat, hx]; exact h.lost
  · rw [hc, correctedIn_concat, revealedIn_concat, hr]; exact h.revealed
  · rw [hc, List.length_append]; exact Nat.le_add_right_of_le h.sent_le

/-- A send counts one segment more, and one more is live. -/
theorem sent_step (h : Balanced ts f) (seq : Nat) :
    Balanced (ts ++ [⟨f, .sent seq⟩]) (f.step (.sent seq)).1 := by
  cases hr : f.ledger.recordSent seq f.now f.counters.delivered with
  | error a =>
      refine h.quiet rfl ?_ ?_ <;> simp [Flow.step, Flow.sent, Flow.recordSent, hr, Flow.noteAnomaly]
  | ok l =>
      have hl : (f.step (.sent seq)).1.ledger = l := by
        simp [Flow.step, Flow.sent, Flow.recordSent, hr]
      have hc : (f.step (.sent seq)).1.counters = { f.counters with sent := f.counters.sent + 1 } := by
        simp [Flow.step, Flow.sent, Flow.recordSent, hr]
      have hx : (⟨f, .sent seq⟩ : Transition α).expired = 0 :=
        expired_eq_zero fun i s hs _ => by
          simp only [after, hl]
          exact Ledger.contains_recordSent hr hs
      obtain ⟨hlive, hlost⟩ := Ledger.live_recordSent hr
      have hs := h.sent
      have hn := h.sent_le
      refine ⟨?_, ?_, ?_, ?_⟩
      · simp only [hc, hl, hlive]; omega
      · rw [hc, hl, hlost, expiredIn_concat, hx]; exact h.lost
      · rw [hc, correctedIn_concat, revealedIn_concat]; exact h.revealed
      · simp only [hc, List.length_append, List.length_singleton]; omega

/-! ### Acks -/

/-- An ack that leaves the marked ledger as it is lets nothing expire. -/
theorem expired_ack_of_markLosses {seq : Nat} {r t : α} {l : Ledger α}
    (hl : (f.step (.ack (seq + 1) r t)).1.ledger = l)
    (ho : l.outstanding = ((f.ledger.settle seq).markLosses seq).outstanding) :
    (⟨f, .ack (seq + 1) r t⟩ : Transition α).expired = 0 :=
  expired_eq_zero fun i s hs ha => by
    have hi : i ≠ seq := fun h => by simp [Event.acks, h] at ha
    have hs' : f.ledger.outstanding.find? i = some s := hs
    simp [after, hl, ho, Ledger.markLosses, Ledger.settle, SeqMap.contains, SeqMap.find?_map,
      SeqMap.find?_erase, hi, hs']

theorem expired_ack_of_expireLost {seq : Nat} {r t horizon : α}
    (hl : (f.step (.ack (seq + 1) r t)).1.ledger =
      ((f.ledger.settle seq).markLosses seq).expireLost horizon) :
    (⟨f, .ack (seq + 1) r t⟩ : Transition α).expired =
      ((f.ledger.settle seq).markLosses seq).expiring horizon := by
  rw [← Ledger.count_gone, expired]
  refine SeqMap.count_congr fun i s _ => ?_
  simp only [after, hl, Event.acks, bne]
  congr 2
  by_cases hi : i = seq <;> simp [hi]
  omega

/-- An accepted ack takes its segment out, moves those that it reveals from the live to the lost ones, and
may let lost ones expire. -/
theorem ledger_ack {g : Flow α} {seq : Nat} {s₀ s : Segment α} (hg : f.Accepts seq s₀ g s)
    (hflow : (f.ack (seq + 1)).flow = (g.updateHistory s).recompute.1) (r t : α) :
    (f.step (.ack (seq + 1) r t)).1.ledger.live + s.lossCount + 1 =
        f.ledger.live + (if s₀.lost then 1 else 0) ∧
      (f.step (.ack (seq + 1) r t)).1.ledger.lost + (⟨f, .ack (seq + 1) r t⟩ : Transition α).expired +
        (if s₀.lost then 1 else 0) = f.ledger.lost + s.lossCount := by
  obtain ⟨_, _, _, _, ledger, hledger, hu⟩ := g.updateHistory_frame s
  have hl : (f.step (.ack (seq + 1) r t)).1.ledger = ledger := by
    simp only [Flow.step, hflow, Flow.ledger_recompute, hu]
  have hmlive := (f.ledger.settle seq).live_markLosses seq
  have hmlost := (f.ledger.settle seq).lost_markLosses seq
  have hcase : (if s₀.lost then 0 else 1) + (if s₀.lost then 1 else 0) = 1 := by
    cases s₀.lost <;> rfl
  rw [hl, ← Ledger.live_settle hg.find, ← Ledger.lost_settle hg.find, hg.lossCount]
  rw [hg.ledger] at hledger
  rcases hledger with rfl | ⟨horizon, rfl⟩
  · rw [expired_ack_of_markLosses hl rfl]
    omega
  · have hlive := ((f.ledger.settle seq).markLosses seq).live_expireLost horizon
    have hlost := ((f.ledger.settle seq).markLosses seq).lost_expireLost horizon
    rw [expired_ack_of_expireLost hl]
    omega

theorem ack_step (h : Balanced ts f) (n : Nat) (r t : α) :
    Balanced (ts ++ [⟨f, .ack n r t⟩]) (f.step (.ack n r t)).1 := by
  obtain ⟨-, a, ha⟩ | ⟨seq, s₀, g, s, rfl, -, hg, hflow, hseg⟩ := f.ack_cases n
  · refine h.quiet ?_ ?_ ?_ <;> simp [resolved?, Flow.step, ha, Flow.refuseAck, Flow.noteAnomaly]
  · have hc : (f.step (.ack (seq + 1) r t)).1.counters = g.counters := by
      simp only [Flow.step, hflow, Flow.counters_recompute, Flow.counters_updateHistory]
    have hres : (⟨f, .ack (seq + 1) r t⟩ : Transition α).resolved? = some s := hseg
    obtain ⟨hlive, hlost⟩ := ledger_ack hg hflow r t
    obtain ⟨hsent, hlosteq, hrev, hn⟩ := h
    have hback : (if s₀.lost then f.counters.lost - 1 else f.counters.lost) +
        (if s₀.lost then 1 else 0) = f.counters.lost := by
      cases hs₀ : s₀.lost with
      | false => rfl
      | true => exact Nat.sub_add_cancel (hlosteq ▸ Nat.le_add_right_of_le (Ledger.lost_pos hg.find hs₀))
    refine ⟨?_, ?_, ?_, ?_⟩
    · rw [hc, hg.counters]
      dsimp only
      omega
    · rw [hc, expiredIn_concat, hg.counters]
      dsimp only
      omega
    · rw [hc, correctedIn_concat, revealedIn_concat, hres, hg.counters]
      simp only [Option.any_some, hg.lost, Option.map_some, Option.getD_some]
      omega
    · rw [hc, List.length_append, hg.counters]
      exact Nat.le_add_right_of_le hn

/-! ### Runs -/

theorem step (h : Balanced ts f) (he : e.isInit = false) :
    Balanced (ts ++ [⟨f, e⟩]) (f.step e).1 := by
  cases e with
  | init => cases he
  | sent seq => exact h.sent_step seq
  | ack n r t => exact h.ack_step n r t
  | minRtt rtt =>
      refine h.quiet rfl ?_ ?_ <;> simp only [Flow.step, Flow.setMinRtt] <;> split <;> rfl
  | _ => exact h.quiet rfl rfl rfl

theorem afterRun (c : Config α) (events : List (Event α)) :
    Balanced (Flow.epoch c events) (Flow.afterRun c events) :=
  Flow.epoch_induction c (reset _) (fun f _ _ => reset f) (fun _ _ _ _ he h => h.step he) events

theorem inflight_eq (h : Balanced ts f) : f.counters.inflight = f.ledger.live := by
  have := h.sent
  unfold Counters.inflight
  omega

end Balanced

theorem Flow.bqBelief1_ack {f : Flow α} {n : Nat} {s : Segment α}
    (h : (f.ack n).segment? = some s) :
    (f.ack n).flow.beliefs.bqBelief1 = (f.ack n).flow.counters.inflight := by
  rw [segment?_ack] at h
  obtain ⟨⟨g, s'⟩, hacc, _⟩ := Option.map_eq_some_iff.1 h
  obtain ⟨_, _, _, hg⟩ := accepts_of_accepted hacc
  rw [(ack_of_accepted hacc).1]
  simp [hg.beliefs, Beliefs.onRtt]

/-- Conservation. After every run, the segments sent in the epoch are those delivered, those counted as lost
and the live ones; the lost count is that of the lost segments still outstanding and those that expired, and
what the acks of the epoch revealed less what they corrected. No subtraction of counts stops at zero, and
no count exceeds the length of the run. -/
theorem segments_conserved (c : Config α) (events : List (Event α)) :
    let f := Flow.afterRun c events
    let ts := Flow.epoch c events
    f.counters.sent = f.counters.delivered + f.counters.lost + f.ledger.live ∧
      f.counters.lost = f.ledger.lost + expiredIn ts ∧
      (f.counters.lost = revealedIn ts - correctedIn ts ∧ correctedIn ts ≤ revealedIn ts) ∧
      (f.counters.delivered ≤ f.counters.sent ∧
        f.counters.lost ≤ f.counters.sent - f.counters.delivered) ∧
      (∀ seq s, f.ledger.find? seq = some s → s.lost = true → 1 ≤ f.counters.lost) ∧
      f.counters.inflight = f.ledger.live ∧
      (∀ n s, (f.ack n).segment? = some s →
        (f.ack n).flow.beliefs.bqBelief1 = (f.ack n).flow.ledger.live) ∧
      f.counters.sent ≤ events.length := by
  intro f ts
  have h : Balanced ts f := Balanced.afterRun c events
  have hsent := h.sent
  have hlost := h.lost
  have hrev := h.revealed
  refine ⟨hsent, hlost, ⟨by omega, by omega⟩, ⟨by omega, by omega⟩, ?_, h.inflight_eq, ?_, ?_⟩
  · intro seq s hs hl
    have := Ledger.lost_pos hs hl
    omega
  · intro n s hs
    have hn : Balanced _ (f.ack n).flow := h.ack_step n Scalar.zero Scalar.zero
    rw [Flow.bqBelief1_ack hs, hn.inflight_eq]
  · exact Nat.le_trans h.sent_le (Flow.length_epoch_le c events)

end Pacing

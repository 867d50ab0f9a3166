import Pacing.Proofs.Beliefs.Translation
import Pacing.Proofs.Flow.Run

/-!
# Runs at another origin of time

Where nothing is rounded, it does not matter when a flow begins. Each time that it stores was read off its
clock, and it is used through its difference from another one. So to make every reading of the clock later by the
same amount makes every stored time later by as much, and changes nothing else.
-/

namespace Pacing

def Segment.shift (d : Rat) (s : Segment Rat) : Segment Rat := { s with sendTstamp := s.sendTstamp + d }

/-- The event with its times later by `d`. -/
def Event.shift (d : Rat) : Event Rat → Event Rat
  | .clock now => .clock (now + d)
  | .ack ackSeq receiverTs senderTs => .ack ackSeq (receiverTs + d) (senderTs + d)
  | e => e

/-! ## Ledger -/

namespace Ledger

def shift (d : Rat) (l : Ledger Rat) : Ledger Rat :=
  { l with outstanding := l.outstanding.map fun _ s => s.shift d }

variable (d : Rat) (l : Ledger Rat)

theorem find?_outstanding_shift (seq : Nat) :
    (l.shift d).outstanding.find? seq = (l.outstanding.find? seq).map (Segment.shift d) :=
  SeqMap.find?_map ..

theorem size_shift : (l.shift d).size = l.size := List.length_map ..

theorem recordSent_shift (seq : Nat) (now : Rat) (n : Nat) :
    (l.shift d).recordSent seq (now + d) n = (l.recordSent seq now n).map (shift d) := by
  have hcontains : (l.shift d).outstanding.contains seq = l.outstanding.contains seq := by
    rw [SeqMap.contains, find?_outstanding_shift, Option.isSome_map]
    rfl
  have hinsert : (l.shift d).outstanding.insert seq (.sent (now + d) n) =
      (l.outstanding.insert seq (.sent now n)).map fun _ s => s.shift d :=
    SeqMap.ext_find? fun i => by
      rw [SeqMap.find?_insert, SeqMap.find?_map, SeqMap.find?_insert, find?_outstanding_shift]
      split <;> rfl
  unfold recordSent
  rw [hcontains, hinsert]
  split <;> rfl

theorem settle_shift (seq : Nat) : (l.shift d).settle seq = (l.settle seq).shift d := by
  have herase : (l.shift d).outstanding.erase seq = (l.outstanding.erase seq).map fun _ s => s.shift d :=
    SeqMap.ext_find? fun i => by
      rw [SeqMap.find?_erase, SeqMap.find?_map, SeqMap.find?_erase, find?_outstanding_shift]
      split <;> rfl
  unfold settle
  rw [herase]
  rfl

theorem resolve_shift (seq : Nat) :
    (l.shift d).resolve seq = (l.resolve seq).map fun (s, l') => (s.shift d, l'.shift d) := by
  have hresolved : (l.shift d).resolved = l.resolved := rfl
  unfold resolve
  rw [find?_outstanding_shift, settle_shift, hresolved]
  cases l.outstanding.find? seq with
  | some s => rfl
  | none =>
      simp only [Option.map_none]
      split <;> rfl

theorem markLosses_shift (seq : Nat) : (l.shift d).markLosses seq = (l.markLosses seq).shift d := by
  have hmarks : (l.shift d).outstanding.map (fun i s => if i < seq then { s with lost := true } else s) =
      (l.markLosses seq).outstanding.map fun _ s => s.shift d :=
    SeqMap.ext_find? fun i => by
      rw [SeqMap.find?_map, SeqMap.find?_map, find?_outstanding_shift, markLosses, SeqMap.find?_map]
      cases l.outstanding.find? i with
      | none => rfl
      | some s => by_cases h : i < seq <;> simp [h, Segment.shift]
  unfold markLosses
  rw [hmarks]
  rfl

theorem newLosses_shift (seq : Nat) : (l.shift d).newLosses seq = l.newLosses seq := by
  simp only [newLosses, shift, SeqMap.count, SeqMap.map, List.countP_map]
  rfl

theorem expireLost_shift (horizon : Rat) :
    (l.shift d).expireLost (horizon + d) = (l.expireLost horizon).shift d := by
  have hfilter : (l.shift d).outstanding.filter (fun _ s => !(s.lost && s.sendTstamp < horizon + d)) =
      (l.expireLost horizon).outstanding.map fun _ s => s.shift d :=
    SeqMap.ext_find? fun i => by
      rw [SeqMap.find?_filter, SeqMap.find?_map, find?_outstanding_shift, expireLost, SeqMap.find?_filter]
      cases l.outstanding.find? i with
      | none => rfl
      | some s =>
          have holder : (s.shift d).sendTstamp < horizon + d ↔ s.sendTstamp < horizon := add_lt_add_iff_right d
          have hlost : (s.shift d).lost = s.lost := rfl
          simp only [Option.map_some, Option.filter_some, holder, hlost]
          split <;> rfl
  unfold expireLost
  rw [hfilter]
  rfl

end Ledger

namespace Flow

/-- The flow with every time that it stores later by `d`. -/
def shift (d : Rat) (f : Flow Rat) : Flow Rat :=
  { f with
    ledger := f.ledger.shift d
    history := f.history.map (Sample.shift d)
    beliefs := f.beliefs.shift d
    now := f.now + d
    lastRateUpdate := f.lastRateUpdate + d
    lastHistoryUpdate := f.lastHistoryUpdate + d }

variable (d : Rat) (f : Flow Rat)

theorem stats_shift : (f.shift d).stats = f.stats := by
  have hsize : (f.shift d).history.size = f.history.size := Ring.size_map ..
  unfold stats
  rw [hsize, show (f.shift d).ledger.size = f.ledger.size from f.ledger.size_shift d]
  rfl

/-- An epoch begins with no time stored but that of its beginning. -/
theorem reset_shift : (f.shift d).reset = f.reset.shift d := by
  have hclear : (f.history.map (Sample.shift d)).clear = f.history.clear.map (Sample.shift d) :=
    Ring.clear_map ..
  unfold reset shift
  rw [hclear]
  rfl

/-! ## Recomputes and sends -/

theorem recompute_shift : (f.shift d).recompute.1 = f.recompute.1.shift d := by
  have hdue : (f.shift d).rateDue = f.rateDue := by
    have hsince : (f.shift d).now - (f.shift d).lastRateUpdate = f.now - f.lastRateUpdate := add_sub_add_right_eq_sub ..
    unfold rateDue
    rw [hsince]
    rfl
  unfold recompute
  rw [hdue]
  split <;> rfl

theorem recordSent_shift (seq : Nat) : ((f.shift d).recordSent seq).1 = (f.recordSent seq).1.shift d := by
  have hsent : (f.shift d).ledger.recordSent seq (f.shift d).now (f.shift d).counters.delivered =
      (f.ledger.recordSent seq f.now f.counters.delivered).map (Ledger.shift d) :=
    Ledger.recordSent_shift ..
  unfold recordSent
  rw [hsent]
  cases f.ledger.recordSent seq f.now f.counters.delivered <;> rfl

/-! ## History -/

theorem merged_shift (s : Segment Rat) : (f.shift d).merged (s.shift d) = (f.merged s).shift d := by
  have hpush : ((f.shift d).history.push ((f.shift d).newSample (s.shift d))).1 =
      (f.history.push (f.newSample s)).1.map (Sample.shift d) :=
    f.history.push_map (Sample.shift d) (f.newSample s)
  have hqueue : (f.shift d).beliefs.advanceQueue (f.shift d).counters.sent
      ((f.shift d).now - (f.shift d).lastHistoryUpdate) =
        (f.beliefs.advanceQueue f.counters.sent (f.now - f.lastHistoryUpdate)).shift d := by
    have hsince : (f.shift d).now - (f.shift d).lastHistoryUpdate = f.now - f.lastHistoryUpdate :=
      add_sub_add_right_eq_sub ..
    rw [hsince]
    rfl
  unfold merged
  simp only [hpush, hqueue, Ring.toList_map, Beliefs.learnBounds_shift]
  rfl

theorem repairBounds_shift : (f.shift d).repairBounds = f.repairBounds.shift d := by
  have hsize : (f.shift d).history.size = f.history.size := Ring.size_map ..
  have hrepair : (f.shift d).beliefs.repair (f.shift d).config (f.shift d).now =
      ((f.beliefs.repair f.config f.now).1.shift d, (f.beliefs.repair f.config f.now).2) :=
    Beliefs.repair_shift ..
  unfold repairBounds
  rw [hsize, hrepair]
  split
  · rfl
  · obtain ⟨b, repaired⟩ := f.beliefs.repair f.config f.now
    cases repaired <;> rfl

theorem measured_shift (s : Segment Rat) : (f.shift d).measured (s.shift d) = (f.measured s).shift d := by
  have hlearn (g : Flow Rat) : (g.shift d).beliefs.learnThroughput (g.shift d).config s.cumDeliveredAtSend
      (g.shift d).history =
        ((g.beliefs.learnThroughput g.config s.cumDeliveredAtSend g.history).1.shift d,
          (g.beliefs.learnThroughput g.config s.cumDeliveredAtSend g.history).2.map (Sample.shift d)) :=
    Beliefs.learnThroughput_shift ..
  have hanchor : (s.shift d).cumDeliveredAtSend = s.cumDeliveredAtSend := rfl
  unfold measured
  rw [merged_shift, repairBounds_shift, hanchor]
  simp only [hlearn]
  rfl

theorem takeSample_shift (s : Segment Rat) : (f.shift d).takeSample (s.shift d) = (f.takeSample s).shift d := by
  have hexpire (g : Flow Rat) : (g.shift d).ledger.expireLost ((g.shift d).now - (g.shift d).retention) =
      (g.ledger.expireLost (g.now - g.retention)).shift d := by
    have hhorizon : (g.shift d).now - (g.shift d).retention = g.now - g.retention + d := add_sub_right_comm ..
    rw [hhorizon]
    exact Ledger.expireLost_shift ..
  rw [takeSample, takeSample, measured_shift, dropExpired, hexpire]
  rfl

theorem extendSample_shift (s : Segment Rat) :
    (f.shift d).extendSample (s.shift d) = (f.extendSample s).shift d := by
  have hrtt : (s.shift d).rtt = s.rtt := rfl
  have hsize : (f.shift d).history.size = f.history.size := Ring.size_map ..
  have hextend : (f.shift d).history.modifyBack (·.extend s.rtt) =
      (f.history.modifyBack (·.extend s.rtt)).map (Sample.shift d) := by
    have hsample (q : Sample Rat) : (q.shift d).extend s.rtt = (q.extend s.rtt).shift d := rfl
    unfold Ring.modifyBack
    rw [hsize]
    exact f.history.modify_map hsample _
  unfold extendSample
  rw [hrtt, hextend]
  rfl

theorem updateHistory_shift (s : Segment Rat) :
    (f.shift d).updateHistory (s.shift d) = (f.updateHistory s).shift d := by
  have hopen : (f.shift d).sampleOpen = f.sampleOpen := by
    have hsince : (f.shift d).now - (f.shift d).lastHistoryUpdate = f.now - f.lastHistoryUpdate :=
      add_sub_add_right_eq_sub ..
    have hempty : (f.shift d).history.isEmpty = f.history.isEmpty := Ring.isEmpty_map ..
    unfold sampleOpen
    rw [hsince, hempty]
    rfl
  unfold updateHistory
  rw [hopen]
  split
  · exact f.extendSample_shift d s
  · exact f.takeSample_shift d s

/-! ## Acks -/

theorem correctLoss_shift (seq : Nat) (s : Segment Rat) :
    ((f.shift d).correctLoss seq (s.shift d)).1 = (f.correctLoss seq s).1.shift d := by
  have hlost : (s.shift d).lost = s.lost := rfl
  unfold correctLoss
  rw [hlost]
  split <;> rfl

/-- The round-trip time and the losses that an ack reveals are the same. -/
theorem ackedSegment_shift (seq : Nat) (s : Segment Rat) :
    (f.shift d).ackedSegment seq (s.shift d) = (f.ackedSegment seq s).shift d := by
  have hrtt : (f.shift d).now - (s.shift d).sendTstamp = f.now - s.sendTstamp := add_sub_add_right_eq_sub ..
  have hlosses : (f.shift d).ledger.newLosses seq = f.ledger.newLosses seq := Ledger.newLosses_shift ..
  unfold ackedSegment
  rw [hrtt, hlosses]
  rfl

theorem credited_shift (seq : Nat) (s : Segment Rat) :
    (f.shift d).credited seq (s.shift d) = (f.credited seq s).shift d := by
  have hmarks : (f.shift d).ledger.markLosses seq = (f.ledger.markLosses seq).shift d :=
    Ledger.markLosses_shift ..
  unfold credited
  rw [hmarks]
  rfl

theorem ack_shift (n : Nat) :
    ((f.shift d).ack n).flow = (f.ack n).flow.shift d ∧
      ((f.shift d).ack n).segment? = (f.ack n).segment?.map (Segment.shift d) := by
  cases n with
  | zero => exact ⟨rfl, rfl⟩
  | succ seq =>
      have hresolve : (f.shift d).ledger.resolve seq =
          (f.ledger.resolve seq).map fun (s, l) => (s.shift d, l.shift d) :=
        Ledger.resolve_shift ..
      simp only [ack, accept, hresolve]
      cases f.ledger.resolve seq with
      | error a => exact ⟨rfl, rfl⟩
      | ok r =>
          obtain ⟨s, ledger⟩ := r
          have hledger : ({ f.shift d with ledger := ledger.shift d } : Flow Rat) = shift d { f with ledger } := rfl
          simp only [Except.map, hledger, deliver, correctLoss_shift, ackedSegment_shift, credited_shift,
            updateHistory_shift, recompute_shift, Option.map_some, and_self]

/-! ## Runs -/

theorem step_shift (e : Event Rat) : ((f.shift d).step (e.shift d)).1 = (f.step e).1.shift d := by
  cases e with
  | init => exact f.reset_shift d
  | sent seq =>
      change ((f.shift d).recordSent seq).1.recompute.1 = _
      rw [recordSent_shift, recompute_shift]
      rfl
  | ack n r s => exact (f.ack_shift d n).1
  | minRtt rtt =>
      simp only [step, Event.shift, setMinRtt]
      split <;> rfl
  | _ => rfl

theorem resolved?_shift (e : Event Rat) :
    (⟨f.shift d, e.shift d⟩ : Transition Rat).resolved? =
      (⟨f, e⟩ : Transition Rat).resolved?.map (Segment.shift d) := by
  cases e with
  | ack n r s => exact (f.ack_shift d n).2
  | _ => rfl

theorem run_shift (events : List (Event Rat)) :
    ((f.shift d).run (events.map (Event.shift d))).1 = (f.run events).1.shift d ∧
      ((f.shift d).transitions (events.map (Event.shift d))).map Transition.resolved? =
        (f.transitions events).map fun t => t.resolved?.map (Segment.shift d) := by
  induction events generalizing f with
  | nil => exact ⟨rfl, rfl⟩
  | cons e events ih =>
      obtain ⟨hrun, hresolved⟩ := ih (f.step e).1
      rw [← step_shift] at hrun hresolved
      simp only [List.map_cons, transitions, resolved?_shift, hresolved]
      exact ⟨hrun, trivial⟩

/-- In exact arithmetic, a run that begins an epoch at some time goes the same way at any other: with the clock
later by `d` throughout, every time that the flow stores is later by `d`, all else that it holds or tells is the
same, and each ack resolves the same segment, with the same round-trip time and losses. -/
theorem time_translated (c : Config Rat) (d began : Rat) (events : List (Event Rat)) :
    let run : List (Event Rat) := .clock began :: .init :: events
    let f := afterRun c run
    let g := afterRun c (run.map (Event.shift d))
    g = f.shift d ∧ g.stats = f.stats ∧
      ((start c).transitions (run.map (Event.shift d))).map Transition.resolved? =
        ((start c).transitions run).map fun t => t.resolved?.map (Segment.shift d) := by
  intro run f g
  have hbegan : (((start c).step (.clock (began + d))).1.step .init).1 =
      (((start c).step (.clock began)).1.step .init).1.shift d :=
    reset_shift d { start c with now := began }
  obtain ⟨hrun, hresolved⟩ := run_shift d (((start c).step (.clock began)).1.step .init).1 events
  rw [← hbegan] at hrun hresolved
  have hg : g = f.shift d := hrun
  refine ⟨hg, ?_, congrArg (none :: none :: ·) hresolved⟩
  rw [hg, stats_shift]

end Flow

end Pacing

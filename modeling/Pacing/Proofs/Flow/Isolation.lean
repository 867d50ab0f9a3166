import Pacing.Proofs.Flow.Overlay
import Pacing.Proofs.Flow.Run
import Pacing.Proofs.Ledger.Memory
import Pacing.Proofs.Phases

/-!
# Isolation of epochs

A flow keeps its tally and the link rate for life, and no operation reads them: to lend a flow a past, of a
tally and a link rate, commutes with every event. All else that an epoch begins with comes from the
configuration, the clock and the stored round-trip time.
-/

namespace Pacing

variable {α : Type}

def Tally.add (t u : Tally) : Tally where
  recomputes := t.recomputes + u.recomputes
  repairs := t.repairs + u.repairs
  unknownAcks := t.unknownAcks + u.unknownAcks
  duplicateAcks := t.duplicateAcks + u.duplicateAcks
  duplicateSends := t.duplicateSends + u.duplicateSends
  reorderedDeliveries := t.reorderedDeliveries + u.reorderedDeliveries
  timeouts := t.timeouts + u.timeouts

theorem Tally.add_count (t u : Tally) (a : Anomaly) : t.add (u.count a) = (t.add u).count a := by
  cases a <;> rfl

namespace Flow

/-! ## Lending a past -/

/-- A tally from before is gone on with, and a link rate from before holds until one is measured. -/
def past (t : Tally) (rate : Option α) : Overlay α where
  tally := t.add
  linkRate := (· <|> rate)
  history := id
  tally_count := t.add_count
  tally_recompute := fun _ => rfl
  tally_repair := fun _ => rfl

/-- The flow with a tally from before and a link rate that it has until it measures one. -/
def lend (f : Flow α) (t : Tally) (rate : Option α) : Flow α :=
  { f with tally := t.add f.tally, linkRate := f.linkRate <|> rate }

section lend

variable (f : Flow α) (t : Tally) (rate : Option α)

variable [Scalar α]

theorem segment?_ack_lend (n : Nat) : ((f.lend t rate).ack n).segment? = (f.ack n).segment? :=
  f.segment?_ack_overlay (past t rate) n

theorem step_lend (e : Event α) : ((f.lend t rate).step e).1 = (f.step e).1.lend t rate :=
  f.step_overlay (o := past t rate) rfl e fun _ _ => rfl

end lend

variable [Scalar α]

theorem run_lend (f : Flow α) (t : Tally) (rate : Option α) (events : List (Event α)) :
    ((f.lend t rate).run events).1 = (f.run events).1.lend t rate := by
  induction events generalizing f with
  | nil => rfl
  | cons e events ih =>
      change (((f.lend t rate).step e).1.run events).1 = _
      rw [step_lend, ih]
      rfl

end Flow

/-! ## What the configuration fixes -/

variable [Scalar α]

@[simp] theorem Beliefs.capacity_learnThroughput (b : Beliefs α) (c : Config α) (anchor : Nat)
    (h : Ring (Sample α)) : (b.learnThroughput c anchor h).2.capacity = h.capacity := by
  have hfold (used : List Nat) (r : Ring (Sample α)) :
      (used.foldl (fun r d => r.modify (r.size - 1 - d) Sample.markProcessed) r).capacity = r.capacity := by
    induction used generalizing r with
    | nil => rfl
    | cons d used ih => rw [List.foldl_cons, ih, Ring.capacity_modify]
  unfold learnThroughput
  split
  · rfl
  · exact hfold _ h

namespace Flow

/-- The sizes and the law of a flow are those that its configuration asked for. -/
structure Fitted (c : Config α) (f : Flow α) : Prop where
  config : f.config = c
  memory : f.ledger.resolved.capacity = c.resolvedSeqMemory
  history : f.history.capacity = Nat.max c.historySize 1
  law : f.phases.law = c.law

namespace Fitted

theorem start (c : Config α) : (Flow.start c).Fitted c := ⟨rfl, rfl, rfl, rfl⟩

variable {c : Config α} {f : Flow α}

theorem reset (h : f.Fitted c) : f.reset.Fitted c := ⟨h.config, h.memory, h.history, h.law⟩

theorem recompute (h : f.Fitted c) : f.recompute.1.Fitted c := by
  have hlaw : f.recompute.1.phases.law = f.phases.law := by
    unfold Flow.recompute
    split
    · unfold redecide
      cases f.pendingTimeout with
      | true => rfl
      | false => exact PhaseMachine.law_advance f.phases f.beliefs f.config
    · rfl
  refine ⟨?_, ?_, ?_, hlaw.trans h.law⟩
  · rw [config_recompute, h.config]
  · rw [ledger_recompute, h.memory]
  · rw [history_recompute, h.history]

theorem recordSent (h : f.Fitted c) (seq : Nat) : (f.recordSent seq).1.Fitted c := by
  unfold Flow.recordSent Ledger.recordSent
  split <;> rename_i hr
  · split at hr <;> cases hr
    exact ⟨h.config, h.memory, h.history, h.law⟩
  · exact ⟨h.config, h.memory, h.history, h.law⟩

theorem updateHistory (h : f.Fitted c) (s : Segment α) : (f.updateHistory s).Fitted c := by
  have hhistory : (f.updateHistory s).history.capacity = f.history.capacity := by
    unfold Flow.updateHistory
    split
    · exact Ring.capacity_modify ..
    · obtain ⟨b, n, hrep⟩ := (f.merged s).repairBounds_frame
      have hmerged : (f.merged s).history.capacity = f.history.capacity := Ring.capacity_push ..
      rw [takeSample, measured, hrep]
      exact (Beliefs.capacity_learnThroughput ..).trans hmerged
  obtain ⟨_, _, _, _, ledger, hledger, hu⟩ := f.updateHistory_frame s
  refine ⟨?_, ?_, hhistory.trans h.history, ?_⟩
  · rw [config_updateHistory, h.config]
  · rw [hu]
    rcases hledger with rfl | ⟨_, rfl⟩ <;> exact h.memory
  · rw [hu]
    exact h.law

theorem accepted (h : f.Fitted c) {g : Flow α} {n : Nat} {s : Segment α}
    (hacc : f.accepted? n = some (g, s)) : g.Fitted c := by
  obtain ⟨seq, s₀, -, hg⟩ := accepts_of_accepted hacc
  have hmemory : g.ledger.resolved.capacity = f.ledger.resolved.capacity := by
    rw [hg.ledger]
    exact Memory.capacity_remember ..
  obtain ⟨_, _, _, _, rfl⟩ := accepted_frame hacc
  exact ⟨h.config, hmemory.trans h.memory, h.history, h.law⟩

theorem step (h : f.Fitted c) (e : Event α) : (f.step e).1.Fitted c := by
  cases e with
  | init => exact h.reset
  | sent seq => exact (h.recordSent seq).recompute
  | ack n r s =>
      obtain ⟨-, a, ha⟩ | ⟨_, _, g, q, _, hacc, -, hflow, -⟩ := f.ack_cases n
      · simp only [Flow.step, ha]
        exact ⟨h.config, h.memory, h.history, h.law⟩
      · simp only [Flow.step, hflow]
        exact ((h.accepted hacc).updateHistory q).recompute
  | minRtt rtt =>
      simp only [Flow.step, setMinRtt]
      split <;> exact ⟨h.config, h.memory, h.history, h.law⟩
  | steadyState => exact ⟨h.config, h.memory, h.history, (f.phases.law_enterSteadyState).trans h.law⟩
  | _ => exact ⟨h.config, h.memory, h.history, h.law⟩

theorem afterRun (c : Config α) (events : List (Event α)) : (Flow.afterRun c events).Fitted c := by
  induction events using List.reverseRecOn with
  | nil => exact start c
  | append_singleton events e ih =>
      rw [afterRun_concat]
      exact ih.step e

end Fitted

/-! ## Two pasts -/

/-- An epoch begins as that of a new flow with the same clock and the same stored round-trip time would. -/
theorem reset_eq_lend {c : Config α} {f : Flow α} (h : f.Fitted c) :
    f.reset =
      ({ start c with bootstrapMinRtt := f.bootstrapMinRtt, now := f.now } : Flow α).reset.lend
        f.tally f.linkRate := by
  have hledger : f.ledger.clear = (start c).ledger.clear := by
    unfold Ledger.clear Memory.clear
    rw [h.memory]
    rfl
  have hhistory : f.history.clear = (start c).history.clear := Ring.clear_congr h.history
  have hphases : f.phases.reset = (start c).phases.reset := congrArg PhaseMachine.start h.law
  unfold reset lend
  simp only [hledger, hhistory, hphases, h.config]
  rfl

/-- Two flows that agree in all that an epoch is about. -/
structure SameEpoch (f g : Flow α) : Prop where
  window : f.window = g.window
  /-- Sending rate, window with its fraction and spacing of sends. -/
  decision : f.decision = g.decision
  phases : f.phases = g.phases
  beliefs : f.beliefs = g.beliefs
  history : f.history = g.history
  counters : f.counters = g.counters
  segment : ∀ seq, f.ledger.find? seq = g.ledger.find? seq
  ack : ∀ n, (f.ack n).segment? = (g.ack n).segment?

theorem sameEpoch_lend (f : Flow α) (t t' : Tally) (rate rate' : Option α) :
    (f.lend t rate).SameEpoch (f.lend t' rate') where
  window := rfl
  decision := rfl
  phases := rfl
  beliefs := rfl
  history := rfl
  counters := rfl
  segment := fun _ => rfl
  ack := fun n => by rw [segment?_ack_lend, segment?_ack_lend]

/-- Whatever came before, flows with the same configuration, the same clock and the same stored round-trip
time go through the same epoch after `init`, and count the same in it. -/
theorem epochs_isolated (c : Config α) (past₁ past₂ : List (Event α))
    (hrtt : (afterRun c past₁).bootstrapMinRtt = (afterRun c past₂).bootstrapMinRtt)
    (hnow : (afterRun c past₁).now = (afterRun c past₂).now) (events : List (Event α)) :
    let f := afterRun c (past₁ ++ .init :: events)
    let g := afterRun c (past₂ ++ .init :: events)
    f.SameEpoch g ∧
      ∃ gain : Tally, f.tally = (afterRun c past₁).tally.add gain ∧
        g.tally = (afterRun c past₂).tally.add gain := by
  intro f g
  let new : Flow α :=
    { start c with bootstrapMinRtt := (afterRun c past₂).bootstrapMinRtt, now := (afterRun c past₂).now }
  have hf : f = (new.reset.run events).1.lend (afterRun c past₁).tally (afterRun c past₁).linkRate := by
    have hreset := reset_eq_lend (.afterRun c past₁)
    rw [hrtt, hnow] at hreset
    rw [← run_lend, ← hreset]
    exact afterRun_append c past₁ _
  have hg : g = (new.reset.run events).1.lend (afterRun c past₂).tally (afterRun c past₂).linkRate := by
    rw [← run_lend, ← reset_eq_lend (.afterRun c past₂)]
    exact afterRun_append c past₂ _
  rw [hf, hg]
  exact ⟨sameEpoch_lend .., (new.reset.run events).1.tally, rfl, rfl⟩

/-- A flow that has lost a segment, resolved another, taken a sample and left slow start, beside a new one. -/
theorem epochs_isolated_after_loss :
    let c : Config Float := .standard
    let zero : Float := Scalar.zero
    let past : List (Event Float) :=
      [.sent 0, .sent 1, .clock (Scalar.ofNat 20), .ack 2 zero zero, .steadyState, .linkRate zero, .timeout,
        .clock zero]
    let events : List (Event Float) := [.sent 1, .clock (Scalar.ofNat 30), .ack 2 zero zero, .ack 1 zero zero]
    let f := afterRun c (past ++ .init :: events)
    let g := afterRun c (.init :: events)
    (afterRun c past).bootstrapMinRtt = (afterRun c []).bootstrapMinRtt ∧
      (afterRun c past).now = (afterRun c []).now ∧ f.SameEpoch g ∧
      ∃ gain : Tally, f.tally = (afterRun c past).tally.add gain ∧ g.tally = (afterRun c []).tally.add gain := by
  intro c zero past events f g
  have hrtt : (afterRun c past).bootstrapMinRtt = (afterRun c []).bootstrapMinRtt := by decide +kernel
  have hnow : (afterRun c past).now = (afterRun c []).now := by decide +kernel
  exact ⟨hrtt, hnow, epochs_isolated c past [] hrtt hnow events⟩

end Flow

end Pacing

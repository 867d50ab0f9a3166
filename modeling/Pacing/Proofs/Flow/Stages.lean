import Pacing.Flow.Event

/-!
# The stages of an event

An ack that is not refused goes through a few stages, and each of them changes only a part of the flow.
This module says what each stage leaves as it was, so that a property of a run can be proved stage by
stage.
-/

namespace Pacing

variable {α : Type}

namespace Ledger

theorem resolve_eq_ok {l l' : Ledger α} {seq : Nat} {s : Segment α} :
    l.resolve seq = .ok (s, l') ↔ l.find? seq = some s ∧ l' = l.settle seq := by
  unfold resolve find?
  cases h : l.outstanding.find? seq with
  | none => simp only; split <;> simp
  | some s₁ => simp [eq_comm]

end Ledger

variable [Scalar α]

/-! ## What the estimators leave alone -/

namespace Beliefs

@[simp] theorem minRtt_advanceQueue (b : Beliefs α) (n : Nat) (t : α) :
    (b.advanceQueue n t).minRtt = b.minRtt := rfl

@[simp] theorem bqBelief1_advanceQueue (b : Beliefs α) (n : Nat) (t : α) :
    (b.advanceQueue n t).bqBelief1 = b.bqBelief1 := rfl

@[simp] theorem minRtt_learnBounds (b : Beliefs α) (c : Config α) (h : List (Sample α)) :
    (b.learnBounds c h).minRtt = b.minRtt := by
  unfold learnBounds; split <;> rfl

@[simp] theorem bqBelief1_learnBounds (b : Beliefs α) (c : Config α) (h : List (Sample α)) :
    (b.learnBounds c h).bqBelief1 = b.bqBelief1 := by
  unfold learnBounds; split <;> rfl

@[simp] theorem minRtt_repair (b : Beliefs α) (c : Config α) (now : α) :
    (b.repair c now).1.minRtt = b.minRtt := by
  unfold repair; split <;> rfl

@[simp] theorem bqBelief1_repair (b : Beliefs α) (c : Config α) (now : α) :
    (b.repair c now).1.bqBelief1 = b.bqBelief1 := by
  unfold repair; split <;> rfl

theorem learnThroughput_fst (b : Beliefs α) (c : Config α) (anchor : Nat) (h : Ring (Sample α)) :
    ∃ rate, (b.learnThroughput c anchor h).1 = { b with minCLambda := rate } := by
  unfold learnThroughput
  split
  · exact ⟨b.minCLambda, rfl⟩
  · exact ⟨_, rfl⟩

end Beliefs

namespace Flow

/-! ## Recomputes -/

section recompute

variable (f : Flow α)

@[simp] theorem config_recompute : f.recompute.1.config = f.config := by
  unfold recompute; split <;> rfl

@[simp] theorem ledger_recompute : f.recompute.1.ledger = f.ledger := by
  unfold recompute; split <;> rfl

@[simp] theorem history_recompute : f.recompute.1.history = f.history := by
  unfold recompute; split <;> rfl

@[simp] theorem beliefs_recompute : f.recompute.1.beliefs = f.beliefs := by
  unfold recompute; split <;> rfl

@[simp] theorem counters_recompute : f.recompute.1.counters = f.counters := by
  unfold recompute; split <;> rfl

@[simp] theorem bootstrapMinRtt_recompute : f.recompute.1.bootstrapMinRtt = f.bootstrapMinRtt := by
  unfold recompute; split <;> rfl

@[simp] theorem repairs_recompute : f.recompute.1.tally.repairs = f.tally.repairs := by
  unfold recompute; split <;> rfl

end recompute

/-! ## Acks -/

omit [Scalar α] in
theorem correctLoss_frame (f : Flow α) (seq : Nat) (s : Segment α) :
    ∃ tally, (f.correctLoss seq s).1 = { f with
        counters := { f.counters with lost := if s.lost then f.counters.lost - 1 else f.counters.lost }, tally } ∧
      tally.recomputes = f.tally.recomputes ∧ tally.repairs = f.tally.repairs := by
  unfold correctLoss
  split <;> exact ⟨_, rfl, rfl, rfl⟩

/-- An accepted ack delivers the segment that it finds outstanding. -/
theorem accept_eq_ok {f : Flow α} {n : Nat} {r : Accepted α} (h : f.accept n = .ok r) :
    ∃ seq s, n = seq + 1 ∧ f.ledger.find? seq = some s ∧
      r = { f with ledger := f.ledger.settle seq }.deliver seq s := by
  cases n with
  | zero => cases h
  | succ seq =>
      simp only [accept] at h
      split at h
      · cases h
      · rename_i s ledger hr
        obtain ⟨hfind, rfl⟩ := Ledger.resolve_eq_ok.mp hr
        cases h
        exact ⟨seq, s, rfl, hfind, rfl⟩

/-- The flow that an ack hands on to the history, with the segment that it resolved; nothing if the ack
is refused. -/
def accepted? (f : Flow α) (n : Nat) : Option (Flow α × Segment α) :=
  (f.accept n).toOption.map fun r => (r.flow, r.segment)

theorem accepted?_of_ok {f : Flow α} {n : Nat} {r : Accepted α} (h : f.accept n = .ok r) :
    f.accepted? n = some (r.flow, r.segment) := by
  rw [accepted?, h]
  rfl

theorem accepted?_of_error {f : Flow α} {n : Nat} {a : Anomaly} (h : f.accept n = .error a) :
    f.accepted? n = none := by
  rw [accepted?, h]
  rfl

theorem accept_of_accepted {f g : Flow α} {n : Nat} {s : Segment α} (h : f.accepted? n = some (g, s)) :
    ∃ entries, f.accept n = .ok ⟨g, s, entries⟩ := by
  cases ha : f.accept n with
  | error a => cases (accepted?_of_error ha).symm.trans h
  | ok r =>
      cases (accepted?_of_ok ha).symm.trans h
      exact ⟨r.entries, rfl⟩

/-- Before its delivery is credited, the segment leaves the ledger and its loss is taken back. -/
theorem delivered_of_accepted {f g : Flow α} {n : Nat} {s : Segment α} (h : f.accepted? n = some (g, s)) :
    ∃ seq s₀, n = seq + 1 ∧ f.ledger.find? seq = some s₀ ∧
      let g₀ := ({ f with ledger := f.ledger.settle seq }.correctLoss seq s₀).1
      s = g₀.ackedSegment seq s₀ ∧ g = g₀.credited seq s := by
  obtain ⟨entries, ha⟩ := accept_of_accepted h
  obtain ⟨seq, s₀, hn, hfind, hr⟩ := accept_eq_ok ha
  simp only [deliver, Accepted.mk.injEq] at hr
  obtain ⟨hg, hs, -⟩ := hr
  exact ⟨seq, s₀, hn, hfind, hs, hs ▸ hg⟩

theorem accept_of_refused {f : Flow α} {n : Nat} (h : f.accepted? n = none) : ∃ a, f.accept n = .error a := by
  cases ha : f.accept n with
  | error a => exact ⟨a, rfl⟩
  | ok r => cases (accepted?_of_ok ha).symm.trans h

/-- No other reason is there to refuse an ack. -/
theorem accept_eq_error {f : Flow α} {n : Nat} {a : Anomaly} (h : f.accept n = .error a) :
    (∃ m, a = .unknownAck m) ∨ ∃ m, a = .duplicateAck m := by
  cases n with
  | zero =>
      cases h
      exact .inl ⟨0, rfl⟩
  | succ seq =>
      cases hfind : f.ledger.outstanding.find? seq with
      | some s => simp [accept, Ledger.resolve, hfind] at h
      | none =>
          simp only [accept, Ledger.resolve, hfind] at h
          cases hknown : f.ledger.resolved.contains seq <;> simp only [hknown] at h <;> cases h
          · exact .inl ⟨seq, rfl⟩
          · exact .inr ⟨seq, rfl⟩

theorem ack_of_accepted {f g : Flow α} {n : Nat} {s : Segment α} (h : f.accepted? n = some (g, s))
    (learn : Learn α := Beliefs.learnThroughput) :
    (f.ack n learn).flow = (g.updateHistory s learn).recompute.1 ∧ (f.ack n learn).segment? = some s := by
  obtain ⟨entries, ha⟩ := accept_of_accepted h
  rw [ack, ha]
  exact ⟨rfl, rfl⟩

theorem ack_of_refused {f : Flow α} {n : Nat} (h : f.accepted? n = none) :
    ∃ a, ∀ learn, f.ack n learn = f.refuseAck a := by
  obtain ⟨a, ha⟩ := accept_of_refused h
  exact ⟨a, fun learn => by rw [ack, ha]⟩

theorem accepted?_eq_none {f : Flow α} {seq : Nat} :
    f.accepted? (seq + 1) = none ↔ f.ledger.find? seq = none := by
  constructor
  · intro h
    cases hf : f.ledger.find? seq with
    | none => rfl
    | some s =>
        have hr := Ledger.resolve_eq_ok.mpr ⟨hf, rfl⟩
        simp [accepted?, accept, hr, Except.toOption] at h
  · intro hf
    cases ha : f.accept (seq + 1) with
    | error a => exact accepted?_of_error ha
    | ok r =>
        obtain ⟨_, s, hn, hs, -⟩ := accept_eq_ok ha
        cases hn
        cases hf.symm.trans hs

/-- An accepted ack finds `s₀` outstanding under `seq` and hands on the flow `g` and the segment `s`. -/
structure Accepts (f : Flow α) (seq : Nat) (s₀ : Segment α) (g : Flow α) (s : Segment α) : Prop where
  find : f.ledger.find? seq = some s₀
  lost : s.lost = s₀.lost
  lossCount : s.lossCount = (f.ledger.settle seq).newLosses seq
  rtt : s.rtt = Scalar.max (f.now - s₀.sendTstamp) Scalar.zero
  anchor : s.cumDeliveredAtSend = s₀.cumDeliveredAtSend
  ledger : g.ledger = (f.ledger.settle seq).markLosses seq
  counters : g.counters = ⟨f.counters.sent, f.counters.delivered + 1,
    (if s₀.lost then f.counters.lost - 1 else f.counters.lost) + s.lossCount⟩
  beliefs : g.beliefs = f.beliefs.onRtt s.rtt g.counters f.config
  config : g.config = f.config
  history : g.history = f.history
  now : g.now = f.now
  decision : g.decision = f.decision
  window : g.window = f.window
  bootstrapMinRtt : g.bootstrapMinRtt = f.bootstrapMinRtt
  recomputes : g.tally.recomputes = f.tally.recomputes
  repairs : g.tally.repairs = f.tally.repairs

theorem accepts_of_accepted {f g : Flow α} {n : Nat} {s : Segment α}
    (h : f.accepted? n = some (g, s)) : ∃ seq s₀, n = seq + 1 ∧ f.Accepts seq s₀ g s := by
  obtain ⟨seq, s₀, hn, hfind, hs, hg⟩ := delivered_of_accepted h
  obtain ⟨tally, hcorrected, hrecomputes, hrepairs⟩ :=
    correctLoss_frame { f with ledger := f.ledger.settle seq } seq s₀
  rw [hcorrected] at hs hg
  subst hs hg
  exact ⟨seq, s₀, hn, hfind, rfl, rfl, rfl, rfl, rfl, rfl, rfl, rfl, rfl, rfl, rfl, rfl, rfl, hrecomputes, hrepairs⟩

/-- An ack touches neither history, phase, timers nor outputs before it is handed on. -/
theorem accepted_frame {f g : Flow α} {n : Nat} {s : Segment α} (h : f.accepted? n = some (g, s)) :
    ∃ ledger counters beliefs tally, g = { f with ledger, counters, beliefs, tally } := by
  obtain ⟨seq, s₀, -, -, -, hg⟩ := delivered_of_accepted h
  obtain ⟨tally, hcorrected, -⟩ := correctLoss_frame { f with ledger := f.ledger.settle seq } seq s₀
  rw [hcorrected] at hg
  exact ⟨_, _, _, _, hg⟩

/-- An ack is refused, or goes through the stages. -/
theorem ack_cases (f : Flow α) (n : Nat) :
    (f.accepted? n = none ∧ ∃ a, f.ack n = f.refuseAck a) ∨
    ∃ seq s₀ g s, n = seq + 1 ∧ f.accepted? n = some (g, s) ∧ f.Accepts seq s₀ g s ∧
      (f.ack n).flow = (g.updateHistory s).recompute.1 ∧ (f.ack n).segment? = some s := by
  cases h : f.accepted? n with
  | none =>
      obtain ⟨a, ha⟩ := ack_of_refused h
      exact .inl ⟨rfl, a, ha _⟩
  | some r =>
      obtain ⟨g, s⟩ := r
      obtain ⟨seq, s₀, hn, hacc⟩ := accepts_of_accepted h
      obtain ⟨hflow, hseg⟩ := ack_of_accepted h
      exact .inr ⟨seq, s₀, g, s, hn, rfl, hacc, hflow, hseg⟩

theorem segment?_ack (f : Flow α) (n : Nat) : (f.ack n).segment? = (f.accepted? n).map (·.2) := by
  obtain ⟨hn, a, ha⟩ | ⟨_, _, _, _, _, hn, -, -, hseg⟩ := f.ack_cases n
  · rw [hn, ha]; rfl
  · rw [hn, hseg]; rfl

/-! ## Samples -/

theorem beliefs_updateHistory_of_open {f : Flow α} (h : f.sampleOpen = true) (s : Segment α) :
    (f.updateHistory s).beliefs = f.beliefs := by
  rw [updateHistory, if_pos h]
  rfl

theorem repairBounds_frame (f : Flow α) :
    ∃ b n, f.repairBounds = { f with beliefs := b, tally := { f.tally with repairs := n } } := by
  unfold repairBounds
  split
  · exact ⟨_, _, rfl⟩
  · split <;> exact ⟨_, _, rfl⟩

theorem updateHistory_frame (f : Flow α) (s : Segment α) :
    ∃ history beliefs t n ledger, (ledger = f.ledger ∨ ∃ horizon, ledger = f.ledger.expireLost horizon) ∧
      f.updateHistory s = { f with
        ledger, history, beliefs, lastHistoryUpdate := t, tally := { f.tally with repairs := n } } := by
  unfold updateHistory
  split
  · exact ⟨_, _, _, _, _, .inl rfl, rfl⟩
  · obtain ⟨b, n, h⟩ := (f.merged s).repairBounds_frame
    rw [takeSample, measured, h]
    exact ⟨_, _, _, _, _, .inr ⟨_, rfl⟩, rfl⟩

section updateHistory

variable (f : Flow α) (s : Segment α)

@[simp] theorem config_updateHistory : (f.updateHistory s).config = f.config := by
  obtain ⟨_, _, _, _, _, _, h⟩ := f.updateHistory_frame s
  rw [h]

@[simp] theorem counters_updateHistory : (f.updateHistory s).counters = f.counters := by
  obtain ⟨_, _, _, _, _, _, h⟩ := f.updateHistory_frame s
  rw [h]

@[simp] theorem bootstrapMinRtt_updateHistory :
    (f.updateHistory s).bootstrapMinRtt = f.bootstrapMinRtt := by
  obtain ⟨_, _, _, _, _, _, h⟩ := f.updateHistory_frame s
  rw [h]

@[simp] theorem recomputes_updateHistory :
    (f.updateHistory s).tally.recomputes = f.tally.recomputes := by
  obtain ⟨_, _, _, _, _, _, h⟩ := f.updateHistory_frame s
  rw [h]

end updateHistory

@[simp] theorem minRtt_merged (f : Flow α) (s : Segment α) :
    (f.merged s).beliefs.minRtt = f.beliefs.minRtt := by
  simp [merged]

@[simp] theorem bqBelief1_merged (f : Flow α) (s : Segment α) :
    (f.merged s).beliefs.bqBelief1 = f.beliefs.bqBelief1 := by
  simp [merged]

theorem beliefs_repairBounds (f : Flow α) :
    f.repairBounds.beliefs =
      if f.history.size ≤ 1 then f.beliefs else (f.beliefs.repair f.config f.now).1 := by
  unfold repairBounds
  split
  · rfl
  · split <;> rename_i h <;> rw [h]

theorem beliefs_takeSample (f : Flow α) (s : Segment α) :
    ∃ rate, (f.takeSample s).beliefs =
      { (f.merged s).repairBounds.beliefs with minCLambda := rate } :=
  Beliefs.learnThroughput_fst ..

/-- A sample changes what is believed of the queue and the capacity alone. -/
theorem beliefs_updateHistory (f : Flow α) (s : Segment α) :
    (f.updateHistory s).beliefs.minRtt = f.beliefs.minRtt ∧
      (f.updateHistory s).beliefs.bqBelief1 = f.beliefs.bqBelief1 := by
  unfold updateHistory
  split
  · exact ⟨rfl, rfl⟩
  · obtain ⟨r, h⟩ := f.beliefs_takeSample s
    rw [h, beliefs_repairBounds]
    split <;> simp

@[simp] theorem minRtt_updateHistory (f : Flow α) (s : Segment α) :
    (f.updateHistory s).beliefs.minRtt = f.beliefs.minRtt := (f.beliefs_updateHistory s).1

@[simp] theorem bqBelief1_updateHistory (f : Flow α) (s : Segment α) :
    (f.updateHistory s).beliefs.bqBelief1 = f.beliefs.bqBelief1 := (f.beliefs_updateHistory s).2

/-! ## Steps -/

@[simp] theorem config_step (f : Flow α) (e : Event α) : (f.step e).1.config = f.config := by
  cases e with
  | sent seq =>
      simp only [step, sent, config_recompute, recordSent]
      split <;> rfl
  | ack n _ _ =>
      obtain ⟨-, a, ha⟩ | ⟨_, _, _, _, _, -, hacc, hflow, -⟩ := f.ack_cases n
      · simp only [step, ha]; rfl
      · simp only [step, hflow, config_recompute, config_updateHistory, hacc.config]
  | minRtt rtt => simp only [step, setMinRtt]; split <;> rfl
  | _ => rfl

end Flow

end Pacing

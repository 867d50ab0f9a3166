import Pacing.Proofs.Beliefs.Throughput
import Pacing.Proofs.Ledger.Provenance

/-!
# History and ledger from event to event

What an event leaves of the samples and the segments that it found, and what it adds. A sample keeps the
counters that it was taken with, and once marked stays marked.
-/

namespace Pacing

variable {α : Type}

/-- What became of a sample: its snapshot is as it was, and a mark on it stays. -/
structure Sample.Later (st st' : Sample α) : Prop where
  tstamp : st'.tstamp = st.tstamp
  cumSent : st'.cumSent = st.cumSent
  cumDelivered : st'.cumDelivered = st.cumDelivered
  processed : st.processed = true → st'.processed = true

namespace Sample.Later

theorem refl (st : Sample α) : st.Later st := ⟨rfl, rfl, rfl, id⟩

theorem trans {st st' st'' : Sample α} (h : st.Later st') (h' : st'.Later st'') : st.Later st'' where
  tstamp := h'.tstamp.trans h.tstamp
  cumSent := h'.cumSent.trans h.cumSent
  cumDelivered := h'.cumDelivered.trans h.cumDelivered
  processed := fun hp => h'.processed (h.processed hp)

end Sample.Later

variable [Scalar α]

open Scalar

namespace Beliefs

@[simp] theorem minCLambda_advanceQueue (b : Beliefs α) (n : Nat) (t : α) :
    (b.advanceQueue n t).minCLambda = b.minCLambda := rfl

@[simp] theorem minCLambda_learnBounds (b : Beliefs α) (c : Config α) (h : List (Sample α)) :
    (b.learnBounds c h).minCLambda = b.minCLambda := by
  unfold learnBounds
  split <;> rfl

end Beliefs

namespace Transition

/-- The windows whose throughput the event takes in. -/
def learntFrom (t : Transition α) : List (Beliefs.Window α) :=
  match t.sampled? with
  | none => []
  | some (g, s) =>
    (g.merged s).repairBounds.beliefs.learntFrom g.config s.cumDeliveredAtSend (g.merged s).history.toList

end Transition

namespace Flow

/-! ## Steps -/

/-- Nothing is delivered and no sample is taken; at most a shorter round-trip time is learnt. -/
structure Keeps (f g : Flow α) : Prop where
  history : g.history = f.history
  delivered : g.counters.delivered = f.counters.delivered
  beliefs : g.beliefs = f.beliefs ∨
    ∃ rtt, g.beliefs = { f.beliefs with minRtt := Scalar.min f.beliefs.minRtt rtt }

theorem Keeps.minCLambda {f g : Flow α} (h : f.Keeps g) : g.beliefs.minCLambda = f.beliefs.minCLambda := by
  rcases h.beliefs with hb | ⟨_, hb⟩ <;> rw [hb]

/-- Within an epoch only an accepted ack does more. -/
theorem step_cases (f : Flow α) {e : Event α} (hi : e.isInit = false) :
    ((⟨f, e⟩ : Transition α).resolved? = none ∧ f.Keeps (f.step e).1) ∨
      ∃ n r r' seq s₀ g s, e = .ack n r r' ∧ f.accepted? n = some (g, s) ∧ f.Accepts seq s₀ g s ∧
        (f.step e).1 = (g.updateHistory s).recompute.1 := by
  cases e with
  | init => cases hi
  | sent seq =>
      refine .inl ⟨rfl, ?_, ?_, .inl ?_⟩ <;>
        simp only [step, sent, history_recompute, counters_recompute, beliefs_recompute, recordSent] <;>
        split <;> rfl
  | ack n r r' =>
      obtain ⟨-, a, ha⟩ | ⟨seq, s₀, g, s, -, hn, hacc, hflow, -⟩ := f.ack_cases n
      · simp only [Transition.resolved?, step, ha]
        exact .inl ⟨rfl, rfl, rfl, .inl rfl⟩
      · exact .inr ⟨n, r, r', seq, s₀, g, s, rfl, hn, hacc, hflow⟩
  | minRtt rtt =>
      refine .inl ⟨rfl, ?_⟩
      simp only [step, setMinRtt]
      split
      · exact ⟨rfl, rfl, .inl rfl⟩
      · exact ⟨rfl, rfl, .inr ⟨rtt, rfl⟩⟩
  | _ => exact .inl ⟨rfl, rfl, rfl, .inl rfl⟩

variable {f g : Flow α} {s : Segment α} {t : Transition α}

/-! ## Samples -/

theorem below?_reset (f : Flow α) (depth : Nat) : f.reset.history.below? depth = none := Ring.below?_clear ..

theorem measured_eq (g : Flow α) (s : Segment α) :
    ∃ b n, (g.merged s).repairBounds.beliefs = b ∧
      g.measured s =
        let (beliefs, history) := b.learnThroughput g.config s.cumDeliveredAtSend (g.merged s).history
        { g.merged s with beliefs, history, tally := { g.tally with repairs := n } } := by
  obtain ⟨b, n, h⟩ := (g.merged s).repairBounds_frame
  refine ⟨b, n, by rw [h], ?_⟩
  rw [measured, h]
  rfl

/-- The depths at which windows start that the pass after a sample uses. -/
def usedBy (g : Flow α) (s : Segment α) : List Nat :=
  ((g.merged s).repairBounds.beliefs.pass g.config s.cumDeliveredAtSend (g.merged s).history.toList).used

theorem zero_not_mem_usedBy (g : Flow α) (s : Segment α) : 0 ∉ g.usedBy s := by
  intro h
  obtain ⟨w, hw, hd, -⟩ := Beliefs.used_pass h
  exact Nat.ne_of_gt (Beliefs.zero_lt_depth_of_mem_windows hw) hd

theorem below?_measured (g : Flow α) (s : Segment α) (depth : Nat) :
    (g.measured s).history.below? depth =
      ((g.merged s).history.below? depth).map fun st =>
        if depth ∈ g.usedBy s then st.markProcessed else st := by
  obtain ⟨b, n, hb, hmeasured⟩ := g.measured_eq s
  rw [hmeasured, usedBy, hb]
  exact Beliefs.below?_learnThroughput _ _

theorem after_of_sampled (h : t.sampled? = some (g, s)) :
    t.after.history = (g.measured s).history ∧ t.after.counters = g.counters ∧
      g.history = t.before.history ∧ g.counters.delivered = t.before.counters.delivered + 1 := by
  obtain ⟨f, e⟩ := t
  obtain ⟨n, r, r', he, ha, hopen⟩ := sampled?_eq_some h
  obtain rfl : e = .ack n r r' := he
  obtain ⟨seq, s₀, -, hacc⟩ := accepts_of_accepted ha
  have hflow : (Transition.after ⟨f, .ack n r r'⟩) = (g.updateHistory s).recompute.1 :=
    (ack_of_accepted ha).1
  refine ⟨?_, ?_, hacc.history, by rw [hacc.counters]⟩
  · rw [hflow, history_recompute, updateHistory, hopen]
    rfl
  · rw [hflow, counters_recompute, counters_updateHistory]

theorem history_merged (h : t.sampled? = some (g, s)) :
    (g.merged s).history = (t.before.history.push (g.newSample s)).1 := by
  rw [← (after_of_sampled h).2.2.1]
  rfl

theorem below?_of_sampled (h : t.sampled? = some (g, s)) (depth : Nat) :
    t.after.history.below? depth =
      ((g.merged s).history.below? depth).map fun st =>
        if depth ∈ g.usedBy s then st.markProcessed else st := by
  rw [(after_of_sampled h).1, below?_measured]

/-- An ack that takes no sample extends the newest one. -/
theorem history_of_not_sampled (hi : t.event.isInit = false) (h : t.sampled? = none) :
    (t.resolved? = none ∧ t.after.history = t.before.history) ∨
      ∃ s, t.resolved? = some s ∧ t.after.history = t.before.history.modifyBack (·.extend s.rtt) := by
  obtain ⟨f, e⟩ := t
  rcases f.step_cases hi with ⟨hnone, hkeeps⟩ | ⟨n, r, r', _, _, g, s, rfl, hn, hacc, hflow⟩
  · exact .inl ⟨hnone, hkeeps.history⟩
  · have hopen : g.sampleOpen = true := by simpa [Transition.sampled?, hn] using h
    refine .inr ⟨s, (ack_of_accepted hn).2, ?_⟩
    rw [Transition.after, hflow, history_recompute, updateHistory, hopen, ← hacc.history]
    rfl

/-- An event leaves of a sample what an extension and a mark do. -/
theorem below?_after_of {R : Sample α → Sample α → Prop} (hrefl : ∀ st, R st st)
    (hextend : ∀ st rtt, R st (st.extend rtt)) (hmark : ∀ st, R st st.markProcessed)
    (hi : t.event.isInit = false) {depth : Nat} {st' : Sample α} :
    (t.sampled? = none → t.after.history.below? depth = some st' →
      ∃ st, t.before.history.below? depth = some st ∧ R st st') ∧
    (t.sampled?.isSome = true → t.after.history.below? (depth + 1) = some st' →
      ∃ st, t.before.history.below? depth = some st ∧ R st st') := by
  constructor
  · intro h hst
    rcases history_of_not_sampled hi h with ⟨-, hsame⟩ | ⟨s, -, hext⟩
    · exact ⟨st', hsame ▸ hst, hrefl st'⟩
    · rw [hext, Ring.below?_modifyBack, Option.map_eq_some_iff] at hst
      obtain ⟨st, hst, rfl⟩ := hst
      refine ⟨st, hst, ?_⟩
      split
      · exact hextend st s.rtt
      · exact hrefl st
  · intro h hst
    obtain ⟨⟨g, s⟩, h⟩ := Option.isSome_iff_exists.mp h
    rw [below?_of_sampled h, history_merged h, Option.map_eq_some_iff] at hst
    obtain ⟨st, hst, rfl⟩ := hst
    refine ⟨st, Ring.below?_of_push hst, ?_⟩
    split
    · exact hmark st
    · exact hrefl st

/-- Every sample that an event finds and leaves is a later form of itself. -/
theorem below?_after (hi : t.event.isInit = false) {depth : Nat} {st' : Sample α} :
    (t.sampled? = none → t.after.history.below? depth = some st' →
      ∃ st, t.before.history.below? depth = some st ∧ st.Later st') ∧
    (t.sampled?.isSome = true → t.after.history.below? (depth + 1) = some st' →
      ∃ st, t.before.history.below? depth = some st ∧ st.Later st') :=
  below?_after_of Sample.Later.refl (fun _ _ => ⟨rfl, rfl, rfl, id⟩) (fun _ => ⟨rfl, rfl, rfl, fun _ => rfl⟩) hi

/-- The pass that a sample leads to does not mark it. -/
theorem newest_eq (h : t.sampled? = some (g, s)) : t.after.history.below? 0 = some (g.newSample s) := by
  rw [below?_of_sampled h, history_merged h, Ring.below?_push_zero, Option.map_some,
    if_neg (zero_not_mem_usedBy g s)]

/-- A new sample is not marked, and what it counts as delivered is what the flow does. -/
theorem newest_of_sampled (h : t.sampled?.isSome = true) {st : Sample α}
    (hst : t.after.history.below? 0 = some st) :
    st.processed = false ∧ st.cumDelivered = t.after.counters.delivered := by
  obtain ⟨⟨g, s⟩, h⟩ := Option.isSome_iff_exists.mp h
  cases (newest_eq h).symm.trans hst
  exact ⟨rfl, congrArg Counters.delivered (after_of_sampled h).2.1.symm⟩

/-! ## Throughput -/

theorem minCLambda_repairBounds (g : Flow α) (s : Segment α) :
    (g.merged s).repairBounds.beliefs.minCLambda = g.beliefs.minCLambda := by
  have hmerged : (g.merged s).beliefs.minCLambda = g.beliefs.minCLambda := by simp [merged]
  rw [beliefs_repairBounds_eq]
  split <;> exact hmerged

theorem minCLambda_of_sampled (h : t.sampled? = some (g, s)) :
    t.after.beliefs.minCLambda =
      if (g.merged s).history.size ≤ 1 then t.before.beliefs.minCLambda
      else Scalar.max t.before.beliefs.minCLambda
        ((t.learntFrom.map Beliefs.Window.rate).foldl Scalar.max t.before.config.initMinC) := by
  have hlearnt : t.learntFrom = (g.merged s).repairBounds.beliefs.learntFrom g.config s.cumDeliveredAtSend
      (g.merged s).history.toList := by
    rw [Transition.learntFrom, h]
  obtain ⟨f, e⟩ := t
  obtain ⟨n, r, r', he, ha, hopen⟩ := sampled?_eq_some h
  obtain rfl : e = .ack n r r' := he
  obtain ⟨seq, s₀, -, hacc⟩ := accepts_of_accepted ha
  have hflow : (Transition.after ⟨f, .ack n r r'⟩) = (g.updateHistory s).recompute.1 :=
    (ack_of_accepted ha).1
  obtain ⟨b, m, hb, hmeasured⟩ := g.measured_eq s
  have hminC : b.minCLambda = f.beliefs.minCLambda := by
    rw [← hb, minCLambda_repairBounds, hacc.beliefs]
    rfl
  rw [hflow, beliefs_recompute, updateHistory, hopen, hlearnt, hb]
  dsimp only
  rw [← hminC, ← hacc.config, ← Beliefs.minCLambda_learnThroughput]
  change (g.measured s).beliefs.minCLambda = _
  rw [hmeasured]

/-- An event raises the throughput by the windows that it learns from, and by nothing else. -/
theorem minCLambda_after (hi : t.event.isInit = false) :
    (t.learntFrom = [] ∧ t.after.beliefs.minCLambda = t.before.beliefs.minCLambda) ∨
      t.after.beliefs.minCLambda = Scalar.max t.before.beliefs.minCLambda
        ((t.learntFrom.map Beliefs.Window.rate).foldl Scalar.max t.before.config.initMinC) := by
  cases h : t.sampled? with
  | some q =>
      obtain ⟨g, s⟩ := q
      have hafter := minCLambda_of_sampled h
      split at hafter
      · rename_i hsize
        refine .inl ⟨?_, hafter⟩
        rw [Transition.learntFrom, h]
        exact Beliefs.learntFrom_eq_nil hsize
      · exact .inr hafter
  | none =>
      refine .inl ⟨by rw [Transition.learntFrom, h], ?_⟩
      obtain ⟨f, e⟩ := t
      rcases f.step_cases hi with ⟨-, hkeeps⟩ | ⟨n, _, _, _, _, g, s, rfl, hn, hacc, hflow⟩
      · exact hkeeps.minCLambda
      · have hopen : g.sampleOpen = true := by simpa [Transition.sampled?, hn] using h
        rw [Transition.after, hflow, beliefs_recompute, beliefs_updateHistory_of_open hopen, hacc.beliefs]
        rfl

/-! ## Counters -/

theorem delivered_le_after (hi : t.event.isInit = false) :
    t.before.counters.delivered ≤ t.after.counters.delivered := by
  obtain ⟨f, e⟩ := t
  rcases f.step_cases hi with ⟨-, hkeeps⟩ | ⟨_, _, _, _, _, _, _, rfl, -, hacc, hflow⟩
  · exact Nat.le_of_eq hkeeps.delivered.symm
  · rw [Transition.after, hflow, counters_recompute, counters_updateHistory, hacc.counters]
    exact Nat.le_succ _

theorem delivered_of_sampled (h : t.sampled?.isSome = true) :
    t.after.counters.delivered = t.before.counters.delivered + 1 := by
  obtain ⟨⟨g, s⟩, h⟩ := Option.isSome_iff_exists.mp h
  obtain ⟨-, hcounters, -, hdelivered⟩ := after_of_sampled h
  rw [hcounters, hdelivered]

/-! ## Segments -/

/-- A segment is outstanding because the event enters it or because it was before, and carries the delivered
count of its send. -/
theorem segment_after (hi : t.event.isInit = false) {seq : Nat} {s : Segment α}
    (hs : t.after.ledger.find? seq = some s) :
    (t.enters seq = true ∧ s.cumDeliveredAtSend = t.before.counters.delivered) ∨
      (t.enters seq = false ∧ ∃ s₀, t.before.ledger.find? seq = some s₀ ∧
        s.cumDeliveredAtSend = s₀.cumDeliveredAtSend) := by
  cases hnew : t.enters seq with
  | true =>
      cases (find?_of_enters hnew).symm.trans hs
      exact .inl ⟨rfl, rfl⟩
  | false =>
      obtain ⟨s₀, hs₀, -, -, rfl⟩ := (find?_after_eq_some hi hnew).mp hs
      exact .inr ⟨rfl, s₀, hs₀, rfl⟩

end Flow

end Pacing

import Pacing.Proofs.Flow.Chronology
import Pacing.Proofs.Flow.Rereading

/-!
# The queue estimate

The estimate is brought into the amount in flight when a sample is taken, and stays as it is until the next one.
The amount in flight does not: acks that only extend a sample lower it, and those that reveal losses do so by more
than one. So it is the amount in flight at the last sample that the estimate keeps within.
-/

namespace Pacing

variable {α : Type} [Scalar α]

open Scalar

namespace Beliefs

/-! ## Advances -/

section advance

variable [DifferenceScalar α] {b : Beliefs α} {elapsed : α}

/-- What is drained is a number unless an infinite throughput meets no time at all. -/
theorem number_drained (hrate : zero < b.minCLambda)
    (h : isFinite b.minCLambda = true ∨ zero < elapsed) : isNaN (b.drained elapsed) = false := by
  have hmax : zero ≤ Scalar.max elapsed zero := le_max_right _ number_zero
  have hwork : zero ≤ b.minCLambda * Scalar.max elapsed zero := by
    rcases h with hfin | hpos
    · exact MonotoneScalar.mul_nonneg hfin hrate hmax
    · have hlt := lt_of_lt_of_le hpos (le_max_left (number_right (Scalar.le_of_lt hpos)) zero)
      exact DifferenceScalar.mul_nonneg_of_pos hrate hlt
  exact number_right (DifferenceScalar.div_nonneg_of_isFinite hwork (LawfulScalar.isFinite_ofNat (by decide))
    ((ofNat_lt_ofNat (by decide) (by decide)).mpr (by decide)))

theorem advanceQueue_within {cumSent m : Nat} (hsent : cumSent < 2 ^ 64) (hm : m < 2 ^ 64)
    (hlow : zero ≤ b.bqBelief2) (hhigh : b.bqBelief2 ≤ ofNat m)
    (hdrained : isNaN (b.drained elapsed) = false) :
    zero ≤ (b.advanceQueue cumSent elapsed).bqBelief2 ∧
      (b.advanceQueue cumSent elapsed).bqBelief2 ≤ ofNat b.bqBelief1 := by
  have hgrown : isFinite (b.bqBelief2 + ofNat (cumSent - b.lastSegsSent)) = true :=
    DifferenceScalar.isFinite_add_ofNat hm (Nat.lt_of_le_of_lt (Nat.sub_le ..) hsent) hlow hhigh
  exact clamp_within (DifferenceScalar.number_sub hgrown hdrained) (DifferenceScalar.zero_le_ofNat _)

end advance

@[simp] theorem bqBelief2_learnBounds (b : Beliefs α) (c : Config α) (h : List (Sample α)) :
    (b.learnBounds c h).bqBelief2 = b.bqBelief2 := by
  unfold learnBounds
  split <;> rfl

end Beliefs

namespace Flow

/-! ## Steps -/

/-- The amount in flight when the last sample was taken, or nothing. -/
def inflightAtSample (ts : List (Transition α)) : Nat :=
  (ts.filter fun t => t.sampled?.isSome).getLast?.elim 0 fun t => t.after.beliefs.bqBelief1

/-- The last ack that was not refused. -/
def lastAccepted? (ts : List (Transition α)) : Option (Transition α) :=
  (ts.filter fun t => t.resolved?.isSome).getLast?

theorem inflightAtSample_concat (ts : List (Transition α)) (t : Transition α) :
    inflightAtSample (ts ++ [t]) =
      if t.sampled?.isSome then t.after.beliefs.bqBelief1 else inflightAtSample ts := by
  unfold inflightAtSample
  cases h : t.sampled?.isSome <;> simp [h]

theorem lastAccepted?_concat (ts : List (Transition α)) (t : Transition α) :
    lastAccepted? (ts ++ [t]) = if t.resolved?.isSome then some t else lastAccepted? ts := by
  unfold lastAccepted?
  cases h : t.resolved?.isSome <;> simp [h]

theorem bqBelief2_repairBounds (g : Flow α) : g.repairBounds.beliefs.bqBelief2 = g.beliefs.bqBelief2 := by
  rw [beliefs_repairBounds_eq]
  split <;> rfl

variable {t : Transition α} {g : Flow α} {s : Segment α}

theorem queue_of_not_sampled (hi : t.event.isInit = false) (hs : t.sampled? = none) :
    t.after.beliefs.bqBelief2 = t.before.beliefs.bqBelief2 ∧
      t.after.beliefs.minCLambda = t.before.beliefs.minCLambda ∧
      (t.resolved? = none → t.after.beliefs.bqBelief1 = t.before.beliefs.bqBelief1) := by
  obtain ⟨f, e⟩ := t
  rcases f.step_cases hi with ⟨-, hkeeps⟩ | ⟨n, r, r', _, _, g, s, rfl, hn, hacc, hflow⟩
  · rcases hkeeps.beliefs with hb | ⟨rtt, hb⟩ <;> simp [Transition.after, hb]
  · have hopen : g.sampleOpen = true := by simpa [Transition.sampled?, hn] using hs
    refine ⟨?_, ?_, fun hnone => ?_⟩
    · rw [Transition.after, hflow, beliefs_recompute, beliefs_updateHistory_of_open hopen, hacc.beliefs]
      rfl
    · rw [Transition.after, hflow, beliefs_recompute, beliefs_updateHistory_of_open hopen, hacc.beliefs]
      rfl
    · cases hnone.symm.trans (ack_of_accepted hn).2

theorem queue_of_sampled (hs : t.sampled? = some (g, s)) :
    t.after.beliefs.bqBelief2 =
        (g.beliefs.advanceQueue g.counters.sent (g.now - g.lastHistoryUpdate)).bqBelief2 ∧
      t.after.beliefs.bqBelief1 = g.beliefs.bqBelief1 ∧
      t.after.beliefs.bqBelief1 = t.after.counters.inflight ∧
      g.beliefs.bqBelief2 = t.before.beliefs.bqBelief2 ∧
      g.beliefs.minCLambda = t.before.beliefs.minCLambda ∧ g.counters.sent = t.before.counters.sent := by
  obtain ⟨f, e⟩ := t
  obtain ⟨n, r, r', he, ha, hopen⟩ := sampled?_eq_some hs
  obtain rfl : e = .ack n r r' := he
  obtain ⟨seq, s₀, -, hacc⟩ := accepts_of_accepted ha
  have hflow : (Transition.after ⟨f, .ack n r r'⟩) = (g.updateHistory s).recompute.1 :=
    (ack_of_accepted ha).1
  have hbooks : (Transition.after ⟨f, .ack n r r'⟩).beliefs.bqBelief1 =
      (Transition.after ⟨f, .ack n r r'⟩).counters.inflight := bqBelief1_ack (ack_of_accepted ha).2
  obtain ⟨rate, hrate⟩ := beliefs_updateHistory_of_closed hopen s
  refine ⟨?_, ?_, hbooks, by rw [hacc.beliefs]; rfl, by rw [hacc.beliefs]; rfl, by rw [hacc.counters]⟩
  · rw [hflow, beliefs_recompute, hrate]
    change (g.merged s).repairBounds.beliefs.bqBelief2 = _
    rw [bqBelief2_repairBounds, merged, Beliefs.bqBelief2_learnBounds]
  · rw [hflow, beliefs_recompute, bqBelief1_updateHistory]

/-! ## Runs -/

/-- The estimate is within what was in flight at the last sample, which is in flight still if no ack came since.
Before the first sample nothing has raised the throughput. -/
structure Queued (c : Config α) (ts : List (Transition α)) (f : Flow α) : Prop where
  fresh : f.history.back? = none → f.beliefs.minCLambda = c.initMinC
  zero_le : zero ≤ f.beliefs.bqBelief2
  le_atSample : f.beliefs.bqBelief2 ≤ ofNat (inflightAtSample ts)
  atSample_le : inflightAtSample ts ≤ ts.length
  atSample_eq : (∀ t, lastAccepted? ts = some t → t.sampled?.isSome = true) →
    inflightAtSample ts = f.beliefs.bqBelief1

namespace Queued

variable {c : Config α} {ts : List (Transition α)}

theorem reset [LawfulScalar α] {f : Flow α} (hf : f.config = c) : Queued c [] f.reset where
  fresh := fun _ => by rw [← hf]; rfl
  zero_le := le_refl number_zero
  le_atSample := le_refl number_zero
  atSample_le := Nat.le_refl 0
  atSample_eq := fun _ => rfl

theorem after_of_not_sampled (h : Queued c ts t.before) (hi : t.event.isInit = false) (hs : t.sampled? = none) :
    Queued c (ts ++ [t]) t.after := by
  obtain ⟨hbq2, hrate, hbq1⟩ := queue_of_not_sampled hi hs
  have hlast : inflightAtSample (ts ++ [t]) = inflightAtSample ts := by rw [inflightAtSample_concat, hs]; rfl
  refine ⟨fun hempty => ?_, ?_, ?_, ?_, ?_⟩
  · rw [hrate]
    refine h.fresh ?_
    rw [Ring.back?_eq_below?] at hempty ⊢
    rcases history_of_not_sampled hi hs with ⟨-, hsame⟩ | ⟨s, -, hext⟩
    · rwa [hsame] at hempty
    · rwa [hext, Ring.below?_modifyBack, Option.map_eq_none_iff] at hempty
  · exact hbq2 ▸ h.zero_le
  · rw [hbq2, hlast]
    exact h.le_atSample
  · rw [hlast, List.length_append]
    exact Nat.le_add_right_of_le h.atSample_le
  · intro hsampled
    rw [lastAccepted?_concat] at hsampled
    cases hres : t.resolved? with
    | none =>
        rw [hres] at hsampled
        rw [hlast, hbq1 hres]
        exact h.atSample_eq hsampled
    | some s =>
        rw [hres] at hsampled
        have htook := hsampled t rfl
        rw [hs] at htook
        cases htook

variable [DifferenceScalar α]

theorem after_of_sampled (hc : c.fault? = none) (hfin : isFinite c.initMinC = true)
    (hlen : (ts ++ [t]).length < 2 ^ 64) (hclock : t.before.Clocked) (hsound : t.before.Sound c)
    (hbooks : Balanced ts t.before) (hafter : Balanced (ts ++ [t]) t.after) (h : Queued c ts t.before)
    (hs : t.sampled? = some (g, s)) : Queued c (ts ++ [t]) t.after := by
  obtain ⟨hbq2, hbq1, hinflight, hbefore, hrate, hsent⟩ := queue_of_sampled hs
  obtain ⟨hrests, hnow, -⟩ := timers_of_sampled hs
  have hsome : t.sampled?.isSome = true := by rw [hs]; rfl
  have hlast : inflightAtSample (ts ++ [t]) = t.after.beliefs.bqBelief1 := by
    rw [inflightAtSample_concat, if_pos hsome]
  have hpos : zero < g.beliefs.minCLambda := by
    rw [hrate]
    exact lt_of_lt_of_le (Config.zero_lt_initMinC hc) hsound.floor
  have hdrained : isNaN (g.beliefs.drained (g.now - g.lastHistoryUpdate)) = false := by
    refine Beliefs.number_drained hpos ?_
    -- The first sample of an epoch may find no time passed, a later one does not.
    cases hx : t.before.history.back? with
    | none => exact .inl (by rw [hrate, h.fresh hx]; exact hfin)
    | some x =>
        rw [Ring.back?_eq_below?] at hx
        have hlt := hclock.lt_time_of_sampled hc hsound.config hsome hx
        rw [hnow, hrests.lastHistoryUpdate]
        exact .inr ((DifferenceScalar.zero_lt_sub hclock.now hclock.lastHistoryUpdate).mpr hlt)
  have hsentAfter := hafter.sent_le
  rw [List.length_append, List.length_singleton] at hlen hsentAfter
  have hmost : inflightAtSample ts < 2 ^ 64 := by
    have := h.atSample_le
    omega
  have hcount : g.counters.sent < 2 ^ 64 := by
    have := hbooks.sent_le
    omega
  obtain ⟨hzero, hle⟩ := Beliefs.advanceQueue_within hcount hmost (hbefore ▸ h.zero_le)
    (hbefore ▸ h.le_atSample) hdrained
  refine ⟨fun hempty => ?_, hbq2 ▸ hzero, ?_, ?_, fun _ => hlast⟩
  · exact absurd hempty (Ring.back?_ne_none (newest_eq hs))
  · rw [hbq2, hlast, hbq1]
    exact hle
  · rw [hlast, hinflight, List.length_append, List.length_singleton, Counters.inflight]
    omega

theorem afterRun (hc : c.fault? = none) (hfin : isFinite c.initMinC = true) (events : List (Event α))
    (hclock : ∀ e ∈ events, e.finiteClock = true) (hlen : events.length < 2 ^ 64) :
    Queued c (epoch c events) (Flow.afterRun c events) := by
  refine (epoch_induction_of (P := fun _ ts f => Balanced ts f ∧ f.Clocked ∧ f.Sound c ∧
    (ts.length < 2 ^ 64 → Queued c ts f)) c ?_ ?_ ?_ events hclock).2.2.2
      (Nat.lt_of_le_of_lt (length_epoch_le c events) hlen)
  · exact ⟨.reset _, .reset (LawfulScalar.isFinite_ofNat (by decide)), .reset hc rfl nofun, fun _ => reset rfl⟩
  · rintro _ ts f hconfig ⟨-, hclocked, hsound, -⟩
    exact ⟨.reset _, .reset hclocked.now, .reset hc hconfig hsound.finite.bootstrap, fun _ => reset hconfig⟩
  · rintro _ ts f e hconfig hi he ⟨hbooks, hclocked, hsound, h⟩
    have hafter := hbooks.step hi
    refine ⟨hafter, hclocked.after (t := ⟨f, e⟩) hi he, hsound.step hc e, fun hlen => ?_⟩
    have h := h (Nat.lt_of_le_of_lt (by simp) hlen)
    cases hs : (⟨f, e⟩ : Transition α).sampled? with
    | none => exact h.after_of_not_sampled (t := ⟨f, e⟩) hi hs
    | some q => exact h.after_of_sampled (t := ⟨f, e⟩) hc hfin hlen hclocked hsound hbooks hafter hs

end Queued

/-- Under a configuration that passes its check, with a finite lower capacity bound and a clock that may step back
but stays finite, the queue estimate is at least zero and at most what was in flight at the last sample. So it is
at most what is in flight in every state in which no ack came since a sample was taken. Counts are words of 64 bits
where the flow runs, so a run is shorter than that. -/
theorem queue_within_inflight_at_sample (c : Config Float) (hc : c.fault? = none)
    (hfin : isFinite c.initMinC = true) (events : List (Event Float))
    (hclock : ∀ e ∈ events, e.finiteClock = true) (hlen : events.length < 2 ^ 64) :
    let f := afterRun c events
    let ts := epoch c events
    zero ≤ f.stats.bqBelief2 ∧ f.stats.bqBelief2 ≤ ofNat (inflightAtSample ts) ∧
      ((∀ t, lastAccepted? ts = some t → t.sampled?.isSome = true) →
        f.stats.bqBelief2 ≤ ofNat f.stats.inflight) := by
  intro f ts
  have h : Queued c ts f := .afterRun hc hfin events hclock hlen
  refine ⟨h.zero_le, h.le_atSample, fun hlast => ?_⟩
  have hle := h.le_atSample
  rw [h.atSample_eq hlast] at hle
  exact hle

/-- After the second sample, some of the only segment in flight is believed to be in the queue. -/
theorem queue_within_inflight_at_second_sample :
    let c : Config Float := .standard
    let zero : Float := Scalar.zero
    let events : List (Event Float) :=
      [.sent 0, .sent 1, .clock (ofNat 20), .ack 1 zero zero, .clock (ofNat 10), .clock (ofNat 300), .sent 2,
        .ack 2 zero zero]
    let f := afterRun c events
    let ts := epoch c events
    c.fault? = none ∧ isFinite c.initMinC = true ∧ (∀ e ∈ events, e.finiteClock = true) ∧
      events.length < 2 ^ 64 ∧ f.stats.inflight = 1 ∧ Scalar.zero < f.stats.bqBelief2 ∧
      (∀ t, lastAccepted? ts = some t → t.sampled?.isSome = true) ∧
      Scalar.zero ≤ f.stats.bqBelief2 ∧ f.stats.bqBelief2 ≤ ofNat (inflightAtSample ts) ∧
      f.stats.bqBelief2 ≤ ofNat f.stats.inflight := by
  intro c zero events f ts
  have hc : c.fault? = none := by decide +kernel
  have hfin : isFinite c.initMinC = true := by decide +kernel
  have hclock : ∀ e ∈ events, e.finiteClock = true := by decide +kernel
  have hlen : events.length < 2 ^ 64 := by decide
  have hlast : (lastAccepted? ts).all (·.sampled?.isSome) = true := by decide +kernel
  obtain ⟨hzero, hle, hnow⟩ := queue_within_inflight_at_sample c hc hfin events hclock hlen
  have hsampled : ∀ t, lastAccepted? ts = some t → t.sampled?.isSome = true := fun t ht => by
    rwa [ht] at hlast
  exact ⟨hc, hfin, hclock, hlen, by decide +kernel, by decide +kernel, hsampled, hzero, hle, hnow hsampled⟩

/-- The second of two acks at once extends the sample of the first. It lowers the amount in flight to nothing and
leaves the queue estimate at one segment. -/
theorem queue_above_inflight_while_open :
    let c : Config Float := .standard
    let zero : Float := Scalar.zero
    let events : List (Event Float) :=
      [.sent 0, .sent 1, .clock (ofNat 20), .ack 1 zero zero, .ack 2 zero zero]
    let f := afterRun c events
    c.fault? = none ∧ isFinite c.initMinC = true ∧ (∀ e ∈ events, e.finiteClock = true) ∧
      f.stats.inflight = 0 ∧ f.stats.bqBelief2 = ofNat 1 ∧ ¬ f.stats.bqBelief2 ≤ ofNat f.stats.inflight := by
  decide +kernel

end Flow

end Pacing

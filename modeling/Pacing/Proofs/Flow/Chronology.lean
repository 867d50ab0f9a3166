import Pacing.Proofs.Flow.Timers
import Pacing.Proofs.Ledger.Conservation

/-!
# Order of the history

Time, deliveries and sends grow from sample to sample, even if the clock steps back: a step back only puts the
next sample off. So every window of the history has a positive length, and no count is taken from a lesser one.
-/

namespace Pacing

variable {α : Type} [Scalar α]

open Scalar

namespace Sample

/-- One sample was taken before another. -/
@[mk_iff]
structure Before (st et : Sample α) : Prop where
  tstamp : st.tstamp < et.tstamp
  cumDelivered : st.cumDelivered < et.cumDelivered
  cumSent : st.cumSent ≤ et.cumSent

/-- A sample as it should be `depth` below the newest one. -/
structure WellFormed (b : Beliefs α) (c : Config α) (depth : Nat) (st : Sample α) : Prop where
  le_minRtt : b.minRtt ≤ st.minRtt
  minRtt_le_maxRtt : st.minRtt ≤ st.maxRtt
  counts : st.cumDelivered + st.cumLost ≤ st.cumSent
  anchor : st.cumDeliveredAtSend < st.cumDelivered
  processed : st.processed = true → c.measurementSpan ≤ depth

/-- What a flow knows now was not known less when a sample was taken. -/
structure Past (f : Flow α) (st : Sample α) : Prop where
  finite : isFinite st.tstamp = true
  tstamp : st.tstamp ≤ f.lastHistoryUpdate
  cumDelivered : st.cumDelivered ≤ f.counters.delivered
  cumSent : st.cumSent ≤ f.counters.sent

variable {st st' et et' : Sample α}

theorem before_congr (hst : st.Later st') (het : et.Later et') : st'.Before et' ↔ st.Before et := by
  rw [before_iff, before_iff, hst.tstamp, hst.cumDelivered, hst.cumSent, het.tstamp, het.cumDelivered, het.cumSent]

theorem Past.later {f : Flow α} (h : st.Past f) (hst : st.Later st') : st'.Past f where
  finite := by rw [hst.tstamp]; exact h.finite
  tstamp := by rw [hst.tstamp]; exact h.tstamp
  cumDelivered := by rw [hst.cumDelivered]; exact h.cumDelivered
  cumSent := by rw [hst.cumSent]; exact h.cumSent

variable [LawfulScalar α]

/-- No threshold makes an interval both busy and idle. -/
theorem not_utilized_and_underutilized (h : st.minRtt ≤ st.maxRtt) (threshold : α) :
    ¬ (st.isUtilized threshold = true ∧ st.isUnderutilized threshold = true) := by
  rintro ⟨hbusy, hidle⟩
  simp only [isUtilized, isUnderutilized, Bool.or_eq_true, Bool.and_eq_true, decide_eq_true_eq,
    beq_iff_eq] at hbusy hidle
  rcases hbusy with hslow | hlost
  · exact not_ge_of_lt hslow (Scalar.le_trans h hidle.1)
  · omega

namespace WellFormed

variable {b b' : Beliefs α} {c : Config α} {depth : Nat}

/-- A round-trip time taken in lowers the belief, and nothing else does. -/
theorem lower (h : st.WellFormed b c depth) (hle : b'.minRtt ≤ b.minRtt) : st.WellFormed b' c depth :=
  { h with le_minRtt := Scalar.le_trans hle h.le_minRtt }

theorem extend (h : st.WellFormed b c depth) {rtt : α} (hle : b.minRtt ≤ rtt) :
    (st.extend rtt).WellFormed b c depth where
  le_minRtt := le_min h.le_minRtt hle
  minRtt_le_maxRtt :=
    Scalar.le_trans (min_le_left (number_left h.minRtt_le_maxRtt) rtt)
      (Scalar.le_trans h.minRtt_le_maxRtt (le_max_left (number_right h.minRtt_le_maxRtt) rtt))
  counts := h.counts
  anchor := h.anchor
  processed := h.processed

end WellFormed

end Sample

namespace Flow

variable {t : Transition α} {g : Flow α} {s : Segment α}

/-! ## Steps -/

theorem sent_le_after (hi : t.event.isInit = false) : t.before.counters.sent ≤ t.after.counters.sent := by
  obtain ⟨f, e⟩ := t
  cases e with
  | init => cases hi
  | sent seq =>
      simp only [Transition.after, step, sent, counters_recompute, recordSent]
      split
      · exact Nat.le_succ _
      · exact Nat.le_refl _
  | ack n r r' =>
      simp only [Transition.after, step]
      obtain ⟨-, a, ha⟩ | ⟨_, _, _, _, _, -, hacc, hflow, -⟩ := f.ack_cases n
      · exact Nat.le_of_eq (by rw [ha]; rfl)
      · exact Nat.le_of_eq (by rw [hflow, counters_recompute, counters_updateHistory, hacc.counters])
  | minRtt rtt =>
      simp only [Transition.after, step, setMinRtt]
      split <;> exact Nat.le_refl _
  | _ => exact Nat.le_refl _

/-- The round-trip time of an acked segment is a number, and the belief is at most that. -/
theorem minRtt_le_of_resolved [LawfulScalar α] (hi : t.event.isInit = false) (h : t.resolved? = some s) :
    t.after.beliefs.minRtt ≤ s.rtt := by
  have hrtt : t.rtt? = some s.rtt := by
    obtain ⟨f, e⟩ := t
    cases e with
    | ack n r r' => rw [Transition.rtt?, h]; rfl
    | _ => cases h
  have hmin := minRtt_after t hi
  rw [hrtt] at hmin
  rw [hmin]
  exact min_le_right _ (number_right (zero_le_rtt hrtt))

theorem minRtt_after_le [LawfulScalar α] (hi : t.event.isInit = false)
    (hnum : isNaN t.before.beliefs.minRtt = false) : t.after.beliefs.minRtt ≤ t.before.beliefs.minRtt := by
  rw [minRtt_after t hi]
  split
  · exact le_refl hnum
  · exact min_le_left hnum _

/-- A pass marks a sample only where as many newer ones as a window spans are there. -/
theorem span_le_of_mem_usedBy {depth : Nat} (h : depth ∈ g.usedBy s) : g.config.measurementSpan ≤ depth := by
  obtain ⟨w, hw, rfl, -⟩ := Beliefs.used_pass h
  exact (Beliefs.below?_of_mem_windows hw).1

/-! ## Runs -/

/-- The history of a flow is in order, and each of its samples as it should be. -/
structure Chronicled (c : Config α) (f : Flow α) : Prop where
  clocked : f.Clocked
  anchored : ∀ seq s, f.ledger.find? seq = some s → s.cumDeliveredAtSend ≤ f.counters.delivered
  past : ∀ depth st, f.history.below? depth = some st → st.Past f
  ordered : ∀ depth depth' st st', depth < depth' → f.history.below? depth = some st →
    f.history.below? depth' = some st' → st'.Before st
  wellFormed : ∀ depth st, f.history.below? depth = some st → st.WellFormed f.beliefs c depth

namespace Chronicled

variable {c : Config α}

theorem reset {f : Flow α} (h : isFinite f.now = true) : f.reset.Chronicled c := by
  refine ⟨.reset h, ?_, ?_, ?_, ?_⟩
  · intro seq s hs
    cases hs
  · intro depth st hst
    cases (below?_reset f depth).symm.trans hst
  · intro depth _ st _ _ hst _
    cases (below?_reset f depth).symm.trans hst
  · intro depth st hst
    cases (below?_reset f depth).symm.trans hst

theorem anchored_after (h : t.before.Chronicled c) (hi : t.event.isInit = false) :
    ∀ seq s, t.after.ledger.find? seq = some s → s.cumDeliveredAtSend ≤ t.after.counters.delivered := by
  intro seq s hs
  have hgrown := delivered_le_after hi
  rcases segment_after hi hs with ⟨-, hanchor⟩ | ⟨-, s₀, hs₀, hanchor⟩
  · omega
  · have := h.anchored seq s₀ hs₀
    omega

theorem wellFormed_newSample [LawfulScalar α] (h : t.before.Chronicled c)
    (hbooks : t.after.counters.delivered + t.after.counters.lost ≤ t.after.counters.sent)
    (hs : t.sampled? = some (g, s)) : (g.newSample s).WellFormed t.after.beliefs c 0 := by
  obtain ⟨-, hcounters, -, hdelivered⟩ := after_of_sampled hs
  obtain ⟨n, r, r', he, ha, -⟩ := sampled?_eq_some hs
  obtain ⟨seq, s₀, -, hacc⟩ := accepts_of_accepted ha
  have hle := minRtt_le_of_resolved (congrArg Event.isInit he) (resolved?_of_sampled hs)
  refine ⟨hle, le_refl (number_right hle), ?_, ?_, nofun⟩
  · change g.counters.delivered + g.counters.lost ≤ g.counters.sent
    rwa [← hcounters]
  · change s.cumDeliveredAtSend < g.counters.delivered
    rw [hacc.anchor, hdelivered]
    exact Nat.lt_succ_of_le (h.anchored seq s₀ hacc.find)

theorem wellFormed_after [LawfulScalar α] (h : t.before.Chronicled c) (hconfig : t.before.config = c)
    (hi : t.event.isInit = false)
    (hbooks : t.after.counters.delivered + t.after.counters.lost ≤ t.after.counters.sent) :
    ∀ depth st, t.after.history.below? depth = some st → st.WellFormed t.after.beliefs c depth := by
  have hlower {depth : Nat} {st : Sample α} (hst : t.before.history.below? depth = some st) :
      st.WellFormed t.after.beliefs c depth := by
    have hwell := h.wellFormed depth st hst
    exact hwell.lower (minRtt_after_le hi (number_left hwell.le_minRtt))
  intro depth st' hst'
  cases hs : t.sampled? with
  | none =>
      rcases history_of_not_sampled hi hs with ⟨-, hsame⟩ | ⟨s, hres, hext⟩
      · exact hlower (hsame ▸ hst')
      · rw [hext, Ring.below?_modifyBack, Option.map_eq_some_iff] at hst'
        obtain ⟨st, hst, rfl⟩ := hst'
        split
        · exact (hlower hst).extend (minRtt_le_of_resolved hi hres)
        · exact hlower hst
  | some q =>
      obtain ⟨g, s⟩ := q
      cases depth with
      | zero =>
          cases (newest_eq hs).symm.trans hst'
          exact h.wellFormed_newSample hbooks hs
      | succ depth =>
          rw [below?_of_sampled hs, history_merged hs, Option.map_eq_some_iff] at hst'
          obtain ⟨st, hst, rfl⟩ := hst'
          have hwell := hlower (Ring.below?_of_push hst)
          split
          · rename_i hused
            have hspan := span_le_of_mem_usedBy hused
            rw [(timers_of_sampled hs).1.config, hconfig] at hspan
            exact { hwell with processed := fun _ => hspan }
          · exact { hwell with processed := fun hp => Nat.le_succ_of_le (hwell.processed hp) }

theorem pairwise_before {f : Flow α} (h : f.Chronicled c) : f.history.toList.Pairwise Sample.Before := by
  rw [← List.reverse_reverse f.history.toList, List.pairwise_reverse, List.pairwise_iff_getElem]
  intro i j hi hj hlt
  exact h.ordered i j _ _ hlt (List.getElem?_eq_getElem hi) (List.getElem?_eq_getElem hj)

variable [DifferenceScalar α]

theorem past_after (h : t.before.Chronicled c) (hc : c.fault? = none) (hconfig : t.before.config = c)
    (hi : t.event.isInit = false) :
    ∀ depth st, t.after.history.below? depth = some st → st.Past t.after := by
  have hdelivered := delivered_le_after hi
  have hsent := sent_le_after hi
  have hupdate := lastHistoryUpdate_after hi
  intro depth st' hst'
  cases hs : t.sampled? with
  | none =>
      obtain ⟨st, hst, hlater⟩ := (below?_after hi).1 hs hst'
      have hpast := (h.past depth st hst).later hlater
      rw [hs] at hupdate
      exact ⟨hpast.finite, hupdate ▸ hpast.tstamp, hpast.cumDelivered.trans hdelivered,
        hpast.cumSent.trans hsent⟩
  | some q =>
      obtain ⟨g, s⟩ := q
      rw [hs] at hupdate
      cases depth with
      | zero =>
          cases (newest_eq hs).symm.trans hst'
          have htime := tstamp_newSample hs
          have hcounters := (after_of_sampled hs).2.1
          refine ⟨htime ▸ h.clocked.now, ?_, ?_, ?_⟩
          · rw [hupdate, htime]
            exact le_refl (LawfulScalar.number_of_isFinite h.clocked.now)
          · rw [hcounters]
            exact Nat.le_refl _
          · rw [hcounters]
            exact Nat.le_refl _
      | succ depth =>
          -- Where a sample joins others the clock has passed the newest of them.
          have hsome : t.sampled?.isSome = true := by rw [hs]; rfl
          obtain ⟨st, hst, hlater⟩ := (below?_after hi).2 hsome hst'
          have hpast := (h.past depth st hst).later hlater
          have hlt := h.clocked.lt_time_of_sampled hc hconfig hsome hst
          exact ⟨hpast.finite, hupdate ▸ Scalar.le_trans hpast.tstamp (Scalar.le_of_lt hlt),
            hpast.cumDelivered.trans hdelivered, hpast.cumSent.trans hsent⟩

theorem ordered_after (h : t.before.Chronicled c) (hc : c.fault? = none) (hconfig : t.before.config = c)
    (hi : t.event.isInit = false) :
    ∀ depth depth' st st', depth < depth' → t.after.history.below? depth = some st →
      t.after.history.below? depth' = some st' → st'.Before st := by
  intro depth depth' et' st' hlt het' hst'
  cases hs : t.sampled? with
  | none =>
      obtain ⟨et, het, hetLater⟩ := (below?_after hi).1 hs het'
      obtain ⟨st, hst, hstLater⟩ := (below?_after hi).1 hs hst'
      exact (Sample.before_congr hstLater hetLater).mpr (h.ordered depth depth' et st hlt het hst)
  | some q =>
      obtain ⟨g, s⟩ := q
      have hsome : t.sampled?.isSome = true := by rw [hs]; rfl
      obtain ⟨depth', rfl⟩ := Nat.exists_eq_add_one.mpr (Nat.zero_lt_of_lt hlt)
      obtain ⟨st, hst, hstLater⟩ := (below?_after hi).2 hsome hst'
      cases depth with
      | zero =>
          cases (newest_eq hs).symm.trans het'
          have hpast := (h.past depth' st hst).later hstLater
          have htime := tstamp_newSample hs
          have hdelivered := delivered_of_sampled hsome
          have hsent := sent_le_after hi
          rw [(after_of_sampled hs).2.1] at hdelivered hsent
          refine ⟨?_, ?_, hpast.cumSent.trans hsent⟩
          · rw [htime]
            exact Scalar.lt_of_le_of_lt hpast.tstamp (h.clocked.lt_time_of_sampled hc hconfig hsome hst)
          · exact Nat.lt_of_le_of_lt hpast.cumDelivered (Nat.lt_of_lt_of_eq (Nat.lt_succ_self _) hdelivered.symm)
      | succ depth =>
          obtain ⟨et, het, hetLater⟩ := (below?_after hi).2 hsome het'
          exact (Sample.before_congr hstLater hetLater).mpr
            (h.ordered depth depth' et st (Nat.lt_of_succ_lt_succ hlt) het hst)

theorem after (h : t.before.Chronicled c) (hc : c.fault? = none) (hconfig : t.before.config = c)
    (hi : t.event.isInit = false) (he : t.event.finiteClock = true)
    (hbooks : t.after.counters.delivered + t.after.counters.lost ≤ t.after.counters.sent) :
    t.after.Chronicled c where
  clocked := h.clocked.after hi he
  anchored := h.anchored_after hi
  past := h.past_after hc hconfig hi
  ordered := h.ordered_after hc hconfig hi
  wellFormed := h.wellFormed_after hconfig hi hbooks

theorem afterRun (hc : c.fault? = none) (events : List (Event α))
    (hfin : ∀ e ∈ events, e.finiteClock = true) : (Flow.afterRun c events).Chronicled c := by
  refine (epoch_induction_of (P := fun _ ts f => Balanced ts f ∧ f.Chronicled c) c ?_ ?_ ?_ events hfin).2
  · exact ⟨.reset _, reset (LawfulScalar.isFinite_ofNat (by decide))⟩
  · rintro _ ts f - ⟨-, h⟩
    exact ⟨.reset _, reset h.clocked.now⟩
  · rintro _ ts f e hconfig hi he ⟨hbalanced, h⟩
    have hafter := hbalanced.step hi
    refine ⟨hafter, h.after (t := ⟨f, e⟩) hc hconfig hi he ?_⟩
    have hsent := hafter.sent
    change (f.step e).1.counters.delivered + (f.step e).1.counters.lost ≤ (f.step e).1.counters.sent
    omega

/-! ### Windows -/

/-- What an ack learns from is in order, since it only sets marks on it. -/
theorem of_merged (h : t.after.Chronicled c) (hs : t.sampled? = some (g, s)) {depth depth' : Nat}
    {et st : Sample α} (hlt : depth < depth') (het : (g.merged s).history.below? depth = some et)
    (hst : (g.merged s).history.below? depth' = some st) :
    st.Before et ∧ zero < et.tstamp - st.tstamp := by
  have hmark {d : Nat} {x : Sample α} (hx : (g.merged s).history.below? d = some x) :
      ∃ x', t.after.history.below? d = some x' ∧ x.Later x' := by
    refine ⟨_, by rw [below?_of_sampled hs, hx]; rfl, ?_⟩
    split
    · exact ⟨rfl, rfl, rfl, fun _ => rfl⟩
    · exact .refl x
  obtain ⟨et', het', hetLater⟩ := hmark het
  obtain ⟨st', hst', hstLater⟩ := hmark hst
  have hbefore := (Sample.before_congr hstLater hetLater).mp (h.ordered depth depth' et' st' hlt het' hst')
  have hetFinite := (h.past depth et' het').finite
  have hstFinite := (h.past depth' st' hst').finite
  rw [hetLater.tstamp] at hetFinite
  rw [hstLater.tstamp] at hstFinite
  exact ⟨hbefore, (DifferenceScalar.zero_lt_sub hetFinite hstFinite).mpr hbefore.tstamp⟩

theorem of_scanned (h : t.after.Chronicled c) (hs : t.sampled? = some (g, s)) {et st : Sample α}
    {older : List (Sample α)} (hscan : g.scanned s = et :: older) (hst : st ∈ older) :
    st.Before et ∧ zero < et.tstamp - st.tstamp := by
  obtain ⟨i, hi⟩ := List.getElem?_of_mem hst
  have hbelow (d : Nat) : (g.merged s).history.below? d = (et :: older)[d]? := by
    rw [← hscan]
    rfl
  exact h.of_merged hs (Nat.zero_lt_succ i) (hbelow 0) (by rw [hbelow, List.getElem?_cons_succ, hi])

theorem of_mem_windows (h : t.after.Chronicled c) (hs : t.sampled? = some (g, s)) {b : Beliefs α}
    {w : Beliefs.Window α} (hw : w ∈ b.windows c (g.merged s).history.toList) :
    w.st.Before w.et ∧ zero < w.length := by
  obtain ⟨hspan, hst, het, -⟩ := Beliefs.below?_of_mem_windows hw
  have hpos := c.zero_lt_measurementSpan
  exact h.of_merged hs (by omega) het hst

end Chronicled

/-- Under a configuration that passes its check and with a clock that may step back but stays finite, the history
is in order and each sample in it is as it should be, so that no interval counts as both busy and idle. Whatever
the event, the windows that the bounds are learnt from, and those that the throughput is learnt from, have a
positive length, and no count at their ends is less than that at their starts. -/
theorem history_chronological (c : Config Float) (hc : c.fault? = none) (events : List (Event Float))
    (hfin : ∀ e ∈ events, e.finiteClock = true) :
    let f := afterRun c events
    f.history.toList.Pairwise Sample.Before ∧
      (∀ depth st, f.history.below? depth = some st → st.WellFormed f.beliefs c depth ∧
        ∀ threshold, ¬ (st.isUtilized threshold = true ∧ st.isUnderutilized threshold = true)) ∧
      ∀ e g s, (⟨f, e⟩ : Transition Float).sampled? = some (g, s) →
        (∀ et older, g.scanned s = et :: older → ∀ st ∈ older,
          st.cumDelivered ≤ et.cumDelivered ∧ zero < et.tstamp - st.tstamp) ∧
        ∀ b, ∀ w ∈ Beliefs.windows b c (g.merged s).history.toList,
          w.st.cumSent ≤ w.et.cumSent ∧ zero < w.length := by
  intro f
  have h : f.Chronicled c := .afterRun hc events hfin
  refine ⟨h.pairwise_before, fun depth st hst => ?_, fun e g s hs => ?_⟩
  · have hwell := h.wellFormed depth st hst
    exact ⟨hwell, Sample.not_utilized_and_underutilized hwell.minRtt_le_maxRtt⟩
  · obtain ⟨n, r, r', he, -⟩ := sampled?_eq_some hs
    obtain rfl : e = .ack n r r' := he
    have hafter : (⟨f, .ack n r r'⟩ : Transition Float).after.Chronicled c := by
      have hrun := Chronicled.afterRun hc (events ++ [.ack n r r'])
        (List.forall_mem_append.mpr ⟨hfin, List.forall_mem_singleton.mpr rfl⟩)
      rwa [afterRun_concat] at hrun
    constructor
    · intro et older hscan st hst
      obtain ⟨hbefore, hpos⟩ := hafter.of_scanned hs hscan hst
      exact ⟨Nat.le_of_lt hbefore.cumDelivered, hpos⟩
    · intro b w hw
      obtain ⟨hbefore, hpos⟩ := hafter.of_mem_windows hs hw
      exact ⟨hbefore.cumSent, hpos⟩

/-- Four rounds with a step back of the clock in between. The last ack finds one sample marked and learns from the
next one. -/
theorem history_chronological_in_four_rounds :
    let c : Config Float := .standard
    let zero : Float := Scalar.zero
    let events : List (Event Float) :=
      [.sent 0, .clock (ofNat 20), .ack 1 zero zero, .sent 1, .clock (ofNat 40), .ack 2 zero zero, .sent 2,
        .clock (ofNat 5), .clock (ofNat 60), .ack 3 zero zero, .sent 3, .clock (ofNat 80)]
    let f := afterRun c events
    let t : Transition Float := ⟨f, .ack 4 zero zero⟩
    c.fault? = none ∧ (∀ e ∈ events, e.finiteClock = true) ∧
      f.history.toList.map (·.processed) = [true, false, false] ∧ t.learntFrom.map (·.depth) = [2] ∧
      f.history.toList.Pairwise Sample.Before ∧
      (∀ depth st, f.history.below? depth = some st → st.WellFormed f.beliefs c depth) ∧
      ∀ g s, t.sampled? = some (g, s) → ∀ b, ∀ w ∈ Beliefs.windows b c (g.merged s).history.toList,
        w.st.cumSent ≤ w.et.cumSent ∧ Scalar.zero < w.length := by
  intro c zero events f t
  have hc : c.fault? = none := by decide +kernel
  have hfin : ∀ e ∈ events, e.finiteClock = true := by decide +kernel
  obtain ⟨hordered, hwell, hwindows⟩ := history_chronological c hc events hfin
  refine ⟨hc, hfin, by decide +kernel, by decide +kernel, hordered, fun depth st hst => (hwell depth st hst).1, ?_⟩
  exact fun g s hs => (hwindows _ g s hs).2

end Flow

end Pacing

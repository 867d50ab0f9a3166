import Pacing.Proofs.Flow.History

/-!
# Causality of the throughput

A pass compares the delivered count of a sample with the one that the acked segment carries from its send.
Both are snapshots of a count that only grows within an epoch, and grows with each sample: so the comparison
tells which came first. A mark on a sample stays, so that no window is used again.
-/

namespace Pacing

variable {α : Type} [Scalar α]

open Transition

namespace Flow

/-- The transitions of the current epoch with their places in the run, latest first. -/
def recent (c : Config α) (events : List (Event α)) : List (Transition α × Nat) :=
  ((start c).transitions events).zipIdx.reverse.takeWhile fun p => !p.1.event.isInit

/-- The place in the run of the ack that took the sample now `depth` below the newest. -/
def takenAt (c : Config α) (events : List (Event α)) (depth : Nat) : Option Nat :=
  ((recent c events).filter fun p => p.1.sampled?.isSome)[depth]?.map (·.2)

/-- The place in the run of the last send that entered a segment. -/
def sentAt (c : Config α) (events : List (Event α)) (seq : Nat) : Option Nat :=
  ((recent c events).find? fun p => p.1.enters seq).map (·.2)

theorem recent_concat (c : Config α) (events : List (Event α)) (e : Event α) :
    recent c (events ++ [e]) =
      if e.isInit then [] else (⟨afterRun c events, e⟩, events.length) :: recent c events := by
  rw [recent, transitions_concat, List.zipIdx_append, length_transitions]
  cases h : e.isInit <;> simp [recent, afterRun, h]

/-! ## Places -/

/-- The places and counts that an epoch of `n` events so far has given to samples and segments. -/
structure Dated (ps : List (Transition α × Nat)) (f : Flow α) (n : Nat) : Prop where
  place : ∀ p ∈ ps, p.2 < n
  calm : ∀ p ∈ ps, p.1.event.isInit = false
  delivered : ∀ p ∈ ps, p.1.after.counters.delivered ≤ f.counters.delivered
  ordered : ps.Pairwise fun q p => p.2 < q.2 ∧ p.1.after.counters.delivered ≤ q.1.before.counters.delivered
  sample : ∀ d st, f.history.below? d = some st →
    ∃ p, (ps.filter fun p => p.1.sampled?.isSome)[d]? = some p ∧
      st.cumDelivered = p.1.after.counters.delivered
  segment : ∀ seq s, f.ledger.find? seq = some s →
    ∃ p, ps.find? (fun p => p.1.enters seq) = some p ∧ s.cumDeliveredAtSend = p.1.before.counters.delivered

namespace Dated

theorem reset (f : Flow α) (n : Nat) : Dated [] f.reset n where
  place := List.forall_mem_nil _
  calm := List.forall_mem_nil _
  delivered := List.forall_mem_nil _
  ordered := .nil
  sample := fun d st h => by
    have hclear : f.reset.history.below? d = none := Ring.below?_clear ..
    cases hclear.symm.trans h
  segment := fun seq s h => by
    have hclear : f.reset.ledger.find? seq = none := rfl
    cases hclear.symm.trans h

variable {ps : List (Transition α × Nat)} {n : Nat} {t : Transition α}

theorem step (h : Dated ps t.before n) (hi : t.event.isInit = false) :
    Dated ((t, n) :: ps) t.after (n + 1) where
  place := List.forall_mem_cons.mpr ⟨Nat.lt_succ_self n, fun p hp => Nat.lt_succ_of_lt (h.place p hp)⟩
  calm := List.forall_mem_cons.mpr ⟨hi, h.calm⟩
  delivered := List.forall_mem_cons.mpr
    ⟨Nat.le_refl _, fun p hp => Nat.le_trans (h.delivered p hp) (delivered_le_after hi)⟩
  ordered := List.pairwise_cons.mpr ⟨fun p hp => ⟨h.place p hp, h.delivered p hp⟩, h.ordered⟩
  sample := by
    intro d st hst
    cases hs : t.sampled?.isSome with
    | false =>
        obtain ⟨st₀, hst₀, hlater⟩ := (below?_after hi).1 (Option.not_isSome_iff_eq_none.mp (by simp [hs])) hst
        rw [List.filter_cons_of_neg (by simp [hs]), hlater.cumDelivered]
        exact h.sample d st₀ hst₀
    | true =>
        -- A new sample takes the others one place down, in the history as in the list of places.
        rw [List.filter_cons_of_pos (by simp [hs])]
        cases d with
        | zero => exact ⟨(t, n), rfl, (newest_of_sampled hs hst).2⟩
        | succ d =>
            obtain ⟨st₀, hst₀, hlater⟩ := (below?_after hi).2 hs hst
            rw [List.getElem?_cons_succ, hlater.cumDelivered]
            exact h.sample d st₀ hst₀
  segment := by
    intro seq s hs
    rcases segment_after hi hs with ⟨henters, hanchor⟩ | ⟨henters, s₀, hs₀, hanchor⟩
    · exact ⟨(t, n), List.find?_cons_of_pos henters, hanchor⟩
    · rw [List.find?_cons_of_neg (by simp [henters]), hanchor]
      exact h.segment seq s₀ hs₀

theorem afterRun (c : Config α) (events : List (Event α)) :
    Dated (recent c events) (Flow.afterRun c events) events.length := by
  induction events using List.reverseRecOn with
  | nil => exact reset ..
  | append_singleton events e ih =>
      rw [recent_concat, afterRun_concat, List.length_append, List.length_singleton]
      cases h : e.isInit with
      | true =>
          cases e <;> cases h
          exact reset ..
      | false => exact ih.step (t := ⟨Flow.afterRun c events, e⟩) h

theorem before_or_after {f : Flow α} {p q : Transition α × Nat} (h : Dated ps f n) (hp : p ∈ ps)
    (hq : q ∈ ps) (hne : p ≠ q) :
    (p.2 < q.2 ∧ p.1.after.counters.delivered ≤ q.1.before.counters.delivered) ∨
      (q.2 < p.2 ∧ q.1.after.counters.delivered ≤ p.1.before.counters.delivered) := by
  let apart (p q : Transition α × Nat) :=
    (p.2 < q.2 ∧ p.1.after.counters.delivered ≤ q.1.before.counters.delivered) ∨
      (q.2 < p.2 ∧ q.1.after.counters.delivered ≤ p.1.before.counters.delivered)
  have hsymm : Std.Symm apart := ⟨fun _ _ => Or.symm⟩
  have hapart : ps.Pairwise apart := h.ordered.imp Or.inr
  exact hapart.forall hp hq hne

/-- A send that found as much delivered as a sample counts came after that sample. -/
theorem lt_of_delivered_le {f : Flow α} {p q : Transition α × Nat} (h : Dated ps f n) (hp : p ∈ ps)
    (hq : q ∈ ps) (hsample : p.1.sampled?.isSome = true) {seq : Nat} (henters : q.1.enters seq = true)
    (hle : p.1.after.counters.delivered ≤ q.1.before.counters.delivered) : p.2 < q.2 := by
  have hne : p ≠ q := by
    rintro rfl
    obtain ⟨⟨g, s⟩, hs⟩ := Option.isSome_iff_exists.mp hsample
    obtain ⟨m, r, r', he, -⟩ := sampled?_eq_some hs
    rw [enters, he] at henters
    cases henters
  rcases h.before_or_after hp hq hne with hlt | ⟨-, hearlier⟩
  · exact hlt.1
  · -- Had the send come first, the sample would count more than the send found.
    have hgrown := delivered_of_sampled hsample
    have hkept := delivered_le_after (h.calm q hq)
    omega

end Dated

section places

variable {c : Config α} {events : List (Event α)} {e : Event α} {depth i : Nat}

theorem takenAt_concat (hi : e.isInit = false) :
    takenAt c (events ++ [e]) depth =
      if (⟨afterRun c events, e⟩ : Transition α).sampled?.isSome then
        match depth with
        | 0 => some events.length
        | d + 1 => takenAt c events d
      else takenAt c events depth := by
  rw [takenAt, recent_concat, hi]
  by_cases hs : (⟨afterRun c events, e⟩ : Transition α).sampled?.isSome = true
  · rw [if_pos hs, if_neg Bool.false_ne_true, List.filter_cons_of_pos (by simpa using hs)]
    cases depth <;> rfl
  · rw [if_neg hs, if_neg Bool.false_ne_true, List.filter_cons_of_neg (by simpa using hs)]
    rfl

theorem takenAt_lt (h : takenAt c events depth = some i) : i < events.length := by
  obtain ⟨p, hp, rfl⟩ := Option.map_eq_some_iff.mp h
  exact (Dated.afterRun c events).place p (List.mem_of_mem_filter (List.mem_of_getElem? hp))

theorem takenAt_init (hi : e.isInit = true) : takenAt c (events ++ [e]) depth = none := by
  rw [takenAt, recent_concat, hi]
  rfl

theorem takenAt_inj {depth' : Nat} (h : takenAt c events depth = some i)
    (h' : takenAt c events depth' = some i) : depth = depth' := by
  let places := ((recent c events).filter fun p => p.1.sampled?.isSome).map (·.2)
  have hplaces (d : Nat) : takenAt c events d = places[d]? := List.getElem?_map.symm
  have hnodup : places.Nodup := by
    refine List.pairwise_map.mpr (((Dated.afterRun c events).ordered.filter _).imp fun hlt => ?_)
    exact (Nat.ne_of_lt hlt.1).symm
  rw [hplaces] at h h'
  exact (List.getElem?_inj (List.getElem?_eq_some_iff.mp h).1 hnodup).mp (h.trans h'.symm)

theorem takenAt_lt_of_lt {depth' j : Nat} (hd : depth < depth') (h : takenAt c events depth = some i)
    (h' : takenAt c events depth' = some j) : j < i := by
  obtain ⟨p, hp, rfl⟩ := Option.map_eq_some_iff.mp h
  obtain ⟨q, hq, rfl⟩ := Option.map_eq_some_iff.mp h'
  obtain ⟨hlen, rfl⟩ := List.getElem?_eq_some_iff.mp hp
  obtain ⟨hlen', rfl⟩ := List.getElem?_eq_some_iff.mp hq
  have hordered := (Dated.afterRun c events).ordered.filter fun p => p.1.sampled?.isSome
  exact (List.pairwise_iff_getElem.mp hordered _ _ hlen hlen' hd).1

/-- A sample that is still held was held before, unless the event took it. -/
theorem below?_of_takenAt {st' : Sample α} (ht : takenAt c (events ++ [e]) depth = some i)
    (hst : (afterRun c (events ++ [e])).history.below? depth = some st') (hlt : i < events.length) :
    ∃ d st, takenAt c events d = some i ∧ (afterRun c events).history.below? d = some st ∧ st.Later st' := by
  cases hi : e.isInit with
  | true => cases (takenAt_init hi).symm.trans ht
  | false =>
      rw [takenAt_concat hi] at ht
      rw [afterRun_concat] at hst
      split at ht
      · rename_i hs
        cases depth with
        | zero =>
            cases ht
            exact absurd hlt (Nat.lt_irrefl _)
        | succ d =>
            obtain ⟨st, hst, hlater⟩ := (below?_after hi).2 hs hst
            exact ⟨d, st, ht, hst, hlater⟩
      · rename_i hs
        obtain ⟨st, hst, hlater⟩ := (below?_after hi).1 (Option.not_isSome_iff_eq_none.mp hs) hst
        exact ⟨depth, st, ht, hst, hlater⟩

/-- Whatever comes, a sample that is still held is a later form of itself. -/
theorem later_of_takenAt {more : List (Event α)} {st st' : Sample α} {depth' : Nat}
    (ht : takenAt c events depth = some i) (hst : (afterRun c events).history.below? depth = some st)
    (ht' : takenAt c (events ++ more) depth' = some i)
    (hst' : (afterRun c (events ++ more)).history.below? depth' = some st') : st.Later st' := by
  -- On the way down the run the sample is held throughout, at a depth that changes.
  induction more using List.reverseRecOn generalizing depth' st' with
  | nil =>
      rw [List.append_nil] at ht' hst'
      rw [takenAt_inj ht ht', hst'] at hst
      cases hst
      exact .refl _
  | append_singleton more e ih =>
      rw [← List.append_assoc] at ht' hst'
      have hlt : i < (events ++ more).length := by
        rw [List.length_append]
        exact Nat.lt_of_lt_of_le (takenAt_lt ht) (Nat.le_add_right ..)
      obtain ⟨d, st₁, ht₁, hst₁, hlater⟩ := below?_of_takenAt ht' hst' hlt
      exact (ih ht₁ hst₁).trans hlater

end places

/-! ## Windows -/

section windows

variable {c : Config α} {events : List (Event α)} {e : Event α} {w : Beliefs.Window α}

/-- A window that an ack learns from lies in the history with the new sample. No pass has used it, and it had
ended when the acked segment was sent. -/
theorem sampled_of_learntFrom (hw : w ∈ (⟨afterRun c events, e⟩ : Transition α).learntFrom) :
    ∃ g s, (⟨afterRun c events, e⟩ : Transition α).sampled? = some (g, s) ∧ g.config = c ∧
      w ∈ (g.merged s).repairBounds.beliefs.windows g.config (g.merged s).history.toList ∧
      w.st.processed = false ∧ w.clean = true ∧ w.ended s.cumDeliveredAtSend = true := by
  unfold learntFrom at hw
  split at hw
  · cases hw
  · rename_i g s hs
    obtain ⟨hmem, htells⟩ := List.mem_filter.mp hw
    simp only [Beliefs.Window.tells, Bool.and_eq_true, Bool.not_eq_true'] at htells
    obtain ⟨n, _, _, -, ha, -⟩ := sampled?_eq_some hs
    obtain ⟨seq, s₀, -, hacc⟩ := accepts_of_accepted ha
    exact ⟨g, s, hs, hacc.config.trans (config_afterRun c events), hmem, htells.1, htells.2.1.2,
      htells.2.1.1⟩

/-- The sample that lies `depth` below the newest one, with the place where it was taken. -/
theorem takenAt_of_merged {g : Flow α} {s : Segment α}
    (hs : (⟨afterRun c events, e⟩ : Transition α).sampled? = some (g, s)) {depth : Nat} {st : Sample α}
    (hst : (g.merged s).history.below? depth = some st) :
    ∃ p ∈ recent c (events ++ [e]), takenAt c (events ++ [e]) depth = some p.2 ∧
      p.1.sampled?.isSome = true ∧ st.cumDelivered = p.1.after.counters.delivered := by
  have hheld := below?_of_sampled hs depth
  rw [hst, Option.map_some] at hheld
  obtain ⟨p, hp, hcount⟩ := (Dated.afterRun c (events ++ [e])).sample depth _ (by rwa [afterRun_concat])
  have hmem := List.mem_filter.mp (List.mem_of_getElem? hp)
  refine ⟨p, hmem.1, by rw [takenAt, hp]; rfl, hmem.2, ?_⟩
  rw [← hcount]
  split <;> rfl

/-- A window that an ack learns from began and ended before the acked segment was sent. -/
theorem causal_of_learntFrom (hw : w ∈ (⟨afterRun c events, e⟩ : Transition α).learntFrom) :
    ∃ seq r r' start stop sent, e = .ack (seq + 1) r r' ∧
      takenAt c (events ++ [e]) w.depth = some start ∧
      takenAt c (events ++ [e]) (w.depth - c.measurementSpan) = some stop ∧
      sentAt c events seq = some sent ∧ start < stop ∧ stop < sent := by
  obtain ⟨g, s, hs, hc, hmem, -, -, hended⟩ := sampled_of_learntFrom hw
  obtain ⟨n, r, r', he, ha, -⟩ := sampled?_eq_some hs
  obtain ⟨seq, s₀, rfl, hacc⟩ := accepts_of_accepted ha
  obtain ⟨hspan, hst, het, -⟩ := Beliefs.below?_of_mem_windows hmem
  rw [hc] at hspan het
  obtain ⟨start, -, hstart, -⟩ := takenAt_of_merged hs hst
  obtain ⟨stop, hstopmem, hstop, hsample, hcount⟩ := takenAt_of_merged hs het
  obtain ⟨sent, hsent, hanchor⟩ := (Dated.afterRun c events).segment seq s₀ hacc.find
  have hi : e.isInit = false := congrArg Event.isInit he
  have hsentmem : sent ∈ recent c (events ++ [e]) := by
    rw [recent_concat, hi]
    exact List.mem_cons_of_mem _ (List.mem_of_find?_eq_some hsent)
  have hle : stop.1.after.counters.delivered ≤ sent.1.before.counters.delivered := by
    rw [← hcount, ← hanchor, ← hacc.anchor]
    exact of_decide_eq_true hended
  have hpos := c.zero_lt_measurementSpan
  refine ⟨seq, r, r', start.2, stop.2, sent.2, he, hstart, hstop, by rw [sentAt, hsent]; rfl,
    takenAt_lt_of_lt (by omega) hstop hstart, ?_⟩
  exact (Dated.afterRun c (events ++ [e])).lt_of_delivered_le hstopmem hsentmem hsample
    (by simpa using List.find?_some hsent) hle

theorem marked_of_learntFrom (hw : w ∈ (⟨afterRun c events, e⟩ : Transition α).learntFrom) :
    ∃ st, (afterRun c (events ++ [e])).history.below? w.depth = some st ∧ st.processed = true := by
  obtain ⟨g, s, hs, hc, hmem, hfresh, hclean, hended⟩ := sampled_of_learntFrom hw
  have hused : w.depth ∈ g.usedBy s := Beliefs.mem_used_pass_of_clean hmem ⟨hfresh, hended⟩ hclean
  have hheld := below?_of_sampled hs w.depth
  rw [(Beliefs.below?_of_mem_windows hmem).2.1, Option.map_some, if_pos hused] at hheld
  exact ⟨_, by rw [afterRun_concat]; exact hheld, rfl⟩

theorem unmarked_of_learntFrom (hw : w ∈ (⟨afterRun c events, e⟩ : Transition α).learntFrom) {start : Nat}
    (ht : takenAt c (events ++ [e]) w.depth = some start) :
    ∃ d st, takenAt c events d = some start ∧ (afterRun c events).history.below? d = some st ∧
      st.processed = false := by
  obtain ⟨g, s, hs, hc, hmem, hfresh, -, -⟩ := sampled_of_learntFrom hw
  obtain ⟨n, r, r', he, -, -⟩ := sampled?_eq_some hs
  obtain ⟨-, hst, -⟩ := Beliefs.below?_of_mem_windows hmem
  obtain ⟨d, hd⟩ := Nat.exists_eq_add_one.mpr (Beliefs.zero_lt_depth_of_mem_windows hmem)
  rw [takenAt_concat (congrArg Event.isInit he), if_pos (by rw [hs]; rfl), hd] at ht
  rw [hd, history_merged hs] at hst
  exact ⟨d, w.st, ht, Ring.below?_of_push hst, hfresh⟩

end windows

/-- Which windows an event learns from, when they began and ended, and that they are used up by it. First,
the event raises the throughput by them and by nothing else. Second, each of them ended before the send that
entered the acked segment, whatever the clock said. Third, a new sample is not marked, and a mark stays as
long as the sample is held. Fourth, no other window with the same start is ever learnt from. -/
theorem throughput_causal (c : Config α) (events : List (Event α)) (e : Event α) :
    let t : Transition α := ⟨afterRun c events, e⟩
    let done := events ++ [e]
    (e.isInit = false →
      (t.learntFrom = [] ∧ t.after.beliefs.minCLambda = t.before.beliefs.minCLambda) ∨
        t.after.beliefs.minCLambda = Scalar.max t.before.beliefs.minCLambda
          ((t.learntFrom.map Beliefs.Window.rate).foldl Scalar.max c.initMinC)) ∧
    (∀ w ∈ t.learntFrom, ∃ seq r r' start stop sent, e = .ack (seq + 1) r r' ∧
      takenAt c done w.depth = some start ∧ takenAt c done (w.depth - c.measurementSpan) = some stop ∧
      sentAt c events seq = some sent ∧ start < stop ∧ stop < sent) ∧
    ((∀ st, t.sampled?.isSome = true → t.after.history.below? 0 = some st → st.processed = false) ∧
      ∀ more start depth depth' st st',
        takenAt c done depth = some start → (afterRun c done).history.below? depth = some st →
        takenAt c (done ++ more) depth' = some start →
        (afterRun c (done ++ more)).history.below? depth' = some st' →
        st.processed = true → st'.processed = true) ∧
    (∀ w ∈ t.learntFrom, ∀ start, takenAt c done w.depth = some start →
      (∀ w' ∈ t.learntFrom, takenAt c done w'.depth = some start → w' = w) ∧
      ∀ more e', ∀ w' ∈ (⟨afterRun c (done ++ more), e'⟩ : Transition α).learntFrom,
        takenAt c (done ++ more ++ [e']) w'.depth ≠ some start) := by
  intro t done
  refine ⟨fun hi => ?_, fun w hw => causal_of_learntFrom hw, ⟨fun st hs hst => (newest_of_sampled hs hst).1, ?_⟩,
    fun w hw start hstart => ⟨fun w' hw' hstart' => ?_, fun more e' w' hw' hstart' => ?_⟩⟩
  · have hafter := minCLambda_after (t := t) hi
    rwa [show t.before.config = c from config_afterRun c events] at hafter
  · intro more start depth depth' st st' ht hst ht' hst'
    exact (later_of_takenAt ht hst ht' hst').processed
  · obtain ⟨g, s, hs, -, hmem, -⟩ := sampled_of_learntFrom hw
    obtain ⟨g', s', hs', -, hmem', -⟩ := sampled_of_learntFrom hw'
    cases hs.symm.trans hs'
    exact Beliefs.eq_of_depth_eq hmem' hmem (takenAt_inj hstart' hstart)
  · obtain ⟨st, hst, hmarked⟩ := marked_of_learntFrom hw
    obtain ⟨d, st', ht', hst', hfresh⟩ := unmarked_of_learntFrom hw' hstart'
    have hstays := (later_of_takenAt hstart hst ht' hst').processed hmarked
    exact Bool.false_ne_true (hfresh.symm.trans hstays)

/-- Each segment is sent once the one before is acked. The third ack learns from the window between the first
two samples and marks where it starts; the fourth learns from the next one. -/
theorem throughput_causal_of_three_rounds :
    let c : Config Float := .standard
    let zero : Float := Scalar.zero
    let events : List (Event Float) :=
      [.sent 0, .clock (Scalar.ofNat 20), .ack 1 zero zero, .sent 1, .clock (Scalar.ofNat 40), .ack 2 zero zero,
        .sent 2, .clock (Scalar.ofNat 60)]
    let e : Event Float := .ack 3 zero zero
    let more : List (Event Float) := [.sent 3, .clock (Scalar.ofNat 80)]
    let e' : Event Float := .ack 4 zero zero
    let done := events ++ [e]
    let t : Transition Float := ⟨afterRun c events, e⟩
    let t' : Transition Float := ⟨afterRun c (done ++ more), e'⟩
    t.learntFrom.map (·.depth) = [2] ∧ t'.learntFrom.map (·.depth) = [2] ∧ takenAt c done 2 = some 2 ∧
      t.after.history.toList.map (·.processed) = [true, false, false] ∧
      t.after.beliefs.minCLambda = Scalar.max t.before.beliefs.minCLambda
        ((t.learntFrom.map Beliefs.Window.rate).foldl Scalar.max c.initMinC) ∧
      (∀ w ∈ t.learntFrom, ∃ seq r r' start stop sent, e = .ack (seq + 1) r r' ∧
        takenAt c done w.depth = some start ∧ takenAt c done (w.depth - c.measurementSpan) = some stop ∧
        sentAt c events seq = some sent ∧ start < stop ∧ stop < sent) ∧
      (∀ st st', (afterRun c done).history.below? 2 = some st →
        (afterRun c (done ++ more)).history.below? 2 = some st' →
        st.processed = true → st'.processed = true) ∧
      ∀ w' ∈ t'.learntFrom, takenAt c (done ++ more ++ [e']) w'.depth ≠ some 2 := by
  intro c zero events e more e'
  have hlearnt : (⟨afterRun c events, e⟩ : Transition Float).learntFrom.map (·.depth) = [2] := by
    decide +kernel
  have hlearnt' : (⟨afterRun c (events ++ [e] ++ more), e'⟩ : Transition Float).learntFrom.map (·.depth) =
      [2] := by
    decide +kernel
  have hstart : takenAt c (events ++ [e]) 2 = some 2 := by decide +kernel
  have hstart' : takenAt c (events ++ [e] ++ more) 2 = some 2 := by decide +kernel
  have hmarks : (⟨afterRun c events, e⟩ : Transition Float).after.history.toList.map (·.processed) =
      [true, false, false] := by
    decide +kernel
  obtain ⟨hraise, hcausal, ⟨-, hstays⟩, honce⟩ := throughput_causal c events e
  obtain ⟨w, hw, hdepth⟩ : ∃ w ∈ (⟨afterRun c events, e⟩ : Transition Float).learntFrom, w.depth = 2 := by
    refine List.mem_map.mp ?_
    rw [hlearnt]
    exact List.mem_singleton_self 2
  refine ⟨hlearnt, hlearnt', hstart, hmarks, (hraise rfl).resolve_left fun hnone => ?_, hcausal, ?_, ?_⟩
  · rw [hnone.1] at hw
    cases hw
  · exact fun st st' hst hst' => hstays more 2 2 2 st st' hstart hst hstart' hst'
  · exact (honce w hw 2 (by rw [hdepth, hstart])).2 more e'

end Flow

end Pacing

import Pacing.Proofs.Flow.Chronology
import Pacing.Proofs.Flow.RttView
import Pacing.Proofs.Scalar.Extrema

/-!
# The least round-trip time of an epoch

The round-trip time that a flow believes in is the least of the one with which the epoch began and those measured
since, by the driver or by an ack that is not refused. Such an ack measures from the last send that entered its
segment in the ledger. What the flow refuses may as well not have come.
-/

namespace Pacing

theorem getLast?_filterMap_concat {β γ : Type} (f : β → Option γ) (l : List β) (x : β) :
    ((l ++ [x]).filterMap f).getLast? = (f x).or (l.filterMap f).getLast? := by
  rw [List.filterMap_append, List.getLast?_append]
  cases hx : f x <;> simp [hx]

variable {α : Type} [Scalar α]

open Scalar

namespace Flow

/-! ## Measurements -/

/-- What the current epoch began with: the last round-trip time of use that the driver had given by then, or else
the one that the configuration assumes. -/
def seed (c : Config α) (events : List (Event α)) : α :=
  ((events.rdropWhile fun e => !e.isInit).filterMap Event.bootstrap?).getLast?.getD c.timeDeltaMax

/-- The last send that entered a segment in the ledger. -/
def lastSend? (ts : List (Transition α)) (seq : Nat) : Option (Transition α) := (ts.filter (·.enters seq)).getLast?

/-- The round-trip time that an event measures, given what came in the epoch before it. -/
def measurement? (earlier : List (Transition α)) (t : Transition α) : Option α :=
  match t.event with
  | .ack .. =>
    t.delivered?.bind fun seq => (lastSend? earlier seq).map fun send => Scalar.max (t.time - send.time) zero
  | e => e.bootstrap?

/-- The round-trip times that were measured. -/
def measurements (ts : List (Transition α)) : Set α :=
  {rtt | ∃ earlier t later, ts = earlier ++ t :: later ∧ measurement? earlier t = some rtt}

theorem measurements_nil : measurements ([] : List (Transition α)) = ∅ := by
  refine Set.eq_empty_of_forall_notMem ?_
  rintro rtt ⟨earlier, t, later, h, -⟩
  simp at h

theorem measurements_concat (ts : List (Transition α)) (t : Transition α) :
    measurements (ts ++ [t]) = measurements ts ∪ {rtt | measurement? ts t = some rtt} := by
  ext rtt
  constructor
  · rintro ⟨earlier, u, later, hts, hu⟩
    obtain ⟨-, rfl, rfl⟩ | ⟨later', -, rfl⟩ := concat_eq_append_cons.mp hts
    · exact .inr hu
    · exact .inl ⟨earlier, u, later', rfl, hu⟩
  · rintro (⟨earlier, u, later, rfl, hu⟩ | ht)
    · exact ⟨earlier, u, later ++ [t], by simp, hu⟩
    · exact ⟨ts, t, [], rfl, ht⟩

/-- The entry of an outstanding segment tells when the last send was that entered it. -/
theorem lastSend?_of_find? {c : Config α} {events : List (Event α)} {seq : Nat} {s : Segment α}
    (h : (afterRun c events).ledger.find? seq = some s) :
    ∃ send, lastSend? (epoch c events) seq = some send ∧ s.sendTstamp = send.time := by
  obtain ⟨earlier, send, later, hts, hsend, hlater, rfl⟩ := (find?_afterRun c events seq s).mp h
  have hnone : later.filter (·.enters seq) = [] :=
    List.filter_eq_nil_iff.mpr fun u hu => by simp [(hlater u hu).1]
  refine ⟨send, ?_, rfl⟩
  rw [lastSend?, hts, List.filter_append, List.filter_cons, if_pos hsend, hnone, List.getLast?_concat]

/-! ## The seed -/

theorem bootstrapMinRtt_afterRun (c : Config α) (events : List (Event α)) :
    (afterRun c events).bootstrapMinRtt = (events.filterMap Event.bootstrap?).getLast? := by
  induction events using List.reverseRecOn with
  | nil => rfl
  | append_singleton events e ih =>
      rw [afterRun_concat, bootstrapMinRtt_step, ih, getLast?_filterMap_concat]

theorem seed_concat (c : Config α) (events : List (Event α)) (e : Event α) :
    seed c (events ++ [e]) =
      if e.isInit then (afterRun c events).bootstrapMinRtt.getD c.timeDeltaMax else seed c events := by
  rw [seed, List.rdropWhile_concat]
  cases he : e.isInit with
  | false => rfl
  | true =>
      have hnone : e.bootstrap? = none := by cases e <;> cases he; rfl
      simp [hnone, bootstrapMinRtt_afterRun]

theorem useful_seed {c : Config α} (hc : c.fault? = none) (events : List (Event α)) :
    uselessTime (seed c events) = false := by
  rw [seed]
  cases hlast : ((events.rdropWhile fun e => !e.isInit).filterMap Event.bootstrap?).getLast? with
  | none => exact Config.useful_period hc c.timeDeltaMax_mem_periods
  | some rtt =>
      obtain ⟨e, -, he⟩ := List.mem_filterMap.mp (List.mem_of_getLast? hlast)
      exact useful_bootstrap he

/-! ## The least of all -/

/-- What an event of a run brings in is what it measures. -/
theorem rtt?_eq_measurement? (c : Config α) (events : List (Event α)) (e : Event α) :
    Transition.rtt? ⟨afterRun c events, e⟩ = measurement? (epoch c events) ⟨afterRun c events, e⟩ := by
  cases e with
  | ack n r r' =>
      obtain ⟨-, a, ha⟩ | ⟨seq, s₀, g, s, rfl, -, hacc, -, hseg⟩ := (afterRun c events).ack_cases n
      · simp [Transition.rtt?, measurement?, Transition.delivered?, Transition.resolved?, ha, refuseAck]
      · obtain ⟨send, hsend, htime⟩ := lastSend?_of_find? hacc.find
        simp [Transition.rtt?, measurement?, Transition.delivered?, Transition.resolved?, Event.acked?, hseg, hsend,
          hacc.rtt, htime, Transition.time]
  | _ => rfl

variable [LawfulScalar α]

theorem least_minRtt (c : Config α) (events : List (Event α)) :
    Least ({seed c events} ∪ measurements (epoch c events)) (afterRun c events).beliefs.minRtt := by
  induction events using List.reverseRecOn with
  | nil =>
      change Least ({c.timeDeltaMax} ∪ measurements []) c.timeDeltaMax
      rw [measurements_nil, Set.union_empty]
      exact .singleton _
  | append_singleton events e ih =>
      rw [afterRun_concat, epoch_concat, seed_concat]
      cases hi : e.isInit with
      | true =>
          obtain rfl : e = .init := by cases e <;> cases hi; rfl
          have hmin : ((afterRun c events).step .init).1.beliefs.minRtt =
              (afterRun c events).bootstrapMinRtt.getD (afterRun c events).config.timeDeltaMax := rfl
          rw [if_pos rfl, if_pos rfl, measurements_nil, Set.union_empty, hmin, config_afterRun]
          exact .singleton _
      | false =>
          have hmin := minRtt_after ⟨afterRun c events, e⟩ hi
          rw [rtt?_eq_measurement?] at hmin
          rw [if_neg Bool.false_ne_true, if_neg Bool.false_ne_true, measurements_concat, ← Set.union_assoc]
          change Least _ (Transition.after ⟨afterRun c events, e⟩).beliefs.minRtt
          rw [hmin]
          cases measurement? (epoch c events) ⟨afterRun c events, e⟩ with
          | none => simpa using ih
          | some rtt =>
              have hset : {rtt' | some rtt = some rtt'} = {rtt} := by ext; simp [eq_comm]
              rw [hset]
              exact ih.union (.singleton rtt)

theorem zero_le_measurement {ts : List (Transition α)} {rtt : α} (h : rtt ∈ measurements ts) : zero ≤ rtt := by
  obtain ⟨earlier, ⟨f, e⟩, later, -, ht⟩ := h
  cases e with
  | ack n r r' =>
      simp only [measurement?, Option.bind_eq_some_iff, Option.map_eq_some_iff] at ht
      obtain ⟨seq, -, send, -, rfl⟩ := ht
      exact le_max_right _ number_zero
  | minRtt r => exact zero_le_of_useful (useful_bootstrap (e := .minRtt r) ht)
  | _ => cases ht

/-- Every round-trip time that counts is a number and not negative, so the least is at most each of them. -/
theorem minRtt_le {c : Config α} (hc : c.fault? = none) (events : List (Event α)) {rtt : α}
    (h : rtt ∈ {seed c events} ∪ measurements (epoch c events)) :
    zero ≤ rtt ∧ (afterRun c events).beliefs.minRtt ≤ rtt := by
  have hpos : zero ≤ rtt := by
    rcases h with rfl | h
    · exact zero_le_of_useful (useful_seed hc events)
    · exact zero_le_measurement h
  exact ⟨hpos, (least_minRtt c events).le rtt h (number_right hpos)⟩

theorem isFinite_minRtt {c : Config α} (hc : c.fault? = none) (events : List (Event α)) :
    isFinite (afterRun c events).beliefs.minRtt = true ∧ zero ≤ (afterRun c events).beliefs.minRtt := by
  have hpos := (minRtt_le hc events (least_minRtt c events).mem).1
  have hle := (minRtt_le hc events (.inl rfl)).2
  have hseed := (uselessTime_eq_false.mp (useful_seed hc events)).1
  exact ⟨LawfulScalar.isFinite_of_le_of_le (LawfulScalar.isFinite_ofNat (by decide)) hseed hpos hle, hpos⟩

theorem minRtt_run_le {c : Config α} (hc : c.fault? = none) (events : List (Event α)) {more : List (Event α)}
    (h : ∀ e ∈ more, e.isInit = false) :
    (afterRun c (events ++ more)).beliefs.minRtt ≤ (afterRun c events).beliefs.minRtt := by
  induction more using List.reverseRecOn with
  | nil =>
      rw [List.append_nil]
      exact le_refl (number_right (isFinite_minRtt hc events).2)
  | append_singleton more e ih =>
      have hprev := ih fun e' he' => h e' (by simp [he'])
      have hstep := minRtt_after_le (t := ⟨afterRun c (events ++ more), e⟩) (h e (by simp)) (number_left hprev)
      rw [← List.append_assoc, afterRun_concat]
      exact le_trans hstep hprev

omit [LawfulScalar α] in
theorem minRtt_of_ignored {c : Config α} {events : List (Event α)} {e : Event α}
    (he : (afterRun c events).ignoresRtt e = true) (more : List (Event α)) :
    (afterRun c (events ++ e :: more)).beliefs.minRtt = (afterRun c (events ++ more)).beliefs.minRtt := by
  rw [afterRun_append, afterRun_append]
  exact congrArg RttView.minRtt (rttView_run (rttView_of_ignored he) more)

/-- The round-trip time that a flow believes in is the least of the one with which the epoch began and those measured
since. It is finite and not negative and does not grow before the next epoch. A refused ack, a useless round-trip time
and a send of an outstanding segment make no difference to it, then or later. -/
theorem minRtt_least_of_epoch (c : Config Float) (hc : c.fault? = none) (events : List (Event Float)) :
    let f := afterRun c events
    let rtts := {seed c events} ∪ measurements (epoch c events)
    (f.beliefs.minRtt ∈ rtts ∧ ∀ rtt ∈ rtts, f.beliefs.minRtt ≤ rtt) ∧
    isFinite f.beliefs.minRtt = true ∧ zero ≤ f.beliefs.minRtt ∧
    (∀ more, (∀ e ∈ more, e.isInit = false) →
      (afterRun c (events ++ more)).beliefs.minRtt ≤ f.beliefs.minRtt) ∧
    ∀ e more, f.ignoresRtt e = true →
      (afterRun c (events ++ e :: more)).beliefs.minRtt = (afterRun c (events ++ more)).beliefs.minRtt := by
  intro f rtts
  obtain ⟨hfin, hpos⟩ := isFinite_minRtt hc events
  refine ⟨⟨(least_minRtt c events).mem, fun rtt h => (minRtt_le hc events h).2⟩, hfin, hpos, ?_, ?_⟩
  · exact fun more => minRtt_run_le hc events
  · exact fun e more he => minRtt_of_ignored he more

/-- A segment is sent twice in vain while it is outstanding, acked, sent again and acked again: its first ack measures
40 ms and its second 25 ms. -/
theorem minRtt_least_of_epoch_after_resend :
    let c : Config Float := .standard
    let zero : Float := Scalar.zero
    let events : List (Event Float) :=
      [.minRtt (ofNat 50), .minRtt (ofNat 80), .init, .sent 0, .clock (ofNat 10), .sent 0, .clock (ofNat 40),
        .ack 1 zero zero, .sent 0, .clock (ofNat 65), .ack 1 zero zero]
    let f := afterRun c events
    let duplicate : Event Float := .ack 1 zero zero
    c.fault? = none ∧ seed c events = ofNat 80 ∧ f.beliefs.minRtt = ofNat 25 ∧ f.ignoresRtt duplicate = true ∧
      f.beliefs.minRtt ∈ {seed c events} ∪ measurements (epoch c events) ∧
      (∀ rtt ∈ measurements (epoch c events), f.beliefs.minRtt ≤ rtt) ∧
      (afterRun c (events ++ [duplicate, .init])).beliefs.minRtt = (afterRun c (events ++ [.init])).beliefs.minRtt := by
  intro c zero events f duplicate
  have hc : c.fault? = none := by decide +kernel
  have hseed : seed c events = ofNat 80 := by decide +kernel
  have hmin : f.beliefs.minRtt = ofNat 25 := by decide +kernel
  have hignored : f.ignoresRtt duplicate = true := by decide +kernel
  obtain ⟨⟨hmem, hle⟩, -, -, -, hsame⟩ := minRtt_least_of_epoch c hc events
  exact ⟨hc, hseed, hmin, hignored, hmem, fun rtt h => hle rtt (.inr h), hsame duplicate [.init] hignored⟩

end Flow

end Pacing

import Pacing.Proofs.Flow.Repair
import Pacing.Proofs.Ledger.Reordering

/-!
# Where the entries of a ledger come from

What the ledger holds of a segment is read off the epoch: the segment is there because of its last accepted send,
as long as it was neither delivered nor expired since, and it is marked lost if a later segment was delivered
since. Only an ack that takes a sample lets segments expire, and it leaves no old lost one.
-/

namespace Pacing

variable {α : Type}

/-- The segment, marked lost if `late`. -/
def Segment.mark (s : Segment α) (late : Bool) : Segment α := { s with lost := s.lost || late }

theorem Segment.mark_false (s : Segment α) : s.mark false = s := by rw [mark, Bool.or_false]

/-- A split of a list at one of its members is at the last one, or goes back to a split of the rest. -/
theorem concat_eq_append_cons {β : Type} {l earlier later : List β} {a b : β} :
    l ++ [a] = earlier ++ b :: later ↔
      (later = [] ∧ l = earlier ∧ a = b) ∨
        ∃ later', later = later' ++ [a] ∧ l = earlier ++ b :: later' := by
  constructor
  · intro h
    obtain rfl | ⟨later', c, rfl⟩ := later.eq_nil_or_concat'
    · obtain ⟨hl, hab⟩ := List.append_inj' h rfl
      exact .inl ⟨rfl, hl, List.singleton_inj.mp hab⟩
    · rw [← List.cons_append, ← List.append_assoc] at h
      obtain ⟨hl, hab⟩ := List.append_inj' h rfl
      cases hab
      exact .inr ⟨later', rfl, hl⟩
  · rintro (⟨rfl, rfl, rfl⟩ | ⟨later', rfl, rfl⟩)
    · rfl
    · simp

namespace Ledger

theorem find?_settle_markLosses (l : Ledger α) (acked seq : Nat) :
    ((l.settle acked).markLosses acked).find? seq =
      if acked = seq then none else (l.find? seq).map (·.mark (seq < acked)) := by
  simp only [find?, markLosses, settle, SeqMap.find?_map, SeqMap.find?_erase, eq_comm (a := acked)]
  by_cases hacked : seq = acked
  · simp [hacked]
  · cases l.outstanding.find? seq with
    | none => simp
    | some s => by_cases hlt : seq < acked <;> simp [hacked, hlt, Segment.mark]

end Ledger

variable [Scalar α]

open Scalar

theorem Ledger.find?_expireLost (l : Ledger α) (horizon : α) (seq : Nat) :
    (l.expireLost horizon).find? seq =
      (l.find? seq).filter fun s => !(s.lost && decide (s.sendTstamp < horizon)) :=
  SeqMap.find?_filter ..

namespace Transition

/-- The event enters a segment in the ledger. -/
def enters (t : Transition α) (seq : Nat) : Bool :=
  match t.event with
  | .sent n => n == seq && (t.before.ledger.find? seq).isNone
  | _ => false

/-- The number of the segment that the event delivered. -/
def delivered? (t : Transition α) : Option Nat := if t.resolved?.isSome then t.event.acked? else none

/-- The event delivered a segment of a greater number. -/
def passes (t : Transition α) (seq : Nat) : Bool := t.delivered?.any (seq < ·)

/-- The event took a segment out of the ledger that it did not deliver. -/
def expires (t : Transition α) (seq : Nat) : Bool :=
  (t.before.ledger.find? seq).isSome && (t.after.ledger.find? seq).isNone && t.delivered? != some seq

/-- The time before which a lost segment must have been sent to expire: the span of a full history ago. -/
def horizon (t : Transition α) : α :=
  t.time - ofNat t.before.config.historySize * t.before.config.interHistoryTime * t.after.beliefs.rtprop

omit [Scalar α] in
theorem find?_before_of_enters {t : Transition α} {seq : Nat} (h : t.enters seq = true) :
    t.before.ledger.find? seq = none := by
  obtain ⟨f, e⟩ := t
  cases e with
  | sent n =>
      simp only [Transition.enters, Bool.and_eq_true] at h
      exact Option.isNone_iff_eq_none.mp h.2
  | _ => cases h

end Transition

namespace Flow

/-- A sample lets the lost segments expire that were sent before a full history. -/
theorem ledger_updateHistory (g : Flow α) (s : Segment α) :
    (g.updateHistory s).ledger =
      if g.sampleOpen then g.ledger else g.ledger.expireLost (g.now - (g.updateHistory s).retention) := by
  cases hopen : g.sampleOpen with
  | true => rw [updateHistory, hopen]; rfl
  | false =>
      have hupdate : g.updateHistory s = g.takeSample s := by rw [updateHistory, hopen]; rfl
      have hmeasured : (g.measured s).ledger = g.ledger ∧ (g.measured s).now = g.now := by
        obtain ⟨_, _, h⟩ := (g.merged s).repairBounds_frame
        rw [measured, h]
        exact ⟨rfl, rfl⟩
      rw [hupdate, takeSample]
      change (g.measured s).ledger.expireLost ((g.measured s).now - _) = g.ledger.expireLost _
      rw [hmeasured.1, hmeasured.2]
      rfl

variable {t : Transition α}

theorem find?_of_enters {seq : Nat} (h : t.enters seq = true) :
    t.after.ledger.find? seq = some (.sent t.time t.before.counters.delivered) := by
  obtain ⟨f, e⟩ := t
  cases e with
  | sent n =>
      simp only [Transition.enters, Bool.and_eq_true, beq_iff_eq] at h
      obtain ⟨rfl, hnone⟩ := h
      have hcontains : f.ledger.outstanding.contains n = false := by
        simpa [SeqMap.contains, Ledger.find?] using hnone
      simp [Transition.after, step, sent, recordSent, Ledger.recordSent, hcontains, Ledger.find?,
        SeqMap.find?_insert, Transition.time]
  | _ => cases h

theorem ledger_of_duplicate {f : Flow α} {n : Nat} (h : (f.ledger.find? n).isSome = true) :
    (f.step (.sent n)).1.ledger = f.ledger := by
  have hcontains : f.ledger.outstanding.contains n = true := h
  simp [step, sent, recordSent, Ledger.recordSent, hcontains, noteAnomaly]

theorem find?_after_of_not_resolved (hi : t.event.isInit = false) (hr : t.resolved? = none) {seq : Nat}
    (hnew : t.enters seq = false) : t.after.ledger.find? seq = t.before.ledger.find? seq := by
  obtain ⟨f, e⟩ := t
  cases e with
  | init => cases hi
  | sent n =>
      cases hn : f.ledger.find? n with
      | some s => rw [Transition.after, ledger_of_duplicate (by rw [hn]; rfl)]
      | none =>
          have hcontains : f.ledger.outstanding.contains n = false := by
            simpa [SeqMap.contains, Ledger.find?] using hn
          have hne : seq ≠ n := by
            rintro rfl
            simp [Transition.enters, hn] at hnew
          simp [Transition.after, step, sent, recordSent, Ledger.recordSent, hcontains, Ledger.find?,
            SeqMap.find?_insert, hne]
  | ack n r r' =>
      obtain ⟨-, a, ha⟩ | ⟨_, _, _, _, _, -, -, -, hseg⟩ := f.ack_cases n
      · simp [Transition.after, step, ha, refuseAck, noteAnomaly]
      · cases hseg.symm.trans hr
  | minRtt rtt =>
      simp only [Transition.after, step, setMinRtt]
      split <;> rfl
  | _ => rfl

theorem ledger_of_accepted {f g : Flow α} {acked : Nat} {s : Segment α} (h : f.accepted? (acked + 1) = some (g, s))
    (r r' : α) :
    let t : Transition α := ⟨f, .ack (acked + 1) r r'⟩
    let marked := (f.ledger.settle acked).markLosses acked
    t.after.ledger = if t.sampled?.isSome then marked.expireLost t.horizon else marked := by
  intro t marked
  obtain ⟨_, _, ⟨⟩, hacc⟩ := accepts_of_accepted h
  have hflow : t.after = (g.updateHistory s).recompute.1 := (ack_of_accepted h).1
  have hhorizon : g.now - (g.updateHistory s).retention = t.horizon := by
    rw [Transition.horizon, hflow, beliefs_recompute, retention, config_updateHistory, hacc.config, hacc.now]
    rfl
  rw [hflow, ledger_recompute, ledger_updateHistory, hhorizon, hacc.ledger]
  simp only [t, Transition.sampled?, h, Option.filter_some]
  cases g.sampleOpen <;> rfl

/-- What an event makes of the entries that it finds: the segment that it delivers goes, those below are marked
lost, and if it takes a sample, the lost ones go that were sent before the horizon. -/
theorem find?_after (hi : t.event.isInit = false) {seq : Nat} (hnew : t.enters seq = false) :
    t.after.ledger.find? seq =
      if t.delivered? = some seq then none
      else ((t.before.ledger.find? seq).map (·.mark (t.passes seq))).filter fun s =>
        !(t.sampled?.isSome && (s.lost && decide (s.sendTstamp < t.horizon))) := by
  cases hr : t.resolved? with
  | none =>
      have hdelivered : t.delivered? = none := by simp [Transition.delivered?, hr]
      have hsampled : t.sampled? = none := by
        cases hs : t.sampled? with
        | none => rfl
        | some q => cases (resolved?_of_sampled hs).symm.trans hr
      rw [find?_after_of_not_resolved hi hr hnew, Transition.passes, hdelivered, hsampled]
      cases t.before.ledger.find? seq <;> simp [Segment.mark_false, Option.filter_some]
  | some s =>
      obtain ⟨f, e⟩ := t
      cases e with
      | ack n r r' =>
          obtain ⟨-, a, ha⟩ | ⟨acked, _, g, q, rfl, hn, -, -, -⟩ := f.ack_cases n
          · simp [Transition.resolved?, ha, refuseAck] at hr
          · have hdelivered : (Transition.delivered? ⟨f, .ack (acked + 1) r r'⟩) = some acked := by
              simp [Transition.delivered?, hr, Event.acked?]
            rw [ledger_of_accepted hn, Transition.passes, hdelivered, Option.any_some]
            simp only [Option.some.injEq]
            cases (Transition.sampled? ⟨f, .ack (acked + 1) r r'⟩).isSome with
            | true =>
                rw [if_pos rfl, Ledger.find?_expireLost, Ledger.find?_settle_markLosses]
                split <;> rfl
            | false =>
                rw [if_neg Bool.false_ne_true, Ledger.find?_settle_markLosses]
                split
                · rfl
                · cases f.ledger.find? seq <;> simp [Option.filter_some]
      | _ => cases hr

/-- What is in the ledger after an event that does not enter it was there before. -/
theorem find?_after_eq_some (hi : t.event.isInit = false) {seq : Nat} (hnew : t.enters seq = false)
    {s : Segment α} :
    t.after.ledger.find? seq = some s ↔ ∃ s₀, t.before.ledger.find? seq = some s₀ ∧
      t.delivered? ≠ some seq ∧ t.expires seq = false ∧ s = s₀.mark (t.passes seq) := by
  have hafter := find?_after hi hnew
  rw [Transition.expires]
  cases hs₀ : t.before.ledger.find? seq with
  | none => simp [hafter, hs₀]
  | some s₀ =>
      by_cases hd : t.delivered? = some seq
      · simp [hafter, hd]
      · have hafter : t.after.ledger.find? seq = (some (s₀.mark (t.passes seq))).filter fun s =>
            !(t.sampled?.isSome && (s.lost && decide (s.sendTstamp < t.horizon))) := by
          rw [hafter, if_neg hd, hs₀, Option.map_some]
        rw [hafter, Option.filter_some]
        split
        · refine ⟨fun h => ⟨s₀, rfl, hd, rfl, (Option.some.inj h).symm⟩, ?_⟩
          rintro ⟨_, ⟨⟩, -, -, rfl⟩
          rfl
        · simp [hd]

/-- A segment expires with an ack that takes a sample, if it is marked lost by then and was sent before the
horizon. -/
theorem expires_iff (hi : t.event.isInit = false) {seq : Nat} :
    t.expires seq = true ↔ t.sampled?.isSome = true ∧ t.delivered? ≠ some seq ∧
      ∃ s, t.before.ledger.find? seq = some s ∧ (s.mark (t.passes seq)).lost = true ∧
        s.sendTstamp < t.horizon := by
  rw [Transition.expires]
  cases hs : t.before.ledger.find? seq with
  | none => simp
  | some s =>
      have hnew : t.enters seq = false := by
        rw [← Bool.not_eq_true]
        intro h
        cases (Transition.find?_before_of_enters h).symm.trans hs
      rw [find?_after hi hnew, hs]
      by_cases hd : t.delivered? = some seq
      · simp [hd]
      · have hsent : (s.mark (t.passes seq)).sendTstamp = s.sendTstamp := rfl
        rw [if_neg hd, Option.map_some, Option.filter_some, hsent]
        simp only [Option.some.injEq, exists_eq_left']
        cases t.sampled?.isSome <;> cases (s.mark (t.passes seq)).lost <;>
          by_cases hold : s.sendTstamp < t.horizon <;> simp [hold, hd]

/-- No old lost segment outlasts a sample. -/
theorem not_lt_horizon_of_sampled (hs : t.sampled?.isSome = true) {seq : Nat} {s : Segment α}
    (h : t.after.ledger.find? seq = some s) (hlost : s.lost = true) : ¬ s.sendTstamp < t.horizon := by
  obtain ⟨⟨g, q⟩, hq⟩ := Option.isSome_iff_exists.mp hs
  obtain ⟨n, r, r', he, -, -⟩ := sampled?_eq_some hq
  have hnew : t.enters seq = false := by rw [Transition.enters, he]
  rw [find?_after (by rw [he]; rfl) hnew] at h
  split at h
  · cases h
  · have hkept := (Option.filter_eq_some_iff.mp h).2
    simpa [hs, hlost] using hkept

/-! ## Runs -/

/-- The last accepted send of a segment has been followed by neither its delivery nor its expiry. The entry says
when that send was and how much had been delivered by then, and it is lost if a later segment was delivered since. -/
def StillOut (ts : List (Transition α)) (seq : Nat) (s : Segment α) : Prop :=
  ∃ earlier send later, ts = earlier ++ send :: later ∧ send.enters seq = true ∧
    (∀ u ∈ later, u.enters seq = false ∧ u.delivered? ≠ some seq ∧ u.expires seq = false) ∧
    s = (Segment.sent send.time send.before.counters.delivered).mark (later.any (·.passes seq))

theorem not_stillOut_nil (seq : Nat) (s : Segment α) : ¬ StillOut [] seq s := by
  rintro ⟨earlier, send, later, h, -⟩
  simp at h

variable {ts : List (Transition α)} {seq : Nat} {s : Segment α}

theorem stillOut_concat_of_enters (h : t.enters seq = true) :
    StillOut (ts ++ [t]) seq s ↔ s = .sent t.time t.before.counters.delivered := by
  constructor
  · rintro ⟨earlier, send, later, hts, -, hlater, rfl⟩
    obtain ⟨rfl, -, rfl⟩ | ⟨later', rfl, -⟩ := concat_eq_append_cons.mp hts
    · exact Segment.mark_false _
    · have hnew := (hlater t (by simp)).1
      cases h.symm.trans hnew
  · rintro rfl
    exact ⟨ts, t, [], rfl, h, by simp, (Segment.mark_false _).symm⟩

theorem stillOut_concat (h : t.enters seq = false) :
    StillOut (ts ++ [t]) seq s ↔ ∃ s₀, StillOut ts seq s₀ ∧
      t.delivered? ≠ some seq ∧ t.expires seq = false ∧ s = s₀.mark (t.passes seq) := by
  constructor
  · rintro ⟨earlier, send, later, hts, hsend, hlater, rfl⟩
    obtain ⟨-, -, rfl⟩ | ⟨later', rfl, rfl⟩ := concat_eq_append_cons.mp hts
    · cases h.symm.trans hsend
    · obtain ⟨-, hd, hx⟩ := hlater t (by simp)
      refine ⟨_, ⟨earlier, send, later', rfl, hsend, fun u hu => hlater u (by simp [hu]), rfl⟩, hd, hx, ?_⟩
      simp [Segment.mark, Bool.or_assoc]
  · rintro ⟨_, ⟨earlier, send, later, rfl, hsend, hlater, rfl⟩, hd, hx, rfl⟩
    refine ⟨earlier, send, later ++ [t], by simp, hsend, ?_, ?_⟩
    · exact List.forall_mem_append.mpr ⟨hlater, List.forall_mem_singleton.mpr ⟨h, hd, hx⟩⟩
    · simp [Segment.mark, Bool.or_assoc]

theorem find?_afterRun (c : Config α) (events : List (Event α)) (seq : Nat) (s : Segment α) :
    (afterRun c events).ledger.find? seq = some s ↔ StillOut (epoch c events) seq s := by
  refine epoch_induction (P := fun ts f => ∀ s, f.ledger.find? seq = some s ↔ StillOut ts seq s)
    c ?_ ?_ ?_ events s
  · exact fun s => iff_of_false (by simp [start, reset, Ledger.clear, Ledger.find?]) (not_stillOut_nil seq s)
  · exact fun f _ _ s => iff_of_false (by simp [reset, Ledger.clear, Ledger.find?]) (not_stillOut_nil seq s)
  · intro ts f e _ hi ih s
    -- A send that enters the segment decides alone; any other event passes the entry on or takes it out.
    cases hnew : (⟨f, e⟩ : Transition α).enters seq with
    | true =>
        rw [stillOut_concat_of_enters hnew]
        have hafter := find?_of_enters hnew
        rw [Transition.after] at hafter
        rw [hafter]
        exact ⟨fun h => (Option.some.inj h).symm, fun h => congrArg some h.symm⟩
    | false =>
        rw [stillOut_concat hnew]
        simp only [← ih]
        exact find?_after_eq_some hi hnew

/-- The ledger holds exactly the segments whose last accepted send was followed by neither delivery nor expiry, as
that send entered them but for a mark where a later segment was delivered since. -/
theorem ledger_read_off_epoch (c : Config α) (events : List (Event α)) :
    let f := afterRun c events
    (∀ seq s, f.ledger.find? seq = some s ↔ StillOut (epoch c events) seq s) ∧
    (∀ seq, (f.ledger.find? seq).isSome = true → (f.step (.sent seq)).1.ledger = f.ledger) ∧
    ∀ e, e.isInit = false → let t : Transition α := ⟨f, e⟩
      (∀ seq, t.expires seq = true ↔ t.sampled?.isSome = true ∧ t.delivered? ≠ some seq ∧
        ∃ s, f.ledger.find? seq = some s ∧ (s.lost = true ∨ t.passes seq = true) ∧
          s.sendTstamp < t.horizon) ∧
      (t.sampled?.isSome = true → ∀ seq s, t.after.ledger.find? seq = some s → s.lost = true →
        ¬ s.sendTstamp < t.horizon) := by
  intro f
  refine ⟨find?_afterRun c events, fun _ => ledger_of_duplicate, fun e hi => ⟨fun seq => ?_, ?_⟩⟩
  · rw [expires_iff hi]
    simp only [Segment.mark, Bool.or_eq_true]
  · exact fun hs _ _ => not_lt_horizon_of_sampled hs

/-- A lost segment expires with the next sample and is sent again, as a new one. -/
theorem ledger_read_off_epoch_after_expiry :
    let c : Config Float := .standard
    let zero : Float := Scalar.zero
    let events : List (Event Float) :=
      [.minRtt (Scalar.ofNat 10), .sent 0, .sent 1, .clock (Scalar.ofNat 10), .ack 2 zero zero,
        .clock (Scalar.ofNat 1000), .sent 2, .clock (Scalar.ofNat 1010)]
    let t : Transition Float := ⟨afterRun c events, .ack 3 zero zero⟩
    let resent := events ++ [.ack 3 zero zero, .sent 0]
    (t.expires 0 = true ∧ ∃ s, t.before.ledger.find? 0 = some s ∧ (s.lost = true ∨ t.passes 0 = true) ∧
      s.sendTstamp < t.horizon) ∧
    StillOut (epoch c resent) 0 (.sent (Scalar.ofNat 1010) 2) := by
  intro c zero events t resent
  have hexpires : t.expires 0 = true := by decide +kernel
  have hresent : (afterRun c resent).ledger.find? 0 = some (.sent (Scalar.ofNat 1010) 2) := by decide +kernel
  obtain ⟨hexpired, -⟩ := (ledger_read_off_epoch c events).2.2 (.ack 3 zero zero) rfl
  exact ⟨⟨hexpires, ((hexpired 0).mp hexpires).2.2⟩, ((ledger_read_off_epoch c resent).1 0 _).mp hresent⟩

end Flow

end Pacing

import Pacing.Proofs.Flow.Timeouts

/-!
# What events report

An event reports its remarks first and, if the flow recomputed, a dump of the outcome last. The errors among the
remarks are the anomalies that the tally counts, timeouts apart, and the round-trip times that were of no use.
-/

namespace Pacing

variable {α : Type}

/-- The notice belongs to a dump. -/
def Notice.ofDump : Notice α → Bool
  | .state .. | .beliefs _ | .historyLen _ | .sample .. => true
  | _ => false

def Entry.isError (e : Entry α) : Bool := e.notice.level == .error

/-- The driver gives a round-trip time that is of no use. -/
def Event.uselessRtt [Scalar α] : Event α → Bool
  | .minRtt rtt => uselessTime rtt
  | _ => false

/-- How many anomalies were reported as errors: all but the timeouts. -/
def Tally.errors (t : Tally) : Nat :=
  t.unknownAcks + t.duplicateAcks + t.duplicateSends + t.reorderedDeliveries

theorem Tally.errors_count (t : Tally) {a : Anomaly} (h : a ≠ .timeout) : (t.count a).errors = t.errors + 1 := by
  cases a with
  | timeout => exact absurd rfl h
  | _ => simp only [count, errors]; omega

namespace Flow

theorem countP_dump (f : Flow α) : f.dump.countP Entry.isError = 0 := by
  rw [List.countP_eq_zero]
  intro e he
  simp only [dump, List.mem_map, List.mem_cons] at he
  obtain ⟨n, rfl | rfl | rfl | ⟨_, -, rfl⟩, rfl⟩ := he <;> exact Bool.false_ne_true

/-- What was reported on the way from one flow to another: nothing of a dump, and one error for each anomaly. -/
structure Remarks (f g : Flow α) (entries : List (Entry α)) : Prop where
  aside : ∀ e ∈ entries, e.notice.ofDump = false
  errors : g.tally.errors = f.tally.errors + entries.countP Entry.isError

namespace Remarks

variable {f g : Flow α}

theorem quiet (h : g.tally.errors = f.tally.errors) : Remarks f g [] := ⟨List.forall_mem_nil _, h⟩

theorem noteAnomaly (f : Flow α) {a : Anomaly} (h : a ≠ .timeout) :
    Remarks f (f.noteAnomaly a).1 (f.noteAnomaly a).2 :=
  ⟨List.forall_mem_singleton.mpr rfl, f.tally.errors_count h⟩

theorem correctLoss (f : Flow α) (seq : Nat) (s : Segment α) :
    Remarks f (f.correctLoss seq s).1 (f.correctLoss seq s).2 := by
  unfold Flow.correctLoss
  split
  · obtain ⟨haside, herrors⟩ :=
      noteAnomaly { f with counters := { f.counters with lost := f.counters.lost - 1 } }
        (a := .reorderedDelivery seq) Anomaly.noConfusion
    exact ⟨haside, herrors⟩
  · exact quiet rfl

variable [Scalar α]

theorem recordSent (f : Flow α) (seq : Nat) : Remarks f (f.recordSent seq).1 (f.recordSent seq).2 := by
  unfold Flow.recordSent Ledger.recordSent
  split <;> rename_i h
  · exact quiet rfl
  · split at h <;> cases h
    exact noteAnomaly f Anomaly.noConfusion

theorem refuseAck {f : Flow α} {n : Nat} (h : f.accepted? n = none) :
    Remarks f (f.ack n).flow (f.ack n).entries := by
  obtain ⟨a, ha⟩ := accept_of_refused h
  rw [ack, ha]
  obtain ⟨m, rfl⟩ | ⟨m, rfl⟩ := accept_eq_error ha
  · exact noteAnomaly f Anomaly.noConfusion
  · exact noteAnomaly f Anomaly.noConfusion

end Remarks

variable [Scalar α]

theorem errors_updateHistory (f : Flow α) (s : Segment α) :
    (f.updateHistory s).tally.errors = f.tally.errors := by
  obtain ⟨_, _, _, _, _, -, h⟩ := f.updateHistory_frame s
  rw [h]
  rfl

theorem errors_recompute (f : Flow α) : f.recompute.1.tally.errors = f.tally.errors := by
  unfold recompute
  split <;> rfl

theorem entries_ack_of_accepted {f g : Flow α} {n : Nat} {s : Segment α} (h : f.accepted? n = some (g, s)) :
    ∃ early, (f.ack n).entries = early ++ (g.updateHistory s).recompute.2 ∧ Remarks f g early := by
  obtain ⟨early, ha⟩ := accept_of_accepted h
  obtain ⟨seq, s₀, -, -, hr⟩ := accept_eq_ok ha
  simp only [deliver, Accepted.mk.injEq] at hr
  obtain ⟨rfl, -, rfl⟩ := hr
  obtain ⟨haside, herrors⟩ := Remarks.correctLoss { f with ledger := f.ledger.settle seq } seq s₀
  refine ⟨_, ?_, haside, herrors⟩
  rw [ack, ha]

theorem setMinRtt_of_useful (f : Flow α) {rtt : α} (h : (Event.minRtt rtt).uselessRtt = false) :
    ∃ g, g.tally = f.tally ∧ f.setMinRtt rtt = (g, [f.entry (.bootstrapped rtt)]) := by
  refine ⟨_, ?_, if_neg (Bool.eq_false_iff.mp h)⟩
  rfl

end Flow

variable [Scalar α]

namespace Transition

def entries (t : Transition α) : List (Entry α) := (t.before.step t.event).2

variable {t : Transition α}

theorem recomputes_after (t : Transition α) :
    t.after.tally.recomputes = t.before.tally.recomputes + if t.recomputed then 1 else 0 := by
  cases hp : t.paced? with
  | none =>
      have hcount := (Flow.outputs_of_not_paced hp).1
      simp [recomputed, hcount]
  | some g =>
      obtain ⟨hafter, hcount, -⟩ := Flow.paced_frame hp
      rw [Flow.recomputed_eq, deciding?, hp, hafter, ← hcount, Flow.recompute]
      cases hdue : g.rateDue <;> simp [hdue, Flow.redecide]

theorem dump_of_paced {g : Flow α} (h : t.paced? = some g) :
    g.recompute.2 = if t.recomputed then t.after.dump else [] := by
  rw [Flow.recomputed_eq, deciding?, h, (Flow.paced_frame h).1, Flow.recompute]
  cases hdue : g.rateDue <;> simp [hdue]

theorem not_recomputed_of_not_paced (h : t.paced? = none) : t.recomputed = false := by
  rw [Flow.recomputed_eq, deciding?, h]
  rfl

/-- An event that paces the flow makes its remarks before it. -/
theorem entries_of_paced {g : Flow α} (h : t.paced? = some g) :
    ∃ remarks, t.entries = remarks ++ g.recompute.2 ∧ Flow.Remarks t.before g remarks := by
  obtain ⟨f, e⟩ := t
  cases e with
  | sent seq =>
      cases h
      exact ⟨_, rfl, .recordSent f seq⟩
  | ack n r r' =>
      obtain ⟨⟨g', s⟩, ha, rfl⟩ := Option.map_eq_some_iff.mp h
      obtain ⟨early, hentries, haside, herrors⟩ := Flow.entries_ack_of_accepted ha
      exact ⟨early, hentries, haside, (g'.errors_updateHistory s).trans herrors⟩
  | _ => cases h

/-- The other events only make remarks. A round-trip time of no use is an error, but not an anomaly. -/
theorem entries_of_not_paced (h : t.paced? = none) :
    (∀ e ∈ t.entries, e.notice.ofDump = false) ∧
      t.after.tally.errors + (if t.event.uselessRtt then 1 else 0) =
        t.before.tally.errors + t.entries.countP Entry.isError := by
  obtain ⟨f, e⟩ := t
  cases e with
  | sent seq => cases h
  | ack n r r' =>
      obtain ⟨haside, herrors⟩ := Flow.Remarks.refuseAck (Option.map_eq_none_iff.mp h)
      exact ⟨haside, herrors⟩
  | minRtt rtt =>
      simp only [entries, after, Flow.step]
      cases hu : (Event.minRtt rtt).uselessRtt with
      | true =>
          have hrefused : f.setMinRtt rtt = (f, [f.entry (.bootstrapRefused rtt)]) := if_pos hu
          rw [hrefused]
          exact ⟨List.forall_mem_singleton.mpr rfl, rfl⟩
      | false =>
          obtain ⟨g, hsame, htaken⟩ := f.setMinRtt_of_useful hu
          rw [htaken, if_neg Bool.false_ne_true, hsame]
          exact ⟨List.forall_mem_singleton.mpr rfl, rfl⟩
  | steadyState =>
      simp only [entries, after, Flow.step, Flow.enterSteadyState]
      split
      · exact ⟨List.forall_mem_nil _, rfl⟩
      · exact ⟨List.forall_mem_singleton.mpr rfl, rfl⟩
  | clock now => exact ⟨List.forall_mem_nil _, rfl⟩
  | _ => exact ⟨List.forall_mem_singleton.mpr rfl, rfl⟩

/-- An event makes its remarks, and dumps the outcome of a recompute after them. -/
theorem entries_eq (t : Transition α) :
    ∃ remarks, t.entries = remarks ++ (if t.recomputed then t.after.dump else []) ∧
      (∀ e ∈ remarks, e.notice.ofDump = false) ∧
      t.after.tally.errors + (if t.event.uselessRtt then 1 else 0) =
        t.before.tally.errors + remarks.countP Entry.isError := by
  cases hp : t.paced? with
  | some g =>
      obtain ⟨remarks, hentries, haside, herrors⟩ := entries_of_paced hp
      have huseful : t.event.uselessRtt = false := by
        obtain ⟨f, e⟩ := t
        cases e <;> first | rfl | cases hp
      refine ⟨remarks, hentries.trans (by rw [dump_of_paced hp]), haside, ?_⟩
      rw [(Flow.paced_frame hp).1, Flow.errors_recompute, huseful, herrors]
      rfl
  | none =>
      obtain ⟨haside, herrors⟩ := entries_of_not_paced hp
      refine ⟨t.entries, ?_, haside, herrors⟩
      rw [not_recomputed_of_not_paced hp, if_neg Bool.false_ne_true, List.append_nil]

theorem errors_after (t : Transition α) :
    t.after.tally.errors + (if t.event.uselessRtt then 1 else 0) =
      t.before.tally.errors + t.entries.countP Entry.isError := by
  obtain ⟨remarks, hentries, -, herrors⟩ := t.entries_eq
  rw [herrors, hentries, List.countP_append]
  split
  · rw [t.after.countP_dump, Nat.add_zero]
  · rfl

end Transition

end Pacing

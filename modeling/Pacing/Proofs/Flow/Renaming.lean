import Pacing.Proofs.Flow.Run
import Pacing.Proofs.Ledger.Renaming

/-!
# Runs under other numbers

Of the sequence numbers in a run only their order matters. A flow keeps them in its ledger and hands them to no
other part of it, so a renaming that keeps the order of the numbers in a run changes nothing but the numbers in the
ledger. A gap in the numbering, which such a renaming may open or close, is no loss.
-/

namespace Pacing

variable {α : Type}

namespace Event

/-- The number of the segment that the event is about. -/
def seq? : Event α → Option Nat
  | .sent seq => some seq
  | .ack (seq + 1) _ _ => some seq
  | _ => none

/-- The event with its segment renamed. An ack of number 0 names none. -/
def rename (σ : Nat → Nat) : Event α → Event α
  | .sent seq => .sent (σ seq)
  | .ack (seq + 1) receiverTs senderTs => .ack (σ seq + 1) receiverTs senderTs
  | e => e

/-- The numbers of the segments that some events are about. -/
def numbers (events : List (Event α)) : Set Nat := {seq | ∃ e ∈ events, e.seq? = some seq}

end Event

namespace Flow

def withLedger (f : Flow α) (l : Ledger α) : Flow α := { f with ledger := l }

/-- The second flow is the first one but for the numbers in its ledger. Those of the first belong to `S`. -/
def Renames (σ : Nat → Nat) (S : Set Nat) (f g : Flow α) : Prop :=
  ∃ l, g = f.withLedger l ∧ f.ledger.Renamed σ l ∧ f.ledger.Within S

section withLedger

variable [Scalar α] (f : Flow α) (l : Ledger α)

theorem recompute_withLedger : (f.withLedger l).recompute.1 = f.recompute.1.withLedger l := by
  have hdue : (f.withLedger l).rateDue = f.rateDue := rfl
  unfold recompute
  rw [hdue]
  split <;> rfl

theorem repairBounds_withLedger : (f.withLedger l).repairBounds = f.repairBounds.withLedger l := by
  have hsize : (f.withLedger l).history.size = f.history.size := rfl
  have hrepair : (f.withLedger l).beliefs.repair (f.withLedger l).config (f.withLedger l).now =
      f.beliefs.repair f.config f.now := rfl
  unfold repairBounds
  rw [hsize, hrepair]
  split
  · rfl
  · split <;> rfl

theorem measured_withLedger (s : Segment α) : (f.withLedger l).measured s = (f.measured s).withLedger l := by
  have hmerged : (f.withLedger l).merged s = (f.merged s).withLedger l := rfl
  unfold measured
  rw [hmerged, repairBounds_withLedger]
  rfl

theorem takeSample_withLedger (s : Segment α) :
    (f.withLedger l).takeSample s =
      (f.takeSample s).withLedger (l.expireLost ((f.measured s).now - (f.measured s).retention)) := by
  rw [takeSample, takeSample, measured_withLedger]
  rfl

end withLedger

/-! ## What the ledger answers -/

section answers

variable [Scalar α] {f : Flow α} {seq : Nat} {a : Anomaly}

theorem recordSent_of_ok {l : Ledger α} (h : f.ledger.recordSent seq f.now f.counters.delivered = .ok l) :
    (f.recordSent seq).1 =
      { f with ledger := l, counters := { f.counters with sent := f.counters.sent + 1 } } := by
  rw [recordSent, h]

theorem recordSent_of_error (h : f.ledger.recordSent seq f.now f.counters.delivered = .error a) :
    f.recordSent seq = f.noteAnomaly a := by
  rw [recordSent, h]

theorem accept_of_resolve_ok {s : Segment α} {l : Ledger α} (h : f.ledger.resolve seq = .ok (s, l)) :
    f.accept (seq + 1) = .ok ((f.withLedger l).deliver seq s) := by
  rw [accept, h]
  rfl

theorem accept_of_resolve_error (h : f.ledger.resolve seq = .error a) : f.accept (seq + 1) = .error a := by
  rw [accept, h]

end answers

/-! ## Events -/

namespace Renames

variable {σ : Nat → Nat} {S : Set Nat} {f g : Flow α}

/-- What does not read the ledger keeps two flows the same but for the numbers. -/
theorem through (h : Renames σ S f g) (act : Flow α → Flow α)
    (hact : ∀ f l, act (f.withLedger l) = (act f).withLedger l) : Renames σ S (act f) (act g) := by
  obtain ⟨l, rfl, hl, hS⟩ := h
  have hself : act f = (act f).withLedger f.ledger := hact f f.ledger
  have hledger : (act f).ledger = f.ledger := by
    rw [hself]
    rfl
  exact ⟨l, hact f l, hledger ▸ hl, hledger ▸ hS⟩

theorem withLedger (h : Renames σ S f g) {l l' : Ledger α} (hl : l.Renamed σ l') (hS : l.Within S) :
    Renames σ S (f.withLedger l) (g.withLedger l') := by
  obtain ⟨_, rfl, -, -⟩ := h
  exact ⟨l', rfl, hl, hS⟩

theorem noteAnomaly (h : Renames σ S f g) (a : Anomaly) :
    Renames σ S (f.noteAnomaly a).1 (g.noteAnomaly (a.rename σ)).1 := by
  obtain ⟨l, rfl, hl, hS⟩ := h
  refine ⟨l, ?_, hl, hS⟩
  cases a <;> rfl

theorem correctLoss (h : Renames σ S f g) (seq : Nat) (s : Segment α) :
    Renames σ S (f.correctLoss seq s).1 (g.correctLoss (σ seq) s).1 := by
  unfold Flow.correctLoss
  split
  · obtain ⟨l, rfl, hl, hS⟩ := h
    exact ⟨l, rfl, hl, hS⟩
  · exact h

variable [Scalar α]

theorem start (c : Config α) : Renames σ S (start c) (start c) :=
  ⟨(Flow.start c).ledger, rfl, .empty _, .empty _⟩

theorem reset (h : Renames σ S f g) : Renames σ S f.reset g.reset := by
  obtain ⟨l, rfl, hl, hS⟩ := h
  exact ⟨l.clear, rfl, hl.clear, .clear _⟩

theorem recompute (h : Renames σ S f g) : Renames σ S f.recompute.1 g.recompute.1 :=
  h.through (fun f => f.recompute.1) recompute_withLedger

theorem updateHistory (h : Renames σ S f g) (s : Segment α) :
    Renames σ S (f.updateHistory s) (g.updateHistory s) := by
  obtain ⟨l, rfl, hl, hS⟩ := h
  have hopen : (f.withLedger l).sampleOpen = f.sampleOpen := rfl
  unfold Flow.updateHistory
  rw [hopen]
  split
  · exact ⟨l, rfl, hl, hS⟩
  · have hledger : (f.takeSample s).ledger =
        f.ledger.expireLost ((f.measured s).now - (f.measured s).retention) :=
      congrArg ledger (f.takeSample_withLedger f.ledger s)
    refine ⟨_, f.takeSample_withLedger l s, ?_, ?_⟩ <;> rw [hledger]
    · exact hl.expireLost hS _
    · exact hS.expireLost _

variable (hσ : StrictMonoOn σ S) {seq : Nat} (hseq : seq ∈ S)

include hσ hseq

theorem recordSent (h : Renames σ S f g) : Renames σ S (f.recordSent seq).1 (g.recordSent (σ seq)).1 := by
  obtain ⟨l, rfl, hl, hS⟩ := id h
  obtain ⟨k, k', hk, hk', hrenamed, hwithin⟩ | ⟨a, ha, ha'⟩ :=
    hl.recordSent hσ hS hseq f.now f.counters.delivered
  · rw [recordSent_of_ok hk, recordSent_of_ok (f := f.withLedger l) hk']
    exact ⟨k', rfl, hrenamed, hwithin⟩
  · rw [recordSent_of_error ha, recordSent_of_error (f := f.withLedger l) ha']
    exact h.noteAnomaly a

theorem credited (h : Renames σ S f g) (s : Segment α) :
    Renames σ S (f.credited seq s) (g.credited (σ seq) s) := by
  obtain ⟨l, rfl, hl, hS⟩ := h
  exact ⟨_, rfl, hl.markLosses hσ hS hseq, hS.markLosses seq⟩

theorem ackedSegment_eq (h : Renames σ S f g) (s : Segment α) :
    g.ackedSegment (σ seq) s = f.ackedSegment seq s := by
  obtain ⟨l, rfl, hl, hS⟩ := h
  have hlosses : (f.withLedger l).ledger.newLosses (σ seq) = f.ledger.newLosses seq := hl.newLosses hσ hS hseq
  unfold Flow.ackedSegment
  rw [hlosses]
  rfl

theorem deliver (h : Renames σ S f g) (s : Segment α) :
    Renames σ S (f.deliver seq s).flow (g.deliver (σ seq) s).flow ∧
      (g.deliver (σ seq) s).segment = (f.deliver seq s).segment := by
  have hcorrected := h.correctLoss seq s
  have hsegment := hcorrected.ackedSegment_eq hσ hseq s
  simp only [Flow.deliver, hsegment, and_true]
  exact hcorrected.credited hσ hseq _

theorem ack (h : Renames σ S f g) :
    Renames σ S (f.ack (seq + 1)).flow (g.ack (σ seq + 1)).flow ∧
      (g.ack (σ seq + 1)).segment? = (f.ack (seq + 1)).segment? := by
  obtain ⟨l, rfl, hl, hS⟩ := id h
  obtain ⟨s, hs, hs'⟩ | ⟨a, ha, ha'⟩ := hl.resolve hσ hS hseq
  · have hsettled := h.withLedger (hl.settle hσ hS hseq) (hS.settle hseq hl.resolved.sound)
    obtain ⟨hdelivered, hsegment⟩ := hsettled.deliver hσ hseq s
    rw [Flow.ack, Flow.ack, accept_of_resolve_ok hs, accept_of_resolve_ok (f := f.withLedger l) hs']
    simp only [hsegment, and_true]
    exact (hdelivered.updateHistory _).recompute
  · rw [Flow.ack, Flow.ack, accept_of_resolve_error ha, accept_of_resolve_error (f := f.withLedger l) ha']
    exact ⟨h.noteAnomaly a, rfl⟩

omit hseq

theorem step (h : Renames σ S f g) {e : Event α} (he : ∀ seq, e.seq? = some seq → seq ∈ S) :
    Renames σ S (f.step e).1 (g.step (e.rename σ)).1 ∧
      (⟨g, e.rename σ⟩ : Transition α).resolved? = (⟨f, e⟩ : Transition α).resolved? := by
  cases e with
  | clock now => exact ⟨h.through (·.setTime now) fun _ _ => rfl, rfl⟩
  | init => exact ⟨h.reset, rfl⟩
  | sent seq => exact ⟨(h.recordSent hσ (he seq rfl)).recompute, rfl⟩
  | ack n r t =>
      cases n with
      | zero => exact ⟨h.noteAnomaly (.unknownAck 0), rfl⟩
      | succ seq => exact h.ack hσ (he seq rfl)
  | timeout => exact ⟨h.through (·.timeout.1) fun _ _ => rfl, rfl⟩
  | linkRate rate => exact ⟨h.through (·.measureLinkRate rate |>.1) fun _ _ => rfl, rfl⟩
  | minRtt rtt =>
      refine ⟨h.through (·.setMinRtt rtt |>.1) fun f l => ?_, rfl⟩
      unfold setMinRtt
      split <;> rfl
  | steadyState => exact ⟨h.through (·.enterSteadyState.1) fun _ _ => rfl, rfl⟩
  | close => exact ⟨h, rfl⟩

theorem run (h : Renames σ S f g) {events : List (Event α)} (hevents : Event.numbers events ⊆ S) :
    Renames σ S (f.run events).1 (g.run (events.map (Event.rename σ))).1 ∧
      (g.transitions (events.map (Event.rename σ))).map Transition.resolved? =
        (f.transitions events).map Transition.resolved? := by
  induction events generalizing f g with
  | nil => exact ⟨h, rfl⟩
  | cons e events ih =>
      obtain ⟨hstep, hresolved⟩ := h.step hσ fun seq hseq => hevents ⟨e, List.mem_cons_self, hseq⟩
      obtain ⟨hrun, hrest⟩ := ih hstep fun seq ⟨e', he', hseq⟩ => hevents ⟨e', List.mem_cons_of_mem e he', hseq⟩
      simp only [List.map_cons, transitions, hresolved, hrest]
      exact ⟨hrun, trivial⟩

end Renames

/-! ## Runs -/

variable [Scalar α]

/-- Only the order of the sequence numbers matters. Under other numbers in the same order a run leads to the same
flow with the same ledger but for the numbers in it, and each ack resolves the same segment, with the same
round-trip time and losses. -/
theorem order_decides (c : Config α) (σ : Nat → Nat) (events : List (Event α))
    (hσ : StrictMonoOn σ (Event.numbers events)) :
    let f := afterRun c events
    let g := afterRun c (events.map (Event.rename σ))
    g = { f with ledger := g.ledger } ∧ g.stats = f.stats ∧ f.ledger.Renamed σ g.ledger ∧
      (∀ seq ∈ Event.numbers events, g.ledger.find? (σ seq) = f.ledger.find? seq) ∧
      ((start c).transitions (events.map (Event.rename σ))).map Transition.resolved? =
        ((start c).transitions events).map Transition.resolved? := by
  intro f g
  obtain ⟨⟨l, hg, hl, hS⟩, hresolved⟩ := (Renames.start c).run hσ fun _ hseq => hseq
  have hg : g = f.withLedger l := hg
  have hledger : g.ledger = l := congrArg ledger hg
  refine ⟨?_, ?_, hledger ▸ hl, fun seq hseq => ?_, hresolved⟩
  · rw [hledger]
    exact hg
  · have hsize : l.size = f.ledger.size := hl.outstanding.size
    rw [hg]
    unfold stats
    rw [← hsize]
    rfl
  · rw [hledger]
    exact hl.find? hσ hS hseq

/-- Two segments are lost and one of them is delivered late, with wide gaps in the numbering and with none. -/
theorem order_decides_without_gaps :
    let c : Config Float := .standard
    let zero : Float := Scalar.zero
    let events : List (Event Float) := [.sent 10, .sent 20, .sent 30, .clock (Scalar.ofNat 20), .ack 31 zero zero,
      .ack 11 zero zero, .ack 31 zero zero, .ack 0 zero zero]
    let σ : Nat → Nat := fun n => n / 10 - 1
    let f := afterRun c events
    let g := afterRun c (events.map (Event.rename σ))
    StrictMonoOn σ (Event.numbers events) ∧ g.counters = ⟨3, 2, 1⟩ ∧
      g = { f with ledger := g.ledger } ∧ f.ledger.Renamed σ g.ledger := by
  intro c zero events σ f g
  have hnumbers : ∀ seq ∈ Event.numbers events, seq = 10 ∨ seq = 20 ∨ seq = 30 := by
    rintro seq ⟨e, he, hseq⟩
    simp only [events, List.mem_cons, List.not_mem_nil, or_false] at he
    rcases he with rfl | rfl | rfl | rfl | rfl | rfl | rfl | rfl <;> cases hseq <;> simp
  have hσ : StrictMonoOn σ (Event.numbers events) := by
    intro a ha b hb hlt
    have ha := hnumbers a ha
    have hb := hnumbers b hb
    simp only [σ]
    omega
  obtain ⟨hflow, -, hledger, -, -⟩ := order_decides c σ events hσ
  exact ⟨hσ, by decide +kernel, hflow, hledger⟩

end Flow

end Pacing

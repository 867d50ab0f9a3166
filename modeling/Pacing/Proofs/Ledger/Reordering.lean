import Mathlib.Data.Finset.Card
import Pacing.Proofs.Ledger.Conservation

/-!
# Reordered acks

Each order of acks marks other segments lost and takes other losses back. As long as no lost segment
expires, all of that cancels: which segments were acked says what is left in the ledger, and the ledger says
what the counters are.
-/

namespace Pacing

variable {α : Type}

namespace Event

def isSent : Event α → Bool
  | .sent _ => true
  | _ => false

def acked? : Event α → Option Nat
  | .ack (seq + 1) _ _ => some seq
  | _ => none

/-- The sequence numbers that some events ack. -/
def ackedIn (events : List (Event α)) : Finset Nat := (events.filterMap acked?).toFinset

theorem ackedIn_concat (events : List (Event α)) (e : Event α) :
    ackedIn (events ++ [e]) =
      match e.acked? with
      | none => ackedIn events
      | some seq => insert seq (ackedIn events) := by
  cases h : e.acked? <;> simp [ackedIn, h]

end Event

open Event Transition

/-! ## The ledger that acks leave -/

namespace Ledger

/-- What is outstanding once some segments are acked: they are gone, and every segment below one of them is
lost. -/
def remaining (l : Ledger α) (seqs : Finset Nat) : SeqMap (Segment α) :=
  (l.outstanding.filter fun i _ => i ∉ seqs).map fun i s =>
    if ∃ j ∈ seqs, i < j then { s with lost := true } else s

theorem find?_remaining (l : Ledger α) (seqs : Finset Nat) (i : Nat) :
    (l.remaining seqs).find? i =
      if i ∈ seqs then none
      else (l.find? i).map fun s => if ∃ j ∈ seqs, i < j then { s with lost := true } else s := by
  rw [remaining, SeqMap.find?_map, SeqMap.find?_filter, find?]
  by_cases hi : i ∈ seqs <;> cases l.outstanding.find? i <;> simp [hi]

theorem remaining_empty (l : Ledger α) : l.remaining ∅ = l.outstanding :=
  SeqMap.ext_find? fun i => by simp [find?_remaining, find?]

theorem remaining_insert {l l' : Ledger α} {seqs : Finset Nat} (h : l'.outstanding = l.remaining seqs)
    (seq : Nat) : ((l'.settle seq).markLosses seq).outstanding = l.remaining (insert seq seqs) := by
  refine SeqMap.ext_find? fun i => ?_
  simp only [markLosses, settle]
  rw [h, SeqMap.find?_map, SeqMap.find?_erase, find?_remaining, find?_remaining]
  by_cases hi : i = seq
  · simp [hi]
  · by_cases hmem : i ∈ seqs
    · simp [hi, hmem]
    · cases l.find? i with
      | none => simp [hi, hmem]
      | some s =>
          simp only [Finset.mem_insert, hi, hmem, or_self, if_false, Option.map_some]
          by_cases hlt : i < seq <;> by_cases hex : ∃ j ∈ seqs, i < j <;> simp [hlt, hex]

theorem outstanding_of_expiring [Scalar α] {l : Ledger α} {horizon : α} (h : l.expiring horizon = 0) :
    (l.expireLost horizon).outstanding = l.outstanding := by
  refine SeqMap.ext_find? fun i => ?_
  rw [expireLost, SeqMap.find?_filter]
  cases hs : l.outstanding.find? i with
  | none => rfl
  | some s =>
      have hkeep : (s.lost && decide (s.sendTstamp < horizon)) = false := by
        by_contra hdrop
        exact absurd h (SeqMap.count_pos hs (by simpa using hdrop)).ne'
      rw [Option.filter_some, hkeep]
      rfl

end Ledger

/-! ## What acks make of a flow -/

/-- What acks of some segments, without a send, make of a flow. -/
structure Delivers (f : Flow α) (seqs : Finset Nat) (g : Flow α) : Prop where
  outstanding : g.ledger.outstanding = f.ledger.remaining seqs
  sent : g.counters.sent = f.counters.sent
  delivered : g.counters.delivered = f.counters.delivered + seqs.card
  inflight : g.beliefs.bqBelief1 = if seqs = ∅ then f.beliefs.bqBelief1 else g.counters.inflight

namespace Delivers

theorem refl (f : Flow α) : Delivers f ∅ f :=
  ⟨f.ledger.remaining_empty.symm, rfl, rfl, rfl⟩

variable {f g : Flow α} {seqs : Finset Nat}

theorem quiet {g' : Flow α} (h : Delivers f seqs g) (hl : g'.ledger = g.ledger)
    (hc : g'.counters = g.counters) (hb : g'.beliefs.bqBelief1 = g.beliefs.bqBelief1) :
    Delivers f seqs g' := by
  refine ⟨?_, ?_, ?_, ?_⟩
  · rw [hl, h.outstanding]
  · rw [hc, h.sent]
  · rw [hc, h.delivered]
  · rw [hb, hc, h.inflight]

theorem find? (h : Delivers f seqs g) (i : Nat) :
    g.ledger.find? i =
      if i ∈ seqs then none
      else (f.ledger.find? i).map fun s => if ∃ j ∈ seqs, i < j then { s with lost := true } else s := by
  rw [← Ledger.find?_remaining, ← h.outstanding]
  rfl

variable [Scalar α]

/-- An ack that lets nothing expire leaves the ledger with its segment out and those below marked. -/
theorem outstanding_ack {g' : Flow α} {seq : Nat} {s₀ s : Segment α} (hg : g.Accepts seq s₀ g' s)
    (hflow : (g.ack (seq + 1)).flow = (g'.updateHistory s).recompute.1) {r t : α}
    (hx : (⟨g, .ack (seq + 1) r t⟩ : Transition α).expired = 0) :
    (g.ack (seq + 1)).flow.ledger.outstanding = ((g.ledger.settle seq).markLosses seq).outstanding := by
  obtain ⟨_, _, _, _, ledger, hledger, hu⟩ := g'.updateHistory_frame s
  have hl : (g.step (.ack (seq + 1) r t)).1.ledger = ledger := by
    simp only [Flow.step, hflow, Flow.ledger_recompute, hu]
  change (g.step (.ack (seq + 1) r t)).1.ledger.outstanding = _
  rw [hg.ledger] at hledger
  rcases hledger with rfl | ⟨horizon, rfl⟩
  · rw [hl]
  · rw [Balanced.expired_ack_of_expireLost hl] at hx
    rw [hl, Ledger.outstanding_of_expiring hx]

theorem ack_new (h : Delivers f seqs g) {seq : Nat} (hnew : seq ∉ seqs)
    (hout : (f.ledger.find? seq).isSome = true) {r t : α}
    (hx : (⟨g, .ack (seq + 1) r t⟩ : Transition α).expired = 0) :
    Delivers f (insert seq seqs) (g.ack (seq + 1)).flow := by
  obtain ⟨hn, -⟩ | ⟨_, s₀, g', s, hn, -, hg, hflow, hseg⟩ := g.ack_cases (seq + 1)
  · rw [Flow.accepted?_eq_none, h.find?, if_neg hnew, Option.map_eq_none_iff] at hn
    simp [hn] at hout
  · cases hn
    have hc : (g.ack (seq + 1)).flow.counters = g'.counters := by
      rw [hflow, Flow.counters_recompute, Flow.counters_updateHistory]
    refine ⟨?_, ?_, ?_, ?_⟩
    · rw [outstanding_ack hg hflow hx, Ledger.remaining_insert h.outstanding]
    · rw [hc, hg.counters, h.sent]
    · rw [hc, hg.counters, Finset.card_insert_of_notMem hnew, h.delivered]
      rfl
    · rw [if_neg (Finset.insert_ne_empty seq seqs), Flow.bqBelief1_ack hseg]

theorem refused (h : Delivers f seqs g) {n : Nat} (hn : g.accepted? n = none) :
    Delivers f seqs (g.ack n).flow := by
  obtain ⟨a, ha⟩ := Flow.ack_of_refused hn
  rw [ha]
  exact h.quiet rfl rfl rfl

theorem ack_again (h : Delivers f seqs g) {seq : Nat} (hold : seq ∈ seqs) :
    Delivers f (insert seq seqs) (g.ack (seq + 1)).flow := by
  rw [Finset.insert_eq_of_mem hold]
  exact h.refused (Flow.accepted?_eq_none.mpr (by rw [h.find?, if_pos hold]))

theorem other (h : Delivers f seqs g) {e : Event α} (hs : e.isSent = false) (hi : e.isInit = false)
    (ha : e.acked? = none) : Delivers f seqs (g.step e).1 := by
  cases e with
  | init => cases hi
  | sent seq => cases hs
  | ack n r t =>
      cases n with
      | zero => exact h.refused rfl
      | succ seq => cases ha
  | minRtt rtt =>
      refine h.quiet ?_ ?_ ?_ <;> simp only [Flow.step, Flow.setMinRtt] <;> split <;> rfl
  | _ => exact h.quiet rfl rfl rfl

/-! ## Runs of acks -/

theorem run (f : Flow α) (events : List (Event α)) :
    (∀ e ∈ events, e.isSent = false ∧ e.isInit = false) →
      (∀ seq ∈ ackedIn events, (f.ledger.find? seq).isSome = true) →
      expiredIn (f.transitions events) = 0 → Delivers f (ackedIn events) (f.run events).1 := by
  induction events using List.reverseRecOn with
  | nil => exact fun _ _ _ => refl f
  | append_singleton events e ih =>
      intro hcalm hout hx
      rw [Flow.transitions_concat, expiredIn_concat, Nat.add_eq_zero_iff] at hx
      rw [ackedIn_concat] at hout ⊢
      rw [Flow.run_concat]
      obtain ⟨hs, hi⟩ := hcalm e (by simp)
      have hcalm' : ∀ e ∈ events, e.isSent = false ∧ e.isInit = false := fun e he => hcalm e (by simp [he])
      cases ha : e.acked? with
      | none =>
          simp only [ha] at hout ⊢
          exact (ih hcalm' hout hx.1).other hs hi ha
      | some seq =>
          simp only [ha] at hout ⊢
          have h := ih hcalm' (fun i hi => hout i (Finset.mem_insert_of_mem hi)) hx.1
          obtain ⟨r, t, rfl⟩ : ∃ r t, e = .ack (seq + 1) r t := by
            unfold acked? at ha
            split at ha <;> cases ha
            exact ⟨_, _, rfl⟩
          by_cases hmem : seq ∈ ackedIn events
          · exact h.ack_again hmem
          · exact h.ack_new hmem (hout seq (Finset.mem_insert_self _ _)) hx.2

end Delivers

namespace Flow

variable [Scalar α]

/-- Flows that delivered the same segments agree, since the ledger tells the lost count. -/
theorem counters_eq_of_delivers {c : Config α} {past events₁ events₂ : List (Event α)} {seqs : Finset Nat}
    (h₁ : Delivers (afterRun c past) seqs (afterRun c (past ++ events₁)))
    (h₂ : Delivers (afterRun c past) seqs (afterRun c (past ++ events₂))) :
    (afterRun c (past ++ events₁)).counters = (afterRun c (past ++ events₂)).counters := by
  have hlive : (afterRun c (past ++ events₁)).ledger.live = (afterRun c (past ++ events₂)).ledger.live := by
    rw [Ledger.live, h₁.outstanding, ← h₂.outstanding, Ledger.live]
  have hb₁ := (Balanced.afterRun c (past ++ events₁)).sent
  have hb₂ := (Balanced.afterRun c (past ++ events₂)).sent
  have hs := h₁.sent.trans h₂.sent.symm
  have hd := h₁.delivered.trans h₂.delivered.symm
  -- What was sent is delivered, lost or live, so the lost count follows from the other three.
  have hl : (afterRun c (past ++ events₁)).counters.lost = (afterRun c (past ++ events₂)).counters.lost := by
    omega
  cases h : (afterRun c (past ++ events₁)).counters
  cases h' : (afterRun c (past ++ events₂)).counters
  simp_all

/-- After any past, two runs that ack the same outstanding segments in any two orders, with clock readings
and anything else but sends and `init` in between, end with the same counters, the same amount in flight and
the same ledger, unless a lost segment expired. Every one of the segments is delivered, and a segment that
is left is lost if it was before or one above it was acked. -/
theorem reordering_corrected (c : Config α) (past run₁ run₂ : List (Event α)) (seqs : Finset Nat)
    (hout : ∀ seq ∈ seqs, ((afterRun c past).ledger.find? seq).isSome = true)
    (hcalm : ∀ e ∈ run₁ ++ run₂, e.isSent = false ∧ e.isInit = false)
    (hacked₁ : ackedIn run₁ = seqs) (hacked₂ : ackedIn run₂ = seqs)
    (hkept₁ : expiredIn ((afterRun c past).transitions run₁) = 0)
    (hkept₂ : expiredIn ((afterRun c past).transitions run₂) = 0) :
    let f := afterRun c past
    let g₁ := afterRun c (past ++ run₁)
    let g₂ := afterRun c (past ++ run₂)
    g₁.counters = g₂.counters ∧ g₁.beliefs.bqBelief1 = g₂.beliefs.bqBelief1 ∧
      g₁.ledger.outstanding = g₂.ledger.outstanding ∧
      g₁.counters.delivered = f.counters.delivered + seqs.card ∧
      ∀ seq, g₁.ledger.find? seq =
        if seq ∈ seqs then none
        else (f.ledger.find? seq).map fun s => if ∃ j ∈ seqs, seq < j then { s with lost := true } else s := by
  subst hacked₁
  intro f g₁ g₂
  have h₁ : Delivers f (ackedIn run₁) g₁ := by
    rw [show g₁ = (f.run run₁).1 from afterRun_append c past run₁]
    exact .run f run₁ (fun e he => hcalm e (List.mem_append_left _ he)) hout hkept₁
  have h₂ : Delivers f (ackedIn run₁) g₂ := by
    rw [show g₂ = (f.run run₂).1 from afterRun_append c past run₂, ← hacked₂]
    exact .run f run₂ (fun e he => hcalm e (List.mem_append_right _ he)) (hacked₂ ▸ hout) hkept₂
  have hc : g₁.counters = g₂.counters := counters_eq_of_delivers h₁ h₂
  refine ⟨hc, ?_, h₁.outstanding.trans h₂.outstanding.symm, h₁.delivered, h₁.find?⟩
  rw [h₁.inflight, h₂.inflight, hc]

/-- Of five segments three are acked upwards in one run and downwards in the other. -/
theorem reordering_corrected_of_five :
    let c : Config Float := .standard
    let past : List (Event Float) := [.sent 0, .sent 1, .sent 2, .sent 3, .sent 4]
    let zero : Float := Scalar.zero
    let run₁ := [.clock (Scalar.ofNat 20), .ack 1 zero zero, .ack 3 zero zero, .ack 4 zero zero]
    let run₂ := [.clock (Scalar.ofNat 25), .ack 4 zero zero, .clock (Scalar.ofNat 30), .ack 3 zero zero,
      .ack 1 zero zero]
    let f := afterRun c past
    let g₁ := afterRun c (past ++ run₁)
    let g₂ := afterRun c (past ++ run₂)
    (∀ seq ∈ ({0, 2, 3} : Finset Nat), (f.ledger.find? seq).isSome = true) ∧
      (∀ e ∈ run₁ ++ run₂, e.isSent = false ∧ e.isInit = false) ∧
      ackedIn run₁ = {0, 2, 3} ∧ ackedIn run₂ = {0, 2, 3} ∧
      expiredIn (f.transitions run₁) = 0 ∧ expiredIn (f.transitions run₂) = 0 ∧
      g₁.counters = g₂.counters ∧ g₁.beliefs.bqBelief1 = g₂.beliefs.bqBelief1 ∧
      g₁.ledger.outstanding = g₂.ledger.outstanding ∧
      g₁.counters.delivered = f.counters.delivered + 3 ∧
      ∀ seq, g₁.ledger.find? seq =
        if seq ∈ ({0, 2, 3} : Finset Nat) then none
        else (f.ledger.find? seq).map fun s =>
          if ∃ j ∈ ({0, 2, 3} : Finset Nat), seq < j then { s with lost := true } else s := by
  intro c past zero run₁ run₂
  have hout : ∀ seq ∈ ({0, 2, 3} : Finset Nat), ((afterRun c past).ledger.find? seq).isSome = true := by
    decide +kernel
  have hcalm : ∀ e ∈ run₁ ++ run₂, e.isSent = false ∧ e.isInit = false := by decide +kernel
  have h₁ : ackedIn run₁ = {0, 2, 3} := by decide +kernel
  have h₂ : ackedIn run₂ = {0, 2, 3} := by decide +kernel
  have hx₁ : expiredIn ((afterRun c past).transitions run₁) = 0 := by decide +kernel
  have hx₂ : expiredIn ((afterRun c past).transitions run₂) = 0 := by decide +kernel
  exact ⟨hout, hcalm, h₁, h₂, hx₁, hx₂, reordering_corrected c past run₁ run₂ {0, 2, 3} hout hcalm h₁ h₂ hx₁ hx₂⟩

end Flow

end Pacing

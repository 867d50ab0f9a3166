import Pacing.Proofs.Flow.Stages

/-!
# What no decision reads

The tally and the link rate are for reports, and a history is read where a sample is taken. To change them
commutes with every operation that does not read them, as long as the counts go on from where they were.
-/

namespace Pacing

variable {α : Type}

/-- A change of the tally, the link rate and the history of a flow. -/
structure Overlay (α : Type) where
  tally : Tally → Tally
  linkRate : Option α → Option α
  history : Ring (Sample α) → Ring (Sample α)
  tally_count : ∀ t a, tally (t.count a) = (tally t).count a
  tally_recompute : ∀ t, tally { t with recomputes := t.recomputes + 1 } =
    { tally t with recomputes := (tally t).recomputes + 1 }
  tally_repair : ∀ t, tally { t with repairs := t.repairs + 1 } =
    { tally t with repairs := (tally t).repairs + 1 }

namespace Flow

def overlay (f : Flow α) (o : Overlay α) : Flow α :=
  { f with tally := o.tally f.tally, linkRate := o.linkRate f.linkRate, history := o.history f.history }

/-- An overlay that changes the record of timeouts, too. No operation but a recompute reads it. -/
def recast (f : Flow α) (o : Overlay α) (pending : Bool → Bool) : Flow α :=
  { f.overlay o with pendingTimeout := pending f.pendingTimeout }

variable (f : Flow α) (o : Overlay α) (pending : Bool → Bool)

theorem noteAnomaly_recast (a : Anomaly) :
    ((f.recast o pending).noteAnomaly a).1 = (f.noteAnomaly a).1.recast o pending := by
  simp only [noteAnomaly, recast, overlay, o.tally_count]

variable [Scalar α]

theorem recompute_overlay : (f.overlay o).recompute.1 = f.recompute.1.overlay o := by
  have hdue : (f.overlay o).rateDue = f.rateDue := rfl
  unfold recompute
  rw [hdue]
  split
  · simp only [redecide, overlay, o.tally_recompute]
    rfl
  · rfl

theorem repairBounds_recast (h : (o.history f.history).size = f.history.size) :
    (f.recast o pending).repairBounds = f.repairBounds.recast o pending := by
  have hsize : (f.recast o pending).history.size = f.history.size := h
  have hrepair : (f.recast o pending).beliefs.repair (f.recast o pending).config (f.recast o pending).now =
      f.beliefs.repair f.config f.now := rfl
  unfold repairBounds
  rw [hsize, hrepair]
  split
  · rfl
  · split
    · simp only [recast, overlay, o.tally_repair]
    · rfl

theorem repairBounds_overlay (h : (o.history f.history).size = f.history.size) :
    (f.overlay o).repairBounds = f.repairBounds.overlay o :=
  f.repairBounds_recast o id h

theorem recordSent_recast (seq : Nat) :
    ((f.recast o pending).recordSent seq).1 = (f.recordSent seq).1.recast o pending := by
  have hsent : (f.recast o pending).ledger.recordSent seq (f.recast o pending).now
      (f.recast o pending).counters.delivered = f.ledger.recordSent seq f.now f.counters.delivered := rfl
  unfold recordSent
  rw [hsent]
  split
  · rfl
  · exact f.noteAnomaly_recast o pending _

theorem recordSent_overlay (seq : Nat) : ((f.overlay o).recordSent seq).1 = (f.recordSent seq).1.overlay o :=
  f.recordSent_recast o id seq

theorem accept_recast (n : Nat) :
    (f.recast o pending).accept n = (f.accept n).map fun r => { r with flow := r.flow.recast o pending } := by
  cases n with
  | zero => rfl
  | succ seq =>
      have hledger : (f.recast o pending).ledger = f.ledger := rfl
      simp only [accept, hledger]
      cases f.ledger.resolve seq with
      | error a => rfl
      | ok r =>
          obtain ⟨s, ledger⟩ := r
          simp only [Except.map, deliver, correctLoss]
          split
          · simp only [noteAnomaly, recast, overlay, o.tally_count, ackedSegment, credited]
            rfl
          · rfl

theorem accepted?_recast (n : Nat) :
    (f.recast o pending).accepted? n = (f.accepted? n).map fun (g, s) => (g.recast o pending, s) := by
  rw [accepted?, accepted?, accept_recast]
  cases f.accept n <;> rfl

theorem accepted?_overlay (n : Nat) :
    (f.overlay o).accepted? n = (f.accepted? n).map fun (g, s) => (g.overlay o, s) :=
  f.accepted?_recast o id n

/-- An ack is refused for the same reason, whatever the pass. -/
theorem ack_recast_of_refused {n : Nat} (h : f.accepted? n = none) (learn : Learn α := Beliefs.learnThroughput) :
    ((f.recast o pending).ack n learn).flow = (f.ack n).flow.recast o pending := by
  obtain ⟨a, ha⟩ := accept_of_refused h
  rw [ack, ack, accept_recast, ha]
  exact f.noteAnomaly_recast o pending a

theorem segment?_ack_overlay (n : Nat) : ((f.overlay o).ack n).segment? = (f.ack n).segment? := by
  rw [segment?_ack, segment?_ack, accepted?_overlay, Option.map_map]
  rfl

/-! ## With the history as it is -/

section keepsHistory

variable {o} (h : o.history = id)

include h

theorem takeSample_recast (s : Segment α) :
    (f.recast o pending).takeSample s = (f.takeSample s).recast o pending := by
  have hmerged : (f.recast o pending).merged s = (f.merged s).recast o pending := by
    simp only [merged, recast, overlay, h]
    rfl
  have hmeasured : (f.recast o pending).measured s = (f.measured s).recast o pending := by
    unfold measured
    rw [hmerged, repairBounds_recast _ _ _ (by rw [h]; rfl)]
    simp only [recast, overlay, h]
    rfl
  rw [takeSample, takeSample, hmeasured]
  rfl

theorem updateHistory_recast (s : Segment α) :
    (f.recast o pending).updateHistory s = (f.updateHistory s).recast o pending := by
  have hopen : (f.recast o pending).sampleOpen = f.sampleOpen := by
    simp only [sampleOpen, recast, overlay, h]
    rfl
  unfold updateHistory
  rw [hopen]
  split
  · simp only [recast, overlay, h]
    rfl
  · exact f.takeSample_recast pending h s

theorem ack_overlay (n : Nat) : ((f.overlay o).ack n).flow = (f.ack n).flow.overlay o := by
  cases hacc : f.accepted? n with
  | some r =>
      obtain ⟨g, s⟩ := r
      have hoverlay : (f.overlay o).accepted? n = some (g.overlay o, s) := by
        rw [accepted?_overlay, hacc]
        rfl
      have hupdate : (g.overlay o).updateHistory s = (g.updateHistory s).overlay o := g.updateHistory_recast id h s
      rw [(ack_of_accepted hacc).1, (ack_of_accepted hoverlay).1, hupdate, recompute_overlay]
  | none => exact f.ack_recast_of_refused o id hacc

/-- Only a measured link rate shows through. -/
theorem step_overlay (e : Event α) (he : ∀ rate, e = .linkRate rate → o.linkRate (some rate) = some rate) :
    ((f.overlay o).step e).1 = (f.step e).1.overlay o := by
  cases e with
  | init =>
      simp only [step, init, reset, overlay, h]
      rfl
  | sent seq =>
      change ((f.overlay o).recordSent seq).1.recompute.1 = _
      rw [recordSent_overlay, recompute_overlay]
      rfl
  | ack n r s => exact f.ack_overlay h n
  | timeout => simp only [step, timeout, overlay, o.tally_count]
  | linkRate rate => simp only [step, measureLinkRate, overlay, he rate rfl]
  | minRtt rtt => simp only [step, setMinRtt]; split <;> rfl
  | _ => rfl

end keepsHistory

end Flow

end Pacing

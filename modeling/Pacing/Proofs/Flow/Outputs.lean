import Pacing.Proofs.Beliefs.Floor
import Pacing.Proofs.Flow.FiniteRtt
import Pacing.Proofs.Scalar.Double

/-!
# The outputs of a flow

Window and decision change only when the rate is recomputed, which is the last thing that an event does.
Whatever times and rates the events carried, the outcome of the last recompute is one that the driver can
act on.
-/

namespace Pacing

variable {α : Type} [Scalar α]

open Scalar

/-- The event made the flow recompute. -/
def Transition.recomputed (t : Transition α) : Bool :=
  t.before.tally.recomputes < t.after.tally.recomputes

/-- The flow that a send or an accepted ack leads to, up to the recompute at its end. -/
def Transition.paced? (t : Transition α) : Option (Flow α) :=
  match t.event with
  | .sent seq => some (t.before.recordSent seq).1
  | .ack n _ _ => (t.before.accepted? n).map fun (g, s) => g.updateHistory s
  | _ => none

namespace Flow

/-- The last transition that made the flow recompute. -/
def lastRecompute? (ts : List (Transition α)) : Option (Transition α) :=
  (ts.filter Transition.recomputed).getLast?

/-- The outputs are those of the last recompute, with the floor rate of that moment kept to, or the initial
ones. -/
def OutputsUsable (c : Config α) (ts : List (Transition α)) (f : Flow α) : Prop :=
  match lastRecompute? ts with
  | none => f.window = c.initialWindow ∧ f.decision = ⟨c.initMinC, c.minWindow, zero⟩
  | some t =>
    f.window = t.after.window ∧ f.decision = t.after.decision ∧
      f.decision.Usable c (t.after.beliefs.minSendingRate c) ∧
      f.window = truncate f.decision.cwnd ∧ c.minCwnd ≤ f.window

theorem lastRecompute?_concat (ts : List (Transition α)) (t : Transition α) :
    lastRecompute? (ts ++ [t]) = if t.recomputed then some t else lastRecompute? ts := by
  unfold lastRecompute?
  cases h : t.recomputed <;> simp [h]

/-! ## Steps -/

@[simp] theorem recomputes_count (t : Tally) (a : Anomaly) : (t.count a).recomputes = t.recomputes := by
  cases a <;> rfl

theorem recordSent_frame (f : Flow α) (seq : Nat) :
    (f.recordSent seq).1.tally.recomputes = f.tally.recomputes ∧
      ∃ ledger counters tally, (f.recordSent seq).1 = { f with ledger, counters, tally } := by
  unfold recordSent
  split
  · exact ⟨rfl, _, _, _, rfl⟩
  · exact ⟨recomputes_count _ _, _, _, _, rfl⟩

/-- What comes before a recompute leaves configuration, clock, phase and outputs alone. -/
theorem paced_frame {t : Transition α} {g : Flow α} (h : t.paced? = some g) :
    t.after = g.recompute.1 ∧ g.tally.recomputes = t.before.tally.recomputes ∧
      ∃ ledger history beliefs counters lastHistoryUpdate tally, g = { t.before with
        ledger, history, beliefs, counters, lastHistoryUpdate, tally } := by
  obtain ⟨f, e⟩ := t
  cases e with
  | sent seq =>
      cases h
      obtain ⟨hcount, _, _, _, hframe⟩ := recordSent_frame f seq
      exact ⟨rfl, hcount, _, _, _, _, _, _, hframe⟩
  | ack n r r' =>
      obtain ⟨⟨g', s⟩, ha, rfl⟩ := Option.map_eq_some_iff.mp h
      obtain ⟨seq, s₀, -, hacc⟩ := accepts_of_accepted ha
      obtain ⟨_, _, _, _, hframe⟩ := accepted_frame ha
      obtain ⟨_, _, _, _, _, -, hupdate⟩ := g'.updateHistory_frame s
      refine ⟨(ack_of_accepted ha).1, ?_, ?_⟩
      · rw [recomputes_updateHistory, hacc.recomputes]
      · dsimp only
        rw [hupdate, hframe]
        exact ⟨_, _, _, _, _, _, rfl⟩
  | _ => cases h

/-- All other events recompute nothing, and within an epoch they leave the outputs alone. -/
theorem outputs_of_not_paced {t : Transition α} (h : t.paced? = none) :
    t.after.tally.recomputes = t.before.tally.recomputes ∧
      (t.event.isInit = false →
        t.after.decision = t.before.decision ∧ t.after.window = t.before.window) := by
  obtain ⟨f, e⟩ := t
  cases e with
  | init => exact ⟨rfl, nofun⟩
  | sent seq => cases h
  | ack n r r' =>
      obtain ⟨-, a, ha⟩ | ⟨_, _, _, _, _, ha, -⟩ := f.ack_cases n
      · simp [Transition.after, step, ha, refuseAck, noteAnomaly]
      · simp [Transition.paced?, ha] at h
  | minRtt rtt =>
      simp only [Transition.after, step, setMinRtt]
      split <;> exact ⟨rfl, fun _ => ⟨rfl, rfl⟩⟩
  | _ => exact ⟨rfl, fun _ => ⟨rfl, rfl⟩⟩

/-- An event decides anew, or leaves the outputs as they are. -/
theorem outputs_after (t : Transition α) (h : t.event.isInit = false) :
    (t.recomputed = true ∧ ∃ g : Flow α, g.config = t.before.config ∧ t.after = g.redecide) ∨
    (t.recomputed = false ∧ t.after.decision = t.before.decision ∧ t.after.window = t.before.window) := by
  unfold Transition.recomputed
  cases hp : t.paced? with
  | some g =>
      obtain ⟨hafter, hcount, _, _, _, _, _, _, hframe⟩ := paced_frame hp
      rw [hafter, recompute, ← hcount]
      split
      · refine .inl ⟨decide_eq_true (Nat.lt_succ_self _), g, ?_, rfl⟩
        rw [hframe]
      · refine .inr ⟨decide_eq_false (Nat.lt_irrefl _), ?_, ?_⟩ <;> rw [hframe]
  | none =>
      obtain ⟨hcount, houtputs⟩ := outputs_of_not_paced hp
      refine .inr ⟨?_, houtputs h⟩
      rw [hcount]
      exact decide_eq_false (Nat.lt_irrefl _)

/-! ## Runs -/

variable [LawfulScalar α]

theorem usable_redecide {g : Flow α} (hc : g.config.minCwnd ≠ 0)
    (hfin : isFinite g.beliefs.minRtt = true) :
    g.redecide.decision.Usable g.config (g.beliefs.minSendingRate g.config) := by
  unfold redecide
  cases g.pendingTimeout with
  | true => exact Decision.usable_floor hc hfin
  | false => exact Decision.usable_decision g.phases hc hfin

/-- Dropping the fraction of a window keeps it at the smallest one or above. -/
theorem minCwnd_le_truncate {c : Config α} {cwnd : α} (h : c.minWindow ≤ cwnd) :
    c.minCwnd ≤ truncate cwnd :=
  UInt32.le_iff_toNat_le.mpr (LawfulScalar.le_truncate c.minCwnd.toNat_lt h)

theorem OutputsUsable.after {c : Config α} {ts : List (Transition α)} {t : Transition α}
    (hc : c.minCwnd ≠ 0) (hconfig : t.before.config = c) (he : t.event.isInit = false)
    (hfin : isFinite t.after.beliefs.minRtt = true) (h : OutputsUsable c ts t.before) :
    OutputsUsable c (ts ++ [t]) t.after := by
  unfold OutputsUsable
  rw [lastRecompute?_concat]
  rcases outputs_after t he with ⟨hr, g, hg, heq⟩ | ⟨hr, hd, hw⟩
  · have hgc : g.config = c := hg.trans hconfig
    rw [if_pos hr]
    dsimp only
    rw [heq] at hfin ⊢
    have husable := usable_redecide (g := g) (hgc ▸ hc) hfin
    rw [hgc] at husable
    exact ⟨rfl, rfl, husable, rfl, minCwnd_le_truncate husable.minWindow_le_cwnd⟩
  · rw [if_neg (by simp [hr]), hd, hw]
    exact h

theorem outputsUsable_epoch (c : Config α) (hc : c.fault? = none) (events : List (Event α)) :
    (afterRun c events).FiniteRtt ∧ OutputsUsable c (epoch c events) (afterRun c events) := by
  have hmin : c.minCwnd ≠ 0 := (Config.fault?_eq_none.mp hc).2.1
  refine epoch_induction (P := fun ts f => f.FiniteRtt ∧ OutputsUsable c ts f) c ?_ ?_ ?_ events
  · exact ⟨.start hc, rfl, rfl⟩
  · rintro f rfl ⟨_, hf, -⟩
    exact ⟨.reset hc rfl hf.bootstrap, rfl, rfl⟩
  · intro ts f e hf he h
    have hfin := FiniteRtt.after (t := ⟨f, e⟩) he h.1
    exact ⟨hfin, .after hmin hf he hfin.isFinite_minRtt h.2⟩

/-- Under a configuration that passes its check, no run of events, whatever clock readings and rates they
carry, takes the outputs below the floor. -/
theorem outputs_usable (c : Config Float) (hc : c.fault? = none) (events : List (Event Float)) :
    OutputsUsable c (epoch c events) (afterRun c events) :=
  (outputsUsable_epoch c hc events).2

/-- With a clock that is no number, every send recomputes. -/
theorem outputs_usable_without_clock :
    let c : Config Float := .standard
    let events : List (Event Float) := [.clock (.ofBits 0x7ff8000000000000), .sent 0]
    c.fault? = none ∧ (lastRecompute? (epoch c events)).isSome = true ∧
      OutputsUsable c (epoch c events) (afterRun c events) :=
  ⟨by decide +kernel, by decide +kernel, outputs_usable _ (by decide +kernel) _⟩

end Flow

end Pacing

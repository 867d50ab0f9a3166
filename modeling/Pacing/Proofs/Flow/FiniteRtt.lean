import Pacing.Proofs.Config
import Pacing.Proofs.Flow.Run

/-!
# Finite round-trip times

Within an epoch, the round-trip time that a flow believes in only takes in what an accepted ack or the
driver has measured. What it takes in is never negative, so it stays finite whatever the clock does.
-/

namespace Pacing

variable {α : Type} [Scalar α]

open Scalar

/-- The round-trip time that the driver gives, if it is of use. -/
def Event.bootstrap? : Event α → Option α
  | .minRtt rtt => if uselessTime rtt then none else some rtt
  | _ => none

/-- The round-trip time that an event brings in, if any. -/
def Transition.rtt? (t : Transition α) : Option α :=
  match t.event with
  | .ack .. => t.resolved?.map (·.rtt)
  | e => e.bootstrap?

namespace Flow

theorem minRtt_recordSent (f : Flow α) (seq : Nat) :
    (f.recordSent seq).1.beliefs.minRtt = f.beliefs.minRtt := by
  unfold recordSent
  split <;> rfl

theorem minRtt_ack (f : Flow α) (n : Nat) :
    (f.ack n).flow.beliefs.minRtt =
      match (f.ack n).segment? with
      | none => f.beliefs.minRtt
      | some s => Scalar.min f.beliefs.minRtt s.rtt := by
  obtain ⟨-, a, ha⟩ | ⟨_, _, _, _, _, -, hacc, hflow, hseg⟩ := f.ack_cases n
  · rw [ha]; rfl
  · rw [hflow, hseg, beliefs_recompute, minRtt_updateHistory, hacc.beliefs]
    rfl

/-- Every event but `init` takes in the round-trip time that it brings, and nothing else. -/
theorem minRtt_after (t : Transition α) (h : t.event.isInit = false) :
    t.after.beliefs.minRtt =
      match t.rtt? with
      | none => t.before.beliefs.minRtt
      | some rtt => Scalar.min t.before.beliefs.minRtt rtt := by
  obtain ⟨f, e⟩ := t
  cases e with
  | init => cases h
  | sent seq =>
      simp only [Transition.after, step, sent, beliefs_recompute, minRtt_recordSent]
      rfl
  | ack n _ _ =>
      simp only [Transition.after, Transition.rtt?, Transition.resolved?, step, minRtt_ack]
      cases (f.ack n).segment? <;> rfl
  | minRtt rtt =>
      simp only [Transition.after, Transition.rtt?, Event.bootstrap?, step, setMinRtt]
      split <;> rfl
  | _ => rfl

/-! ## Round-trip times from the driver -/

theorem useful_bootstrap {e : Event α} {rtt : α} (h : e.bootstrap? = some rtt) : uselessTime rtt = false := by
  cases e with
  | minRtt r =>
      simp only [Event.bootstrap?, Option.ite_none_left_eq_some, Option.some.injEq, Bool.not_eq_true] at h
      obtain ⟨huseful, rfl⟩ := h
      exact huseful
  | _ => cases h

/-- What the next epoch starts from is the last round-trip time of use. -/
theorem bootstrapMinRtt_step (f : Flow α) (e : Event α) :
    (f.step e).1.bootstrapMinRtt = e.bootstrap?.or f.bootstrapMinRtt := by
  cases e with
  | sent seq =>
      simp only [step, sent, bootstrapMinRtt_recompute, recordSent]
      split <;> rfl
  | ack n _ _ =>
      obtain ⟨-, a, ha⟩ | ⟨_, _, _, _, _, -, hacc, hflow, -⟩ := f.ack_cases n
      · simp only [step, ha]
        rfl
      · simp only [step, hflow, bootstrapMinRtt_recompute, bootstrapMinRtt_updateHistory, hacc.bootstrapMinRtt]
        rfl
  | minRtt rtt =>
      simp only [step, setMinRtt, Event.bootstrap?]
      split <;> rfl
  | _ => rfl

/-! ## What a flow believes in -/

variable [LawfulScalar α]

theorem zero_le_of_useful {rtt : α} (h : uselessTime rtt = false) : zero ≤ rtt :=
  le_of_lt (uselessTime_eq_false.mp h).2

theorem zero_le_rtt {t : Transition α} {rtt : α} (h : t.rtt? = some rtt) : zero ≤ rtt := by
  obtain ⟨f, e⟩ := t
  cases e with
  | ack n _ _ =>
      simp only [Transition.rtt?, Transition.resolved?, segment?_ack, Option.map_map,
        Option.map_eq_some_iff] at h
      obtain ⟨r, hr, rfl⟩ := h
      obtain ⟨seq, s₀, rfl, ha⟩ := accepts_of_accepted hr
      simp only [Function.comp_apply, ha.rtt]
      exact le_max_right _ number_zero
  | minRtt r => exact zero_le_of_useful (useful_bootstrap (e := .minRtt r) h)
  | _ => cases h

/-- The round-trip time believed in is finite and not negative, and so is what the next epoch starts
from. -/
structure FiniteRtt (f : Flow α) : Prop where
  isFinite_minRtt : isFinite f.beliefs.minRtt = true
  zero_le_minRtt : zero ≤ f.beliefs.minRtt
  bootstrap : ∀ rtt, f.bootstrapMinRtt = some rtt → uselessTime rtt = false

namespace FiniteRtt

variable {f : Flow α} {c : Config α}

theorem reset (hc : c.fault? = none) (hf : f.config = c)
    (h : ∀ rtt, f.bootstrapMinRtt = some rtt → uselessTime rtt = false) : f.reset.FiniteRtt := by
  have hseed : uselessTime f.reset.beliefs.minRtt = false := by
    change uselessTime (f.bootstrapMinRtt.getD f.config.timeDeltaMax) = false
    cases hb : f.bootstrapMinRtt with
    | none => exact hf ▸ Config.useful_period hc c.timeDeltaMax_mem_periods
    | some rtt => exact h rtt hb
  exact ⟨(uselessTime_eq_false.mp hseed).1, zero_le_of_useful hseed, h⟩

theorem start (hc : c.fault? = none) : (Flow.start c).FiniteRtt :=
  reset hc rfl nofun

theorem after {t : Transition α} (h : t.event.isInit = false) (hf : t.before.FiniteRtt) :
    t.after.FiniteRtt := by
  have hboot : ∀ rtt, t.after.bootstrapMinRtt = some rtt → uselessTime rtt = false := by
    intro rtt hrtt
    rw [Transition.after, bootstrapMinRtt_step] at hrtt
    rcases Option.or_eq_some_iff.mp hrtt with hgiven | ⟨-, hkept⟩
    · exact useful_bootstrap hgiven
    · exact hf.bootstrap rtt hkept
  have hmin := minRtt_after t h
  cases hr : t.rtt? with
  | none =>
      rw [hr] at hmin
      exact ⟨hmin ▸ hf.isFinite_minRtt, hmin ▸ hf.zero_le_minRtt, hboot⟩
  | some rtt =>
      rw [hr] at hmin
      have hpos := le_min hf.zero_le_minRtt (zero_le_rtt hr)
      have hle := min_le_left (number_right hf.zero_le_minRtt) rtt
      have hfin := LawfulScalar.isFinite_of_le_of_le (LawfulScalar.isFinite_ofNat (by decide))
        hf.isFinite_minRtt hpos hle
      exact ⟨hmin ▸ hfin, hmin ▸ hpos, hboot⟩

end FiniteRtt

end Flow

end Pacing

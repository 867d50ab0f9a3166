import Pacing.Proofs.Beliefs.Repair
import Pacing.Proofs.Flow.Run
import Pacing.Proofs.Scalar.Double

/-!
# Repairs in a run

The capacity bounds change only when an accepted ack takes a sample: they are tightened by what the history
then shows, and a repair may relax them. In every reachable state the bounds are such that a repair only
relaxes.
-/

namespace Pacing

variable {α : Type} [Scalar α]

open Scalar

namespace Flow

/-- The history that an ack leaves to learn from, newest sample first. -/
def scanned (g : Flow α) (s : Segment α) : List (Sample α) := (g.merged s).history.toList.reverse

/-- The repair that is due, if any. -/
def repair? (g : Flow α) : Option Beliefs.Repair :=
  if g.history.size ≤ 1 then none else (g.beliefs.repair g.config g.now).2

/-! ## Samples -/

@[simp] theorem minSendingRate_merged (g : Flow α) (s : Segment α) (c : Config α) :
    (g.merged s).beliefs.minSendingRate c = g.beliefs.minSendingRate c := by
  simp [Beliefs.minSendingRate, Beliefs.rtprop]

/-- A second sample in the history is what it takes to learn from it. -/
theorem capacity_merged (g : Flow α) (s : Segment α) :
    ((g.merged s).history.size ≤ 1 ∧ (g.merged s).beliefs.capacity = g.beliefs.capacity) ∨
    (1 < (g.merged s).history.size ∧ ∃ et st older, g.scanned s = et :: st :: older ∧
      (g.merged s).beliefs.capacity =
        g.beliefs.capacity.tighten (g.beliefs.fresh g.config et (st :: older))
          (g.beliefs.minSendingRate g.config)) := by
  have hsize : (g.merged s).history.size = (g.scanned s).length := by
    simp [scanned]
  rw [hsize]
  unfold scanned merged Beliefs.learnBounds
  dsimp only
  generalize (g.history.push (g.newSample s)).1.toList.reverse = samples
  rcases samples with _ | ⟨et, _ | ⟨st, older⟩⟩
  · exact .inl ⟨Nat.zero_le 1, rfl⟩
  · exact .inl ⟨Nat.le_refl 1, rfl⟩
  · exact .inr ⟨Nat.succ_lt_succ (Nat.succ_pos _), et, st, older, rfl, rfl⟩

theorem repairs_repairBounds (g : Flow α) :
    g.repairBounds.tally.repairs = g.tally.repairs + if g.repair?.isSome then 1 else 0 := by
  unfold repairBounds repair?
  split
  · simp
  · split <;> rename_i h <;> simp [h]

/-- A repair is a checkpoint, and without one the bounds stay. -/
theorem beliefs_repairBounds_eq (g : Flow α) :
    g.repairBounds.beliefs =
      match g.repair? with
      | some _ => (g.beliefs.checkpoint g.config g.now).1
      | none => g.beliefs := by
  rw [beliefs_repairBounds, repair?]
  split
  · rfl
  · unfold Beliefs.repair
    split <;> rfl

theorem repair?_eq_some {g : Flow α} {r : Beliefs.Repair} (h : g.repair? = some r) :
    1 < g.history.size ∧ r = (g.beliefs.checkpoint g.config g.now).2 := by
  unfold repair? at h
  split at h
  · cases h
  · rename_i hsize
    unfold Beliefs.repair at h
    split at h
    · cases h
      exact ⟨Nat.lt_of_not_le hsize, rfl⟩
    · cases h

end Flow

/-! ## Transitions -/

/-- The flow and the acked segment from which the event takes a sample, if it does. -/
def Transition.sampled? (t : Transition α) : Option (Flow α × Segment α) :=
  match t.event with
  | .ack n _ _ => (t.before.accepted? n).filter fun (g, _) => !g.sampleOpen
  | _ => none

/-- The repair that the event brings about, if any. -/
def Transition.repair? (t : Transition α) : Option Beliefs.Repair :=
  t.sampled?.bind fun (g, s) => (g.merged s).repair?

namespace Flow

theorem sampled?_eq_some {t : Transition α} {g : Flow α} {s : Segment α} (h : t.sampled? = some (g, s)) :
    ∃ n r r', t.event = .ack n r r' ∧ t.before.accepted? n = some (g, s) ∧ g.sampleOpen = false := by
  obtain ⟨f, e⟩ := t
  cases e with
  | ack n r r' =>
      simp only [Transition.sampled?, Option.filter_eq_some_iff] at h
      exact ⟨n, r, r', rfl, h.1, by simpa using h.2⟩
  | _ => cases h

theorem resolved?_of_sampled {t : Transition α} {g : Flow α} {s : Segment α}
    (h : t.sampled? = some (g, s)) : t.resolved? = some s := by
  obtain ⟨f, e⟩ := t
  obtain ⟨n, r, r', he, ha, -⟩ := sampled?_eq_some h
  obtain rfl : e = .ack n r r' := he
  exact (ack_of_accepted ha).2

theorem Accepts.capacity {f g : Flow α} {seq : Nat} {s₀ s : Segment α} (h : f.Accepts seq s₀ g s) :
    g.beliefs.capacity = f.beliefs.capacity := by
  rw [h.beliefs]; rfl

theorem beliefs_updateHistory_of_closed {g : Flow α} (h : g.sampleOpen = false) (s : Segment α) :
    ∃ rate, (g.updateHistory s).beliefs = { (g.merged s).repairBounds.beliefs with minCLambda := rate } := by
  rw [updateHistory, h]
  exact g.beliefs_takeSample s

/-- Only taking a sample changes the capacity bounds within an epoch. -/
theorem capacity_after (t : Transition α) (h : t.event.isInit = false) :
    t.after.beliefs.capacity =
      match t.sampled? with
      | none => t.before.beliefs.capacity
      | some (g, s) => (g.merged s).repairBounds.beliefs.capacity := by
  obtain ⟨f, e⟩ := t
  cases e with
  | init => cases h
  | sent seq =>
      simp only [Transition.after, Transition.sampled?, step, sent, beliefs_recompute, recordSent]
      split <;> rfl
  | ack n r r' =>
      simp only [Transition.after, Transition.sampled?, step]
      obtain ⟨hn, a, ha⟩ | ⟨_, _, g, s, _, hn, hacc, hflow, -⟩ := f.ack_cases n
      · rw [hn, ha]; rfl
      · rw [hn, hflow, beliefs_recompute]
        cases hopen : g.sampleOpen with
        | true =>
            simp only [Option.filter_some, hopen, beliefs_updateHistory_of_open hopen, Bool.not_true]
            exact hacc.capacity
        | false =>
            obtain ⟨rate, hr⟩ := beliefs_updateHistory_of_closed hopen s
            simp only [Option.filter_some, hopen, hr, Bool.not_false, if_true]
            rfl
  | minRtt rtt =>
      simp only [Transition.after, Transition.sampled?, step, setMinRtt]
      split <;> rfl
  | _ => rfl

/-- The count of repairs rises only where a sample is taken and a repair is due. -/
theorem repaired_ack {f : Flow α} {n : Nat} (h : f.tally.repairs < (f.ack n).flow.tally.repairs) :
    ∃ g s r, f.accepted? n = some (g, s) ∧ g.sampleOpen = false ∧ (g.merged s).repair? = some r := by
  obtain ⟨-, a, ha⟩ | ⟨_, _, g, s, _, hn, hacc, hflow, -⟩ := f.ack_cases n
  · rw [ha] at h
    cases a <;> exact absurd h (Nat.lt_irrefl _)
  · rw [hflow, repairs_recompute, ← hacc.repairs, updateHistory] at h
    cases hopen : g.sampleOpen with
    | true =>
        rw [hopen] at h
        exact absurd h (Nat.lt_irrefl _)
    | false =>
        rw [hopen] at h
        have hrep : (g.takeSample s).tally.repairs = (g.merged s).repairBounds.tally.repairs := rfl
        simp only [Bool.false_eq_true, if_false, hrep, repairs_repairBounds] at h
        cases hr : (g.merged s).repair? with
        | none =>
            rw [hr] at h
            exact absurd h (Nat.lt_irrefl _)
        | some r => exact ⟨g, s, r, hn, hopen, hr⟩

/-! ## Repairs only relax -/

variable [LawfulScalar α] {c : Config α} {g : Flow α} {s : Segment α}

theorem fresh_within (hc : c.Coherent) (b : Beliefs α) (et : Sample α) (older : List (Sample α)) :
    c.initMinC ≤ (b.fresh c et older).minC ∧ (b.fresh c et older).maxC ≤ c.initMaxC := by
  rw [Beliefs.fresh_eq]
  exact ⟨le_foldl_max (number_left hc.initMinC_le_initMaxC) _,
    foldl_min_le (number_right hc.initMinC_le_initMaxC) _⟩

theorem tightened_merged (hc : c.Coherent) (hg : g.config = c) (hk : g.beliefs.capacity.Anchored c)
    (hsize : 1 < (g.merged s).history.size) :
    (g.merged s).beliefs.capacity.Tightened ((g.merged s).beliefs.minSendingRate c) := by
  subst hg
  rw [minSendingRate_merged]
  obtain ⟨hle, -⟩ | ⟨-, et, st, older, -, hmerged⟩ := g.capacity_merged s
  · exact absurd hle (Nat.not_le.mpr hsize)
  · obtain ⟨hlow, hhigh⟩ := fresh_within hc g.beliefs et (st :: older)
    rw [hmerged]
    exact hk.tighten hlow hhigh (number_right (g.beliefs.zero_le_minSendingRate hc.minCwnd_ne_zero))

theorem relaxes_repairBounds (hc : c.Coherent) (hg : g.config = c) (hk : g.beliefs.capacity.Anchored c)
    {r : Beliefs.Repair} (hr : (g.merged s).repair? = some r) :
    Beliefs.Relaxes c (g.merged s).beliefs (g.merged s).repairBounds.beliefs := by
  rw [beliefs_repairBounds_eq, hr]
  subst hg
  exact Beliefs.relaxes_checkpoint hc (tightened_merged hc rfl hk (repair?_eq_some hr).1) _

theorem anchored_repairBounds (hc : c.Coherent) (hg : g.config = c) (hk : g.beliefs.capacity.Anchored c) :
    (g.merged s).repairBounds.beliefs.capacity.Anchored c := by
  cases hr : (g.merged s).repair? with
  | some r => exact (relaxes_repairBounds hc hg hk hr).anchored hc
  | none =>
      rw [beliefs_repairBounds_eq, hr]
      dsimp only
      obtain ⟨-, hmerged⟩ | ⟨hsize, -⟩ := g.capacity_merged s
      · rw [hmerged]
        exact hk
      · exact (tightened_merged hc hg hk hsize).anchored

theorem anchored_reset {f : Flow α} (hf : f.config = c) (hc : c.Coherent) :
    f.reset.beliefs.capacity.Anchored c := by
  subst hf
  exact Capacity.anchored_of_recent hc (number_left hc.initMinC_le_initMaxC)
    (number_right hc.initMinC_le_initMaxC) rfl

theorem anchored_afterRun (hc : c.Coherent) (events : List (Event α)) :
    (afterRun c events).beliefs.capacity.Anchored c := by
  refine epoch_induction (P := fun _ f => f.beliefs.capacity.Anchored c) c ?_ ?_ ?_ events
  · exact anchored_reset rfl hc
  · intro f hf _
    exact anchored_reset hf hc
  · intro ts f e hf he h
    have hafter := capacity_after ⟨f, e⟩ he
    change (Transition.after ⟨f, e⟩).beliefs.capacity.Anchored c
    rw [hafter]
    cases hs : Transition.sampled? ⟨f, e⟩ with
    | none => exact h
    | some q =>
        obtain ⟨g, s⟩ := q
        obtain ⟨n, _, _, -, ha, -⟩ := sampled?_eq_some hs
        obtain ⟨seq, s₀, -, hacc⟩ := accepts_of_accepted ha
        exact anchored_repairBounds hc (hacc.config.trans hf) (hacc.capacity ▸ h)

/-- In every reachable state, an ack whose repair fires leaves valid bounds, at the floor or above, and no
tighter than those that it found. Nothing after the repair touches them. -/
theorem repair_relaxes (c : Config Float) (hc : c.Coherent) (events : List (Event Float)) (n : Nat)
    (h : (afterRun c events).tally.repairs < ((afterRun c events).ack n).flow.tally.repairs) :
    ∃ g s, (afterRun c events).accepted? n = some (g, s) ∧
      Beliefs.Relaxes c (g.merged s).beliefs (g.merged s).repairBounds.beliefs ∧
      Beliefs.Relaxes c (g.merged s).beliefs ((afterRun c events).ack n).flow.beliefs := by
  obtain ⟨g, s, r, ha, hopen, hr⟩ := repaired_ack h
  obtain ⟨seq, s₀, rfl, hacc⟩ := accepts_of_accepted ha
  have hanch : g.beliefs.capacity.Anchored c := hacc.capacity ▸ anchored_afterRun hc events
  have hrelax := relaxes_repairBounds hc (hacc.config.trans (config_afterRun c events)) hanch hr
  refine ⟨g, s, ha, hrelax, ?_⟩
  obtain ⟨rate, hrate⟩ := beliefs_updateHistory_of_closed hopen s
  rw [(ack_of_accepted ha).1, beliefs_recompute, hrate]
  exact hrelax.learnt rate

theorem coherent_standard : (Config.standard : Config Float).Coherent :=
  ⟨by decide +kernel, by decide +kernel, by decide +kernel, by decide +kernel⟩

/-- Four segments sent at once are acked one by one, the last ack after the period of a repair. -/
theorem repair_relaxes_after_period :
    let c : Config Float := .standard
    let events : List (Event Float) :=
      [.sent 0, .sent 1, .sent 2, .sent 3, .clock (ofNat 20), .ack 1 zero zero, .clock (ofNat 100),
        .ack 2 zero zero, .clock (ofNat 180), .ack 3 zero zero, .clock (ofNat 260)]
    c.Coherent ∧ (afterRun c events).tally.repairs < ((afterRun c events).ack 4).flow.tally.repairs ∧
      ∃ g s, (afterRun c events).accepted? 4 = some (g, s) ∧
        Beliefs.Relaxes c (g.merged s).beliefs (g.merged s).repairBounds.beliefs ∧
        Beliefs.Relaxes c (g.merged s).beliefs ((afterRun c events).ack 4).flow.beliefs := by
  intro c events
  have h : (afterRun c events).tally.repairs < ((afterRun c events).ack 4).flow.tally.repairs := by
    decide +kernel
  exact ⟨coherent_standard, h, repair_relaxes c coherent_standard events 4 h⟩

end Flow

end Pacing

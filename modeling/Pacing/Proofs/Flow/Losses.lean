import Pacing.Proofs.Flow.Causality
import Pacing.Proofs.Ledger.Conservation

/-!
# Losses in the history

A sample counts the losses that the ack revealed which took it. Acks that come while it is the newest one extend
its round-trip times, and leave that count as it is: what they reveal is in no sample.
-/

namespace Pacing

variable {α : Type} [Scalar α]

open Transition

namespace Flow

/-- Of some transitions, latest first, those since the sample now `depth` below the newest was taken and before the
next one was. -/
def during : List (Transition α) → Nat → List (Transition α)
  | [], _ => []
  | t :: ts, 0 => if t.sampled?.isSome then [t] else t :: during ts 0
  | t :: ts, depth + 1 => during ts (if t.sampled?.isSome then depth else depth + 1)

/-- The sample counts what the ack revealed that took it. `interval` is what happened while it was the newest. -/
def CountsTaker (interval : List (Transition α)) (st : Sample α) : Prop :=
  ∃ later taker, interval = later ++ [taker] ∧ taker.sampled?.isSome = true ∧
    (∀ t ∈ later, t.sampled? = none) ∧ st.segsLost = revealedIn [taker]

/-- Every sample in the history does. -/
def Attributed (ts : List (Transition α)) (f : Flow α) : Prop :=
  ∀ depth st, f.history.below? depth = some st → CountsTaker (during ts depth) st

theorem CountsTaker.of_segsLost_eq {interval : List (Transition α)} {st st' : Sample α}
    (h : CountsTaker interval st) (hlost : st'.segsLost = st.segsLost) : CountsTaker interval st' := by
  obtain ⟨later, taker, hinterval, htaker, hlater, hcount⟩ := h
  exact ⟨later, taker, hinterval, htaker, hlater, hlost.trans hcount⟩

/-- Extensions and marks leave the count of a sample alone. -/
theorem segsLost_after {t : Transition α} (hi : t.event.isInit = false) {depth : Nat} {st' : Sample α} :
    (t.sampled? = none → t.after.history.below? depth = some st' →
      ∃ st, t.before.history.below? depth = some st ∧ st'.segsLost = st.segsLost) ∧
    (t.sampled?.isSome = true → t.after.history.below? (depth + 1) = some st' →
      ∃ st, t.before.history.below? depth = some st ∧ st'.segsLost = st.segsLost) :=
  below?_after_of (R := fun st st' => st'.segsLost = st.segsLost) (fun _ => rfl) (fun _ _ => rfl)
    (fun _ => rfl) hi

theorem Attributed.after {ts : List (Transition α)} {t : Transition α} (h : Attributed ts t.before)
    (hi : t.event.isInit = false) : Attributed (t :: ts) t.after := by
  intro depth st' hst'
  cases hs : t.sampled? with
  | none =>
      obtain ⟨st, hst, hlost⟩ := (segsLost_after hi).1 hs hst'
      obtain ⟨later, taker, hinterval, htaker, hlater, hcount⟩ := (h depth st hst).of_segsLost_eq hlost
      cases depth with
      | zero =>
          -- The event joins those that came while the sample was the newest one.
          refine ⟨t :: later, taker, ?_, htaker, List.forall_mem_cons.mpr ⟨hs, hlater⟩, hcount⟩
          simp [during, hs, hinterval]
      | succ depth => exact ⟨later, taker, by simpa [during, hs] using hinterval, htaker, hlater, hcount⟩
  | some q =>
      obtain ⟨g, s⟩ := q
      cases depth with
      | zero =>
          cases (newest_eq hs).symm.trans hst'
          refine ⟨[], t, by simp [during, hs], by rw [hs]; rfl, List.forall_mem_nil _, ?_⟩
          simp [revealedIn, resolvedIn, resolved?_of_sampled hs, newSample]
      | succ depth =>
          obtain ⟨st, hst, hlost⟩ := (segsLost_after hi).2 (by rw [hs]; rfl) hst'
          simpa [during, hs] using (h depth st hst).of_segsLost_eq hlost

theorem Attributed.afterRun (c : Config α) (events : List (Event α)) :
    Attributed (epoch c events).reverse (Flow.afterRun c events) := by
  refine epoch_induction (P := fun ts f => Attributed ts.reverse f) c ?_ ?_ ?_ events
  · intro depth st hst
    cases (below?_reset (start c) depth).symm.trans hst
  · intro f _ _ depth st hst
    cases (below?_reset f depth).symm.trans hst
  · intro ts f e _ hi h
    rw [List.reverse_concat]
    exact h.after (t := ⟨f, e⟩) hi

theorem not_underutilized_of_lost {st : Sample α} (h : 0 < st.segsLost) (threshold : α) :
    st.isUnderutilized threshold = false := by
  have hlost : (st.segsLost == 0) = false := by simpa using Nat.ne_of_gt h
  rw [Sample.isUnderutilized, hlost, Bool.and_false]

theorem segsLost_eq_zero {st : Sample α} {threshold : α} (h : st.isUnderutilized threshold = true) :
    st.segsLost = 0 := by
  by_contra hlost
  exact Bool.false_ne_true ((not_underutilized_of_lost (Nat.pos_of_ne_zero hlost) threshold).symm.trans h)

/-- No window that an event learns from has an interval whose sample counts a loss, nor is there one after it. -/
theorem countsTaker_of_learntFrom {c : Config α} {events : List (Event α)} {e : Event α} {w : Beliefs.Window α}
    (hw : w ∈ (⟨afterRun c events, e⟩ : Transition α).learntFrom) {depth : Nat} (hd : depth ≤ w.depth) :
    ∃ st, CountsTaker (during (⟨afterRun c events, e⟩ :: (epoch c events).reverse) depth) st ∧
      st.segsLost = 0 := by
  obtain ⟨g, s, hs, -, hmem, -, hclean, -⟩ := sampled_of_learntFrom hw
  obtain ⟨n, r, r', he, -⟩ := sampled?_eq_some hs
  obtain ⟨-, hst, -, hall⟩ := Beliefs.below?_of_mem_windows hmem
  obtain ⟨x, hx⟩ := Ring.exists_below? (Nat.lt_of_le_of_lt hd (Ring.lt_size_of_below? hst))
  have hheld := below?_of_sampled hs depth
  rw [hx, Option.map_some] at hheld
  refine ⟨_, (Attributed.afterRun c events).after (congrArg Event.isInit he) depth _ hheld, ?_⟩
  have hzero := segsLost_eq_zero (hall.mp hclean depth hd x hx)
  split <;> exact hzero

/-- What the samples of a history know of losses: those that the acks revealed which took them, and none that a
later ack revealed. The throughput is learnt from no window that has a sample which counts a loss. -/
theorem losses_counted_when_taken (c : Config α) (events : List (Event α)) :
    let f := afterRun c events
    let ts := (epoch c events).reverse
    (∀ depth st, f.history.below? depth = some st →
      ∃ later taker, during ts depth = later ++ [taker] ∧ taker.sampled?.isSome = true ∧
        (∀ t ∈ later, t.sampled? = none) ∧ st.segsLost = revealedIn [taker] ∧
        revealedIn (during ts depth) = revealedIn later + st.segsLost ∧
        (0 < revealedIn [taker] → ∀ threshold, st.isUnderutilized threshold = false)) ∧
      ∀ e, ∀ w ∈ (⟨f, e⟩ : Transition α).learntFrom, ∀ depth ≤ w.depth,
        ∃ later taker, during (⟨f, e⟩ :: ts) depth = later ++ [taker] ∧ taker.sampled?.isSome = true ∧
          (∀ t ∈ later, t.sampled? = none) ∧ revealedIn [taker] = 0 := by
  intro f ts
  constructor
  · intro depth st hst
    obtain ⟨later, taker, hinterval, htaker, hlater, hcount⟩ := Attributed.afterRun c events depth st hst
    refine ⟨later, taker, hinterval, htaker, hlater, hcount, ?_, fun hpos => ?_⟩
    · rw [hcount, hinterval, revealedIn, resolvedIn, List.filterMap_append, List.map_append, List.sum_append]
      rfl
    · exact not_underutilized_of_lost (hcount ▸ hpos)
  · intro e w hw depth hd
    obtain ⟨st, ⟨later, taker, hinterval, htaker, hlater, hcount⟩, hzero⟩ := countsTaker_of_learntFrom hw hd
    exact ⟨later, taker, hinterval, htaker, hlater, hcount.symm.trans hzero⟩

/-- The second ack reveals that segment 1 is lost, but only extends the first sample. So that interval counts as idle,
and the last ack learns a higher throughput from the window that begins with it. -/
theorem losses_missed_while_open :
    let c : Config Float := .standard
    let zero : Float := Scalar.zero
    let events : List (Event Float) :=
      [.sent 0, .sent 1, .sent 2, .clock (Scalar.ofNat 20), .ack 1 zero zero, .ack 3 zero zero, .sent 3,
        .clock (Scalar.ofNat 40), .ack 4 zero zero, .sent 4, .clock (Scalar.ofNat 60)]
    let f := afterRun c events
    let t : Transition Float := ⟨f, .ack 5 zero zero⟩
    (∃ st, f.history.below? 1 = some st ∧ st.segsLost = 0 ∧ revealedIn (during (epoch c events).reverse 1) = 1 ∧
      st.isUnderutilized (f.beliefs.threshold c) = true) ∧
      (∃ w ∈ t.learntFrom, w.depth = 2 ∧ revealedIn (during (t :: (epoch c events).reverse) 2) = 1) ∧
      f.beliefs.minCLambda < t.after.beliefs.minCLambda := by
  intro c zero events f t
  have hsample : (f.history.below? 1).map (fun st => (st.segsLost, st.isUnderutilized (f.beliefs.threshold c))) =
      some (0, true) := by
    decide +kernel
  have hlearnt : t.learntFrom.map (·.depth) = [2] := by decide +kernel
  obtain ⟨st, hst, hseen⟩ := Option.map_eq_some_iff.mp hsample
  obtain ⟨hlost, hidle⟩ := Prod.mk.inj hseen
  refine ⟨⟨st, hst, hlost, by decide +kernel, hidle⟩, ?_, by decide +kernel⟩
  obtain ⟨w, hw, hdepth⟩ := List.mem_map.mp (hlearnt ▸ List.mem_singleton_self 2)
  exact ⟨w, hw, hdepth, by decide +kernel⟩

end Flow

end Pacing

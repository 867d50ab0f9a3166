import Pacing.Proofs.Beliefs.Rereading
import Pacing.Proofs.Flow.History
import Pacing.Proofs.Flow.FiniteRtt
import Pacing.Proofs.Flow.Overlay

/-!
# Flows that read every window again

A flow keeps its history settled: the threshold only falls within an epoch, an open sample only gets slower,
and the throughput only rises. So a flow whose passes ignore the marks, and set none, is the same flow but for
the marks on its samples.
-/

namespace Pacing

variable {α : Type} [Scalar α]

open Scalar

namespace Flow

/-! ## Passes as a parameter -/

section learn

variable (learn : Learn α)

/-- `step` with another pass; the entries are left out. -/
def stepBy (f : Flow α) : Event α → Flow α
  | .ack n _ _ => (f.ack n learn).flow
  | e => (f.step e).1

def runBy (f : Flow α) (events : List (Event α)) : Flow α := events.foldl (stepBy learn) f

end learn

theorem stepBy_learnThroughput (f : Flow α) (e : Event α) :
    f.stepBy Beliefs.learnThroughput e = (f.step e).1 := by
  cases e <;> rfl

theorem runBy_learnThroughput (f : Flow α) (events : List (Event α)) :
    f.runBy Beliefs.learnThroughput events = (f.run events).1 := by
  induction events generalizing f with
  | nil => rfl
  | cons e events ih =>
      rw [runBy, List.foldl_cons, stepBy_learnThroughput]
      exact ih _

/-! ## Another history -/

def withHistory (f : Flow α) (r : Ring (Sample α)) : Flow α := { f with history := r }

/-- Whatever the history was. -/
def insteadOf (r : Ring (Sample α)) : Overlay α where
  tally := id
  linkRate := id
  history := fun _ => r
  tally_count := fun _ _ => rfl
  tally_recompute := fun _ => rfl
  tally_repair := fun _ => rfl

theorem recompute_withHistory (f : Flow α) (r : Ring (Sample α)) :
    (f.withHistory r).recompute.1 = f.recompute.1.withHistory r :=
  f.recompute_overlay (insteadOf r)

theorem repairBounds_withHistory {f : Flow α} {r : Ring (Sample α)} (h : r.size = f.history.size) :
    (f.withHistory r).repairBounds = f.repairBounds.withHistory r :=
  f.repairBounds_overlay (insteadOf r) h

theorem accepted?_withHistory (f : Flow α) (r : Ring (Sample α)) (n : Nat) :
    (f.withHistory r).accepted? n = (f.accepted? n).map fun (g, s) => (g.withHistory r, s) :=
  f.accepted?_overlay (insteadOf r) n

theorem reset_withHistory {f : Flow α} {r : Ring (Sample α)} (h : r.capacity = f.history.capacity) :
    (f.withHistory r).reset = f.reset := by
  have hclear : r.clear = f.history.clear := Ring.clear_congr h
  unfold reset withHistory
  rw [hclear]

/-- Merging a sample reads no mark. -/
theorem merged_withHistory {g : Flow α} {r : Ring (Sample α)} (h : SameSamples r g.history) (s : Segment α) :
    (g.withHistory r).merged s = (g.merged s).withHistory (r.push (g.newSample s)).1 := by
  have hbounds := Beliefs.learnBounds_congr
    (b := g.beliefs.advanceQueue g.counters.sent (g.now - g.lastHistoryUpdate)) (c := g.config)
    (h.push (g.newSample s))
  unfold merged withHistory
  simp only
  rw [← hbounds]
  rfl

/-! ## What a run keeps -/

/-- The history is settled, and what settles it cannot turn back. -/
structure Sound (c : Config α) (f : Flow α) : Prop where
  config : f.config = c
  finite : f.FiniteRtt
  floor : c.initMinC ≤ f.beliefs.minCLambda
  settled : Beliefs.Settled c f.beliefs f.history

namespace Sound

variable {c : Config α} {f g : Flow α}

theorem reset [LawfulScalar α] (hc : c.fault? = none) (hf : f.config = c)
    (h : ∀ rtt, f.bootstrapMinRtt = some rtt → uselessTime rtt = false) : f.reset.Sound c where
  config := hf
  finite := .reset hc hf h
  floor := by
    subst hf
    obtain ⟨-, -, -, -, -, ⟨hnum, -⟩, -⟩ := Config.fault?_eq_none.mp hc
    exact le_refl hnum
  settled := .empty fun _ => Ring.below?_clear ..

variable [MonotoneScalar α]

theorem merged (h : g.Sound c) {s : Segment α} (hrtt : isNaN s.rtt = false) :
    c.initMinC ≤ (g.merged s).repairBounds.beliefs.minCLambda ∧
      Beliefs.Settled c (g.merged s).repairBounds.beliefs (g.merged s).history := by
  have hrate := minCLambda_repairBounds g s
  have hminRtt : (g.merged s).repairBounds.beliefs.minRtt = g.beliefs.minRtt := by
    rw [beliefs_repairBounds]
    split <;> simp
  refine ⟨hrate ▸ h.floor, (h.settled.push (x := g.newSample s) hrtt rfl).beliefs (fun x hx => ?_) ?_⟩
  · rwa [Beliefs.threshold_congr hminRtt] at hx
  · rw [hrate]
    exact le_refl (number_right h.floor)

theorem updateHistory (h : g.Sound c) {s : Segment α} (hrtt : isNaN s.rtt = false) :
    c.initMinC ≤ (g.updateHistory s).beliefs.minCLambda ∧
      Beliefs.Settled c (g.updateHistory s).beliefs (g.updateHistory s).history := by
  unfold Flow.updateHistory
  split
  · exact ⟨h.floor, h.settled.extend s.rtt⟩
  · obtain ⟨b, n, hb, hmeasured⟩ := g.measured_eq s
    obtain ⟨hfloor, hsettled⟩ := h.merged hrtt
    rw [hb] at hfloor hsettled
    rw [takeSample, hmeasured, h.config]
    exact ⟨Scalar.le_trans hfloor (Beliefs.minCLambda_le_learnThroughput (number_right hfloor)),
      hsettled.learn hfloor⟩

/-- A shorter round-trip time leaves the history settled. -/
theorem lower (h : f.Sound c) (hj : zero ≤ c.jitterMultiplier) {b : Beliefs α}
    (hminRtt : b.minRtt ≤ f.beliefs.minRtt) (hrate : b.minCLambda = f.beliefs.minCLambda) :
    c.initMinC ≤ b.minCLambda ∧ Beliefs.Settled c b f.history := by
  have hthreshold := Beliefs.threshold_mono h.finite.isFinite_minRtt hj hminRtt
  refine ⟨hrate ▸ h.floor, h.settled.beliefs (fun x hx => Beliefs.isUnderutilized_anti hthreshold hx) ?_⟩
  rw [hrate]
  exact le_refl (number_right h.floor)

/-- What an ack hands on to the history. -/
theorem accepted (h : f.Sound c) (hj : zero ≤ c.jitterMultiplier) {n : Nat} {s : Segment α}
    (ha : f.accepted? n = some (g, s)) : g.Sound c ∧ isNaN s.rtt = false := by
  obtain ⟨seq, s₀, -, hacc⟩ := accepts_of_accepted ha
  have hrtt : zero ≤ s.rtt := hacc.rtt ▸ Scalar.le_max_right _ number_zero
  have hminRtt : g.beliefs.minRtt = Scalar.min f.beliefs.minRtt s.rtt := by rw [hacc.beliefs]; rfl
  have hle := Scalar.min_le_left (number_right h.finite.zero_le_minRtt) s.rtt
  have hpos := Scalar.le_min h.finite.zero_le_minRtt hrtt
  have hrate : g.beliefs.minCLambda = f.beliefs.minCLambda := by rw [hacc.beliefs]; rfl
  obtain ⟨hfloor, hsettled⟩ := h.lower hj (hminRtt ▸ hle) hrate
  refine ⟨⟨hacc.config.trans h.config, ⟨?_, hminRtt ▸ hpos, ?_⟩, hfloor, hacc.history ▸ hsettled⟩,
    number_right hrtt⟩
  · rw [hminRtt]
    exact LawfulScalar.isFinite_of_le_of_le (LawfulScalar.isFinite_ofNat (by decide)) h.finite.isFinite_minRtt
      hpos hle
  · rw [hacc.bootstrapMinRtt]
    exact h.finite.bootstrap

theorem step (hc : c.fault? = none) (h : f.Sound c) (e : Event α) : (f.step e).1.Sound c := by
  have hj := Config.zero_le_jitterMultiplier hc
  have hconfig : (f.step e).1.config = c := (config_step f e).trans h.config
  cases hi : e.isInit with
  | true =>
      cases e <;> cases hi
      exact reset hc h.config h.finite.bootstrap
  | false =>
      have hfinite : (f.step e).1.FiniteRtt := .after (t := ⟨f, e⟩) hi h.finite
      have hlearnt : c.initMinC ≤ (f.step e).1.beliefs.minCLambda ∧
          Beliefs.Settled c (f.step e).1.beliefs (f.step e).1.history := by
        rcases f.step_cases hi with ⟨-, hkeeps⟩ | ⟨n, r, r', _, _, g, s, rfl, ha, -, hflow⟩
        · rw [hkeeps.history]
          rcases hkeeps.beliefs with hb | ⟨rtt, hb⟩ <;> rw [hb]
          · exact ⟨h.floor, h.settled⟩
          · exact h.lower hj (Scalar.min_le_left (number_right h.finite.zero_le_minRtt) rtt) rfl
        · obtain ⟨hg, hrtt⟩ := h.accepted hj ha
          rw [hflow, beliefs_recompute, history_recompute]
          exact hg.updateHistory hrtt
      exact ⟨hconfig, hfinite, hlearnt.1, hlearnt.2⟩

theorem afterRun (hc : c.fault? = none) (events : List (Event α)) : (Flow.afterRun c events).Sound c := by
  induction events using List.reverseRecOn with
  | nil => exact reset hc rfl nofun
  | append_singleton events e ih =>
      rw [afterRun_concat]
      exact ih.step hc e

end Sound

/-! ## The same flow but for marks -/

section rereading

variable [MonotoneScalar α] {c : Config α} {f g : Flow α} {r : Ring (Sample α)}

theorem takeSample_withHistory (hpos : zero < c.initMinC) (hg : g.Sound c) {s : Segment α}
    (hrtt : isNaN s.rtt = false) (h : SameSamples r g.history) :
    ∃ r', SameSamples r' (g.takeSample s).history ∧
      (g.withHistory r).takeSample s Beliefs.relearnThroughput = (g.takeSample s).withHistory r' := by
  obtain ⟨hfloor, hsettled⟩ := hg.merged hrtt
  have hpush : SameSamples (r.push (g.newSample s)).1 (g.merged s).history := h.push _
  obtain ⟨b, n, hrepair⟩ := (g.merged s).repairBounds_frame
  have hlearn := Beliefs.relearnThroughput_eq s.cumDeliveredAtSend hpos hfloor hsettled hpush
  refine ⟨(r.push (g.newSample s)).1, ?_, ?_⟩
  · rw [takeSample, measured, hrepair]
    exact hpush.trans (Beliefs.sameSamples_learnThroughput ..)
  · rw [takeSample, measured, merged_withHistory h, repairBounds_withHistory hpush.size, takeSample, measured]
    rw [hrepair] at hlearn ⊢
    have hconfig : (g.merged s).config = c := hg.config
    simp only [withHistory, hconfig] at hlearn ⊢
    rw [hlearn]
    rfl

theorem updateHistory_withHistory (hpos : zero < c.initMinC) (hg : g.Sound c) {s : Segment α}
    (hrtt : isNaN s.rtt = false) (h : SameSamples r g.history) :
    ∃ r', SameSamples r' (g.updateHistory s).history ∧
      (g.withHistory r).updateHistory s Beliefs.relearnThroughput = (g.updateHistory s).withHistory r' := by
  have hopen : (g.withHistory r).sampleOpen = g.sampleOpen := by
    rw [sampleOpen, sampleOpen, show (g.withHistory r).history.isEmpty = g.history.isEmpty from h.isEmpty]
    rfl
  unfold updateHistory
  rw [hopen]
  split
  · exact ⟨r.modifyBack (·.extend s.rtt), h.extend s.rtt, rfl⟩
  · exact takeSample_withHistory hpos hg hrtt h

/-- One event keeps the marks the only difference. -/
theorem stepBy_withHistory (hc : c.fault? = none) (hf : f.Sound c) (h : SameSamples r f.history) (e : Event α) :
    ∃ r', SameSamples r' (f.step e).1.history ∧
      (f.withHistory r).stepBy Beliefs.relearnThroughput e = (f.step e).1.withHistory r' := by
  cases e with
  | init => exact ⟨f.reset.history, .refl _, reset_withHistory h.capacity⟩
  | sent seq =>
      refine ⟨r, ?_, ?_⟩
      · simp only [step, sent, history_recompute, recordSent]
        split <;> exact h
      · change ((f.overlay (insteadOf r)).recordSent seq).1.recompute.1 = _
        rw [recordSent_overlay, recompute_overlay]
        rfl
  | ack n r₁ r₂ =>
      simp only [stepBy, step]
      cases ha : f.accepted? n with
      | none =>
          obtain ⟨a, hrefused⟩ := ack_of_refused ha
          refine ⟨r, ?_, f.ack_recast_of_refused (insteadOf r) id ha _⟩
          rw [hrefused]
          exact h
      | some q =>
          obtain ⟨g, s⟩ := q
          obtain ⟨seq, s₀, -, hacc⟩ := accepts_of_accepted ha
          obtain ⟨hg, hrtt⟩ := hf.accepted (Config.zero_le_jitterMultiplier hc) ha
          obtain ⟨r', hr', hsame⟩ :=
            updateHistory_withHistory (Config.zero_lt_initMinC hc) hg hrtt (hacc.history ▸ h)
          refine ⟨r', ?_, ?_⟩
          · rw [(ack_of_accepted ha).1, history_recompute]
            exact hr'
          · have haccepted : (f.withHistory r).accepted? n = some (g.withHistory r, s) := by
              rw [accepted?_withHistory, ha]
              rfl
            rw [(ack_of_accepted haccepted _).1, (ack_of_accepted ha).1, hsame, recompute_withHistory]
  | minRtt rtt =>
      refine ⟨r, ?_, ?_⟩
      · simp only [step, setMinRtt]
        split <;> exact h
      · simp only [stepBy, step, setMinRtt]
        split <;> rfl
  | _ => exact ⟨r, h, rfl⟩

end rereading

/-- With the pass that skips marked samples `runBy` is the run of the flow. With the one that reads every window
again it has the same beliefs, `minCLambda` among them, and so the same windows, rates and phases: the two
differ at most in the marks on the samples of the history. -/
theorem marks_lose_nothing (c : Config Float) (hc : c.fault? = none) (events : List (Event Float)) :
    let f := afterRun c events
    let g := (start c).runBy Beliefs.relearnThroughput events
    (start c).runBy Beliefs.learnThroughput events = f ∧
      g.beliefs = f.beliefs ∧ g.window = f.window ∧ g.decision = f.decision ∧ g.phases = f.phases ∧
      g = f.withHistory g.history ∧
      g.history.toList.map Sample.markProcessed = f.history.toList.map Sample.markProcessed := by
  intro f g
  have hrun : ∃ r, SameSamples r f.history ∧ g = f.withHistory r := by
    induction events using List.reverseRecOn with
    | nil => exact ⟨(start c).history, .refl _, rfl⟩
    | append_singleton events e ih =>
        obtain ⟨r, hr, hsame⟩ := ih
        have hstep := stepBy_withHistory hc (.afterRun hc events) hr e
        have hf : f = ((afterRun c events).step e).1 := afterRun_concat c events e
        have hg : g = ((start c).runBy Beliefs.relearnThroughput events).stepBy Beliefs.relearnThroughput e := by
          simp only [g, runBy, List.foldl_append, List.foldl_cons, List.foldl_nil]
        rw [hf, hg, hsame]
        exact hstep
  obtain ⟨r, hr, hsame⟩ := hrun
  rw [hsame]
  exact ⟨runBy_learnThroughput _ events, rfl, rfl, rfl, rfl, rfl, hr.samples⟩

/-- In three rounds one flow uses a window and marks its sample, and the other reads it and does not. -/
theorem marks_lose_nothing_in_three_rounds :
    let c : Config Float := .standard
    let zero : Float := Scalar.zero
    let events : List (Event Float) :=
      [.sent 0, .clock (ofNat 20), .ack 1 zero zero, .sent 1, .clock (ofNat 40), .ack 2 zero zero, .sent 2,
        .clock (ofNat 60), .ack 3 zero zero]
    let f := afterRun c events
    let g := (start c).runBy Beliefs.relearnThroughput events
    c.fault? = none ∧ f.history.toList.map (·.processed) = [true, false, false] ∧
      g.history.toList.map (·.processed) = [false, false, false] ∧
      (start c).runBy Beliefs.learnThroughput events = f ∧
      g.beliefs = f.beliefs ∧ g.window = f.window ∧ g.decision = f.decision ∧ g.phases = f.phases ∧
      g = f.withHistory g.history ∧
      g.history.toList.map Sample.markProcessed = f.history.toList.map Sample.markProcessed := by
  intro c zero events f g
  have hc : c.fault? = none := by decide +kernel
  have hf : f.history.toList.map (·.processed) = [true, false, false] := by decide +kernel
  have hg : g.history.toList.map (·.processed) = [false, false, false] := by decide +kernel
  exact ⟨hc, hf, hg, marks_lose_nothing c hc events⟩

end Flow

end Pacing

import Pacing.Proofs.Flow.Repair

/-!
# Bounds around the true capacity

As long as what the history shows is true of some rate, with every quotient on its side, the rate stays
between the capacity bounds, through every sample and every repair.
-/

namespace Pacing

variable {α : Type} [Scalar α]

open Scalar

/-! ## What the scans of an epoch show -/

/-- The rates that the scan of the event raises the lower bounds to. -/
def Transition.lowerQuotients (t : Transition α) : List α :=
  match t.sampled? with
  | none => []
  | some (g, s) =>
    match g.scanned s with
    | [] => []
    | et :: older => Beliefs.lowerQuotients (g.beliefs.jitter g.config) et older

/-- The rates that the scan of the event lowers the upper bounds to. -/
def Transition.upperQuotients (t : Transition α) : List α :=
  match t.sampled? with
  | none => []
  | some (g, s) =>
    match g.scanned s with
    | [] => []
    | et :: older =>
      Beliefs.upperQuotients (g.beliefs.jitter g.config) (g.beliefs.threshold g.config) et older

/-- All that the scan of the event shows is true of a path of that capacity. -/
def Transition.Truthful (capacity : α) (t : Transition α) : Prop :=
  (∀ q ∈ t.lowerQuotients, q ≤ capacity) ∧ ∀ q ∈ t.upperQuotients, capacity ≤ q

instance (capacity : α) (t : Transition α) : Decidable (t.Truthful capacity) :=
  inferInstanceAs (Decidable (_ ∧ _))

namespace Flow

variable [LawfulScalar α] {c : Config α} {g : Flow α} {s : Segment α} {capacity : α}

theorem brackets_merged {t : Transition α} (hs : t.sampled? = some (g, s))
    (hlow : g.config.initMinC ≤ capacity) (hhigh : capacity ≤ g.config.initMaxC) (htrue : t.Truthful capacity)
    (hk : g.beliefs.capacity.Brackets capacity) : (g.merged s).beliefs.capacity.Brackets capacity := by
  obtain ⟨hlower, hupper⟩ := htrue
  simp only [Transition.lowerQuotients, Transition.upperQuotients, hs] at hlower hupper
  obtain ⟨-, hmerged⟩ | ⟨-, et, st, older, hl, hmerged⟩ := g.capacity_merged s
  · rw [hmerged]
    exact hk
  · rw [hl] at hlower hupper
    rw [hmerged, Beliefs.fresh_eq]
    exact hk.tighten (foldl_max_le hlow hlower) (le_foldl_min hhigh hupper)

theorem brackets_repairBounds (hc : c.Coherent) (hg : g.config = c) (hlow : c.initMinC ≤ capacity)
    (hhigh : capacity ≤ c.initMaxC) (hk : g.beliefs.capacity.Brackets capacity) :
    g.repairBounds.beliefs.capacity.Brackets capacity ∧
      ∀ r, g.repair? = some r → r.forced = false := by
  subst hg
  obtain ⟨hafter, hforced⟩ := Beliefs.brackets_checkpoint hc hlow hhigh hk g.now
  rw [beliefs_repairBounds_eq]
  cases hr : g.repair? with
  | none => exact ⟨hk, nofun⟩
  | some r =>
      refine ⟨hafter, fun r' h => ?_⟩
      cases h
      rw [(repair?_eq_some hr).2]
      exact hforced

/-- A truthful event keeps the rate between the bounds, and its repair, if any, does not cross them. -/
theorem brackets_after {t : Transition α} (hc : c.Coherent) (hconfig : t.before.config = c)
    (he : t.event.isInit = false) (hlow : c.initMinC ≤ capacity) (hhigh : capacity ≤ c.initMaxC)
    (htrue : t.Truthful capacity) (hk : t.before.beliefs.capacity.Brackets capacity) :
    t.after.beliefs.capacity.Brackets capacity ∧ ∀ r, t.repair? = some r → r.forced = false := by
  rw [capacity_after t he, Transition.repair?]
  cases hs : t.sampled? with
  | none => exact ⟨hk, nofun⟩
  | some q =>
      obtain ⟨g, s⟩ := q
      obtain ⟨n, _, _, -, ha, -⟩ := sampled?_eq_some hs
      obtain ⟨seq, s₀, -, hacc⟩ := accepts_of_accepted ha
      have hg : g.config = c := hacc.config.trans hconfig
      exact brackets_repairBounds hc hg hlow hhigh
        (brackets_merged hs (hg ▸ hlow) (hg ▸ hhigh) htrue (hacc.capacity ▸ hk))

theorem brackets_epoch (hc : c.Coherent) (hlow : c.initMinC ≤ capacity) (hhigh : capacity ≤ c.initMaxC)
    (events : List (Event α)) :
    (∀ t ∈ epoch c events, t.Truthful capacity) →
      (afterRun c events).beliefs.capacity.Brackets capacity ∧
        ∀ t ∈ epoch c events, ∀ r, t.repair? = some r → r.forced = false := by
  refine epoch_induction (P := fun ts f => (∀ t ∈ ts, t.Truthful capacity) →
    f.beliefs.capacity.Brackets capacity ∧ ∀ t ∈ ts, ∀ r, t.repair? = some r → r.forced = false)
    c ?_ ?_ ?_ events
  · intro _
    exact ⟨⟨hlow, hhigh, hlow, hhigh⟩, fun t ht => absurd ht List.not_mem_nil⟩
  · rintro f rfl - -
    exact ⟨⟨hlow, hhigh, hlow, hhigh⟩, fun t ht => absurd ht List.not_mem_nil⟩
  · intro ts f e hf he ih htrue
    obtain ⟨hk, hts⟩ := ih fun t ht => htrue t (List.mem_append_left _ ht)
    obtain ⟨hafter, hlast⟩ := brackets_after (t := ⟨f, e⟩) hc hf he hlow hhigh
      (htrue _ (List.mem_append_right _ List.mem_cons_self)) hk
    refine ⟨hafter, fun t ht => ?_⟩
    rcases List.mem_append.mp ht with ht | ht
    · exact hts t ht
    · rw [List.mem_singleton.mp ht]
      exact hlast

theorem capacity_bracketed (c : Config Float) (hc : c.Coherent) (capacity : Float)
    (hlow : c.initMinC ≤ capacity) (hhigh : capacity ≤ c.initMaxC) (events : List (Event Float))
    (htrue : ∀ t ∈ epoch c events, t.Truthful capacity) :
    let b := (afterRun c events).beliefs
    (b.minC ≤ capacity ∧ capacity ≤ b.maxC) ∧
      (b.mincSinceLastTimeout ≤ capacity ∧ capacity ≤ b.maxcSinceLastTimeout) ∧
      ∀ t ∈ epoch c events, ∀ r, t.repair? = some r → r.forced = false := by
  obtain ⟨hk, hforced⟩ := brackets_epoch hc hlow hhigh events htrue
  exact ⟨⟨hk.minC_le, hk.le_maxC⟩, ⟨hk.recent_minC_le, hk.le_recent_maxC⟩, hforced⟩

/-- Four segments sent at once are acked one by one. The last ack shows an upper bound and runs a repair, both
true of twelve segments per second. -/
theorem twelve_bracketed :
    let c : Config Float := .standard
    let twelve : Float := ofNat 12
    let events : List (Event Float) :=
      [.sent 0, .sent 1, .sent 2, .sent 3, .clock (ofNat 20), .ack 1 zero zero, .clock (ofNat 100),
        .ack 2 zero zero, .clock (ofNat 180), .ack 3 zero zero, .clock (ofNat 260), .ack 4 zero zero]
    let b := (afterRun c events).beliefs
    c.Coherent ∧ c.initMinC ≤ twelve ∧ twelve ≤ c.initMaxC ∧
      (∀ t ∈ epoch c events, t.Truthful twelve) ∧
      (∃ t ∈ epoch c events, t.upperQuotients ≠ [] ∧ t.repair?.isSome = true) ∧
      (b.minC ≤ twelve ∧ twelve ≤ b.maxC) ∧
      (b.mincSinceLastTimeout ≤ twelve ∧ twelve ≤ b.maxcSinceLastTimeout) ∧
      ∀ t ∈ epoch c events, ∀ r, t.repair? = some r → r.forced = false := by
  intro c twelve events b
  have hlow : c.initMinC ≤ twelve := by decide +kernel
  have hhigh : twelve ≤ c.initMaxC := by decide +kernel
  have htrue : ∀ t ∈ epoch c events, t.Truthful twelve := by decide +kernel
  have hseen : ∃ t ∈ epoch c events, t.upperQuotients ≠ [] ∧ t.repair?.isSome = true := by decide +kernel
  exact ⟨coherent_standard, hlow, hhigh, htrue, hseen,
    capacity_bracketed c coherent_standard twelve hlow hhigh events htrue⟩

end Flow

end Pacing

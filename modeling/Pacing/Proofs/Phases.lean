import Mathlib.Data.List.DropRight
import Mathlib.Data.List.Induction
import Pacing.Proofs.Config
import Pacing.Decision

/-!
# The phases of a law

What a phase machine goes through when it is told to decide, to begin the steady state of its law and to start
over, in any order and with any beliefs. The steady state of the duty cycle is taken apart into its ticks: each
drains, or belongs to a probe of a whole measurement interval, the last of which may be under way.
-/

namespace Pacing

variable {α : Type}

open Scalar

/-- The phases that a law goes through. -/
def Law.phases : Law → List Phase
  | .phaseDriven => [.slowStart, .congAvoid]
  | .dutyCycled => [.slowStart, .drain, .probe]

theorem Law.steadyPhase_mem (law : Law) : law.steadyPhase ∈ law.phases := by cases law <;> decide

theorem Law.steadyPhase_ne_slowStart (law : Law) : law.steadyPhase ≠ .slowStart := by cases law <;> decide

namespace PhaseMachine

/-! ## Calls and ticks -/

/-- What a phase machine can be told. -/
inductive Call (α : Type)
  | decide (b : Beliefs α)
  | floor (b : Beliefs α)
  | enterSteadyState
  | reset

def Call.isReset : Call α → Bool
  | .reset => true
  | _ => false

def Call.isEntry : Call α → Bool
  | .enterSteadyState => true
  | _ => false

/-- A call and the machine that it met. -/
structure Exchange (α : Type) where
  before : PhaseMachine
  call : Call α

/-- A decision that was left to the phase: the machine and the beliefs that it was made from. -/
structure Tick (α : Type) where
  before : PhaseMachine
  beliefs : Beliefs α

def Exchange.tick? (x : Exchange α) : Option (Tick α) :=
  match x.call with
  | .decide b => some ⟨x.before, b⟩
  | _ => none

/-- Of some exchanges, what came after the last reset, from the first entry to the steady state on. -/
def steadyPart (xs : List (Exchange α)) : List (Exchange α) :=
  (xs.rtakeWhile fun x => !x.call.isReset).dropWhile fun x => !x.call.isEntry

/-- The ticks of the steady state that has lasted since. -/
def steadyTicks (xs : List (Exchange α)) : List (Tick α) := (steadyPart xs).filterMap Exchange.tick?

theorem steadyPart_concat_of_reset (xs : List (Exchange α)) {x : Exchange α} (h : x.call.isReset = true) :
    steadyPart (xs ++ [x]) = [] := by
  rw [steadyPart, List.rtakeWhile_concat, h]
  rfl

theorem steadyPart_concat (xs : List (Exchange α)) {x : Exchange α} (h : x.call.isReset = false) :
    steadyPart (xs ++ [x]) =
      if steadyPart xs = [] ∧ x.call.isEntry = false then [] else steadyPart xs ++ [x] := by
  have hpart : steadyPart (xs ++ [x]) =
      if steadyPart xs = [] then [x].dropWhile fun x => !x.call.isEntry else steadyPart xs ++ [x] := by
    rw [steadyPart, List.rtakeWhile_concat, h, Bool.not_false, if_pos rfl, List.dropWhile_append]
    simp only [List.isEmpty_iff]
    rfl
  rw [hpart]
  by_cases hs : steadyPart xs = [] <;> cases he : x.call.isEntry <;> simp [hs, he]

theorem steadyTicks_concat (xs : List (Exchange α)) {x : Exchange α} (h : x.call.isReset = false) :
    steadyTicks (xs ++ [x]) =
      if steadyPart xs = [] then steadyTicks xs else steadyTicks xs ++ x.tick?.toList := by
  have hentry : x.call.isEntry = true → x.tick? = none := by
    unfold Exchange.tick?
    cases x.call <;> simp [Call.isEntry]
  simp only [steadyTicks, steadyPart_concat xs h]
  by_cases hs : steadyPart xs = []
  · cases he : x.call.isEntry with
    | true => simp [hs, hentry he]
    | false => simp [hs]
  · cases hx : x.tick? <;> simp [hs, hx]

theorem getElem?_concat_eq_some {ts : List (Tick α)} {t u : Tick α} {i : Nat} (h : (ts ++ [t])[i]? = some u) :
    ts[i]? = some u ∨ (i = ts.length ∧ u = t) := by
  grind

@[simp] theorem law_enterSteadyState (m : PhaseMachine) : m.enterSteadyState.law = m.law := by
  unfold enterSteadyState
  split <;> rfl

theorem phase_enterSteadyState (m : PhaseMachine) :
    m.enterSteadyState.phase = if m.phase = .slowStart then m.law.steadyPhase else m.phase := by
  unfold enterSteadyState
  split <;> rfl

@[simp] theorem law_tickProbe (m : PhaseMachine) (c : Config α) (ticks : Nat) :
    (m.tickProbe c ticks).law = m.law := by
  unfold tickProbe
  split <;> rfl

theorem phase_tickProbe (m : PhaseMachine) (c : Config α) (ticks : Nat) :
    (m.tickProbe c ticks).phase = .drain ∨ (m.tickProbe c ticks).phase = .probe := by
  unfold tickProbe
  split
  · exact .inl rfl
  · exact .inr rfl

variable [Scalar α]

def obey (m : PhaseMachine) (c : Config α) : Call α → PhaseMachine
  | .decide b => (m.decision b c).1
  | .floor _ => m
  | .enterSteadyState => m.enterSteadyState
  | .reset => m.reset

/-- The machine after some calls. -/
def told (m : PhaseMachine) (c : Config α) (calls : List (Call α)) : PhaseMachine :=
  calls.foldl (fun m call => m.obey c call) m

def exchanges (m : PhaseMachine) (c : Config α) : List (Call α) → List (Exchange α)
  | [] => []
  | call :: calls => ⟨m, call⟩ :: (m.obey c call).exchanges c calls

theorem told_concat (m : PhaseMachine) (c : Config α) (calls : List (Call α)) (call : Call α) :
    m.told c (calls ++ [call]) = (m.told c calls).obey c call :=
  List.foldl_concat ..

theorem exchanges_concat (m : PhaseMachine) (c : Config α) (calls : List (Call α)) (call : Call α) :
    m.exchanges c (calls ++ [call]) = m.exchanges c calls ++ [⟨m.told c calls, call⟩] := by
  induction calls generalizing m with
  | nil => rfl
  | cons call' calls ih =>
      simp only [List.cons_append, exchanges, ih]
      rfl

/-! ## One call -/

@[simp] theorem law_advance (m : PhaseMachine) (b : Beliefs α) (c : Config α) :
    (m.advance b c).1.law = m.law := by
  unfold advance
  split
  · rfl
  · rfl
  · exact m.law_tickProbe c _
  · split
    · rfl
    · exact m.law_tickProbe c 0

section call

variable (m : PhaseMachine) (c : Config α)

theorem law_obey (call : Call α) : (m.obey c call).law = m.law := by
  cases call with
  | decide b => exact m.law_advance b c
  | enterSteadyState => exact m.law_enterSteadyState
  | _ => rfl

/-- A tick keeps the phase, or is one of the duty cycle. -/
theorem phase_advance (b : Beliefs α) :
    (m.advance b c).1.phase = m.phase ∨
      (m.phase = .drain ∨ m.phase = .probe) ∧
        ((m.advance b c).1.phase = .drain ∨ (m.advance b c).1.phase = .probe) := by
  unfold advance
  split
  case h_1 => exact .inl rfl
  case h_2 => exact .inl rfl
  case h_3 h => exact .inr ⟨.inr h, m.phase_tickProbe c _⟩
  case h_4 h =>
    split
    · exact .inl rfl
    · exact .inr ⟨.inl h, m.phase_tickProbe c _⟩

theorem phase_obey_mem (call : Call α) (h : m.phase ∈ m.law.phases) :
    (m.obey c call).phase ∈ m.law.phases := by
  cases call with
  | decide b =>
      obtain hkeep | ⟨hfrom, hto⟩ := m.phase_advance c b
      · change (m.advance b c).1.phase ∈ _
        rwa [hkeep]
      · change (m.advance b c).1.phase ∈ _
        cases hl : m.law with
        | phaseDriven => rcases hfrom with hf | hf <;> simp [hl, hf, Law.phases] at h
        | dutyCycled => rcases hto with ht | ht <;> simp [ht, Law.phases]
  | floor b => exact h
  | enterSteadyState =>
      change m.enterSteadyState.phase ∈ _
      rw [phase_enterSteadyState]
      split
      · exact m.law.steadyPhase_mem
      · exact h
  | reset => cases hl : m.law <;> simp [obey, reset, start, Law.phases]

/-- Slow start is left for the steady state alone, and come back to by a reset alone. -/
theorem phase_obey_eq_slowStart_iff (call : Call α) :
    (m.obey c call).phase = .slowStart ↔
      call = .reset ∨ (m.phase = .slowStart ∧ call ≠ .enterSteadyState) := by
  cases call with
  | decide b =>
      have hphase := m.phase_advance c b
      change (m.advance b c).1.phase = _ ↔ _
      grind
  | floor b => simp [obey]
  | enterSteadyState =>
      change m.enterSteadyState.phase = _ ↔ _
      rw [phase_enterSteadyState]
      split <;> simp [m.law.steadyPhase_ne_slowStart, *]
  | reset => simp [obey, reset, start]

end call

/-! ## The duty cycle -/

namespace Tick

def rate (t : Tick α) (c : Config α) : α := (t.before.decision t.beliefs c).2.sendingRate

def after (t : Tick α) (c : Config α) : PhaseMachine := (t.before.decision t.beliefs c).1

/-- The tick finds a full pipe and holds the floor rate. -/
structure Drains (c : Config α) (t : Tick α) : Prop where
  before : t.before.phase = .drain
  full : c.fullPipe < t.beliefs.bqBelief1
  rate : t.rate c = t.beliefs.minSendingRate c
  after : (t.after c).phase = .drain

/-- The first ticks of a probe. It begins when the pipe is no longer full, and from then on each tick has its
rate from its own beliefs and whatever they say of the pipe. -/
structure Probes (c : Config α) (ts : List (Tick α)) : Prop where
  begins : ∀ t, ts[0]? = some t → t.before.phase = .drain ∧ t.beliefs.bqBelief1 ≤ c.fullPipe
  goesOn : ∀ i t, ts[i + 1]? = some t → t.before.phase = .probe ∧ t.before.probeCounter = i + 1
  rate : ∀ t ∈ ts, t.rate c = Scalar.max
    (((one + c.jitterMultiplier) * t.beliefs.minCLambda + t.beliefs.minSendingRate c) / ofNat c.measurementSpan)
    (t.beliefs.minSendingRate c)

/-- One tick of draining, or a probe of a whole measurement interval. -/
def Stretch (c : Config α) (ts : List (Tick α)) : Prop :=
  (∃ t, ts = [t] ∧ t.Drains c) ∨ (Probes c ts ∧ ts.length = c.measurementSpan)

variable {c : Config α}

theorem Probes.nil : Probes c [] where
  begins := by simp
  goesOn := by simp
  rate := by simp

/-- A tick that finds the pipe not full any more begins a probe, and a tick in a probe goes on with it. -/
theorem Probes.concat {ts : List (Tick α)} (h : Probes c ts) {t : Tick α}
    (hbegins : ts = [] → t.before.phase = .drain ∧ t.beliefs.bqBelief1 ≤ c.fullPipe)
    (hgoesOn : ts ≠ [] → t.before.phase = .probe ∧ t.before.probeCounter = ts.length) :
    Probes c (ts ++ [t]) ∧ t.after c = t.before.tickProbe c ts.length := by
  have hadvance : t.before.advance t.beliefs c =
      (t.before.tickProbe c ts.length, probeRate t.beliefs c) := by
    by_cases hts : ts = []
    · obtain ⟨hphase, hpipe⟩ := hbegins hts
      simp [advance, hphase, hts, Nat.not_lt.mpr hpipe]
    · obtain ⟨hphase, hcounter⟩ := hgoesOn hts
      simp [advance, hphase, hcounter]
  have hrate : t.rate c = Scalar.max (probeRate t.beliefs c) (t.beliefs.minSendingRate c) := by
    change Scalar.max (t.before.advance t.beliefs c).2 _ = _
    rw [hadvance]
  refine ⟨⟨?_, ?_, ?_⟩, congrArg Prod.fst hadvance⟩
  · intro u hu
    obtain hold | ⟨hi, rfl⟩ := getElem?_concat_eq_some hu
    · exact h.begins u hold
    · exact hbegins (List.length_eq_zero_iff.mp hi.symm)
  · intro i u hu
    obtain hold | ⟨hi, rfl⟩ := getElem?_concat_eq_some hu
    · exact h.goesOn i u hold
    · rw [hi]
      exact hgoesOn fun hnil => by simp [hnil] at hi
  · intro u hu
    rcases List.mem_append.mp hu with hu | hu
    · exact h.rate u hu
    · cases List.mem_singleton.mp hu
      exact hrate

theorem drains_or_begins {t : Tick α} (h : t.before.phase = .drain) :
    (t.Drains c ∧ t.after c = t.before) ∨ t.beliefs.bqBelief1 ≤ c.fullPipe := by
  rcases Nat.lt_or_ge c.fullPipe t.beliefs.bqBelief1 with hfull | hpipe
  · have hadvance : t.before.advance t.beliefs c = (t.before, t.beliefs.minSendingRate c) := by
      simp [advance, h, hfull]
    have hafter : t.after c = t.before := congrArg Prod.fst hadvance
    have hrate : t.rate c = t.beliefs.minSendingRate c := by
      change Scalar.max (t.before.advance t.beliefs c).2 _ = _
      rw [hadvance, Scalar.max]
      split <;> simp
    exact .inl ⟨⟨h, hfull, hrate, hafter ▸ h⟩, hafter⟩
  · exact .inr hpipe

end Tick

open Tick

/-- The ticks of a steady state, and the machine that they lead to: whole stretches, then a probe under way if the
machine says so. -/
def DutyCycle (c : Config α) (ts : List (Tick α)) (m : PhaseMachine) : Prop :=
  ∃ (stretches : List (List (Tick α))) (under : List (Tick α)),
    ts = stretches.flatten ++ under ∧ (∀ s ∈ stretches, Stretch c s) ∧
    Probes c under ∧ under.length < c.measurementSpan ∧
    (m.phase = .probe ↔ under ≠ []) ∧ m.probeCounter = under.length

variable {c : Config α} {m : PhaseMachine} {ts : List (Tick α)}

theorem DutyCycle.rest (h : m.phase ≠ .probe) (hcounter : m.probeCounter = 0) : DutyCycle c [] m :=
  ⟨[], [], rfl, by simp, .nil, c.zero_lt_measurementSpan, by simp [h], hcounter⟩

theorem DutyCycle.of_probes {stretches : List (List (Tick α))} {under : List (Tick α)} {t : Tick α}
    (hstretches : ∀ s ∈ stretches, Stretch c s) (hunder : Probes c (under ++ [t]))
    (hlt : under.length < c.measurementSpan) :
    DutyCycle c (stretches.flatten ++ under ++ [t]) (t.before.tickProbe c under.length) := by
  have hlength : (under ++ [t]).length = under.length + 1 := by simp
  rw [tickProbe]
  split
  case isTrue hle =>
    have hwhole : Stretch c (under ++ [t]) := .inr ⟨hunder, by omega⟩
    refine ⟨stretches ++ [under ++ [t]], [], by simp, ?_, .nil, c.zero_lt_measurementSpan, by simp, rfl⟩
    exact List.forall_mem_append.mpr ⟨hstretches, List.forall_mem_singleton.mpr hwhole⟩
  case isFalse hgt =>
    exact ⟨stretches, under ++ [t], List.append_assoc .., hstretches, hunder, by omega, by simp, hlength.symm⟩

/-- The tick drains, or is one more of a probe. -/
theorem DutyCycle.tick (h : DutyCycle c ts m) (hphase : m.phase = .drain ∨ m.phase = .probe) (b : Beliefs α) :
    DutyCycle c (ts ++ [⟨m, b⟩]) (m.decision b c).1 := by
  obtain ⟨stretches, under, rfl, hstretches, hunder, hlt, hprobe, hcounter⟩ := h
  have hprobes (hbegins : under = [] → m.phase = .drain ∧ b.bqBelief1 ≤ c.fullPipe) :
      DutyCycle c (stretches.flatten ++ under ++ [⟨m, b⟩]) (m.decision b c).1 := by
    obtain ⟨hmore, hafter⟩ := hunder.concat (t := ⟨m, b⟩) hbegins fun hne => ⟨hprobe.mpr hne, hcounter⟩
    change (m.decision b c).1 = _ at hafter
    rw [hafter]
    exact .of_probes hstretches hmore hlt
  -- With no probe under way the phase is a drain, which this very tick may turn into a probe.
  by_cases hne : under = []
  · have hdrain : m.phase = .drain := hphase.resolve_right fun hp => hprobe.mp hp hne
    obtain ⟨hdrains, hafter⟩ | hpipe := drains_or_begins (c := c) (t := ⟨m, b⟩) hdrain
    · change (m.decision b c).1 = m at hafter
      have hstretch : Stretch c [⟨m, b⟩] := .inl ⟨_, rfl, hdrains⟩
      rw [hafter]
      refine ⟨stretches ++ [[⟨m, b⟩]], under, by simp [hne], ?_, hunder, hlt, hprobe, hcounter⟩
      exact List.forall_mem_append.mpr ⟨hstretches, List.forall_mem_singleton.mpr hstretch⟩
    · exact hprobes fun _ => ⟨hdrain, hpipe⟩
  · exact hprobes fun h => absurd h hne

theorem DutyCycle.enterSteadyState (h : DutyCycle c ts m) (hlaw : m.law = .dutyCycled) :
    DutyCycle c ts m.enterSteadyState := by
  unfold PhaseMachine.enterSteadyState
  split
  case isTrue hslow =>
    obtain ⟨stretches, under, hts, hstretches, hunder, hlt, hprobe, hcounter⟩ := h
    have hnone : under = [] := by simpa [hslow] using hprobe
    refine ⟨stretches, under, hts, hstretches, hunder, hlt, ?_, by simp [hnone]⟩
    simp [hlaw, Law.steadyPhase, hnone]
  case isFalse => exact h

/-! ## Any calls -/

theorem law_told (law : Law) (c : Config α) (calls : List (Call α)) : ((start law).told c calls).law = law := by
  induction calls using List.reverseRecOn with
  | nil => rfl
  | append_singleton calls call ih => rw [told_concat, law_obey, ih]

theorem phase_told_mem (law : Law) (c : Config α) (calls : List (Call α)) :
    ((start law).told c calls).phase ∈ law.phases := by
  induction calls using List.reverseRecOn with
  | nil => cases law <;> simp [told, start, Law.phases]
  | append_singleton calls call ih =>
      have hlaw := law_told law c calls
      have hmem := phase_obey_mem ((start law).told c calls) c call (by rwa [hlaw])
      rwa [hlaw, ← told_concat] at hmem

theorem phase_told_eq_slowStart_iff (law : Law) (c : Config α) (calls : List (Call α)) :
    ((start law).told c calls).phase = .slowStart ↔ steadyPart ((start law).exchanges c calls) = [] := by
  induction calls using List.reverseRecOn with
  | nil => exact ⟨fun _ => rfl, fun _ => rfl⟩
  | append_singleton calls call ih =>
      rw [told_concat, exchanges_concat, phase_obey_eq_slowStart_iff, ih]
      cases hr : call.isReset with
      | true =>
          rw [steadyPart_concat_of_reset _ hr]
          cases call <;> simp [Call.isReset] at hr ⊢
      | false =>
          rw [steadyPart_concat _ hr]
          cases call <;> simp [Call.isReset, Call.isEntry] at hr ⊢

theorem dutyCycle_told (c : Config α) (calls : List (Call α)) :
    DutyCycle c (steadyTicks ((start .dutyCycled).exchanges c calls)) ((start .dutyCycled).told c calls) := by
  induction calls using List.reverseRecOn with
  | nil => exact .rest nofun rfl
  | append_singleton calls call ih =>
      have hslow := phase_told_eq_slowStart_iff .dutyCycled c calls
      have hmem := phase_told_mem .dutyCycled c calls
      have hlaw := law_told .dutyCycled c calls
      rw [told_concat, exchanges_concat]
      generalize (start .dutyCycled).told c calls = m at *
      generalize (start .dutyCycled).exchanges c calls = xs at *
      cases call with
      | decide b =>
          rw [steadyTicks_concat _ rfl]
          -- In slow start the tick belongs to no steady state, and the machine stays as it is.
          by_cases hs : steadyPart xs = []
          · have hkeep : (m.decision b c).1 = m := by
              simp [decision, advance, hslow.mpr hs]
            rw [if_pos hs, obey, hkeep]
            exact ih
          · have hphase : m.phase = .drain ∨ m.phase = .probe := by
              simpa [Law.phases, mt hslow.mp hs] using hmem
            rw [if_neg hs]
            exact ih.tick hphase b
      | floor b =>
          rw [steadyTicks_concat _ rfl, Exchange.tick?, Option.toList_none, List.append_nil, ite_self]
          exact ih
      | enterSteadyState =>
          rw [steadyTicks_concat _ rfl, Exchange.tick?, Option.toList_none, List.append_nil, ite_self]
          exact ih.enterSteadyState hlaw
      | reset =>
          rw [steadyTicks, steadyPart_concat_of_reset _ rfl]
          exact .rest nofun rfl

/-- Whatever a phase machine is told, it keeps to the phases of its law, leaves slow start for the steady state
alone and comes back to it by a reset alone. Under the duty cycle, the ticks of the steady state are those of
draining and of whole probes, but for a probe under way. -/
theorem phases_run (law : Law) (c : Config α) (calls : List (Call α)) :
    let m := (start law).told c calls
    m.phase ∈ law.phases ∧
    (∀ call, (m.obey c call).phase = .slowStart ↔
      call = .reset ∨ (m.phase = .slowStart ∧ call ≠ .enterSteadyState)) ∧
    (law = .dutyCycled → DutyCycle c (steadyTicks ((start law).exchanges c calls)) m) := by
  refine ⟨phase_told_mem law c calls, phase_obey_eq_slowStart_iff _ c, ?_⟩
  rintro rfl
  exact dutyCycle_told c calls

/-- The pipe fills up in the middle of a probe of two ticks, which ends all the same. -/
theorem phases_run_through_probe :
    let c : Config Float := { Config.standard with measurementIntervalHistory := 2 }
    let clear : Beliefs Float := .start c one
    let full : Beliefs Float := { clear with bqBelief1 := c.fullPipe + 1 }
    let calls : List (Call Float) :=
      [.enterSteadyState, .decide full, .decide clear, .floor full, .enterSteadyState, .decide full]
    let m := (start .dutyCycled).told c calls
    m = ⟨.dutyCycled, .drain, 0⟩ ∧ (steadyTicks ((start .dutyCycled).exchanges c calls)).length = 3 ∧
      DutyCycle c (steadyTicks ((start .dutyCycled).exchanges c calls)) m := by
  intro c clear full calls m
  exact ⟨by decide +kernel, by decide +kernel, (phases_run .dutyCycled c calls).2.2 rfl⟩

end PhaseMachine

end Pacing

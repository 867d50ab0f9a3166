import Pacing.Beliefs.Capacity
import Pacing.Proofs.Beliefs.Floor
import Pacing.Proofs.Beliefs.Throughput
import Pacing.Proofs.Scalar.Monotone

/-!
# Passes that read every window again

Marks on samples save a pass the windows that earlier passes have used. A pass that ignores marks and sets
none learns the same, as long as the history is settled: what a marked sample could tell is spoilt by a queue
or a loss, or is taken in already.
-/

namespace Pacing

variable {α : Type}

open Scalar

/-! ## Histories that differ in marks -/

/-- Rings that hold the same samples but for their marks. -/
structure SameSamples (r r' : Ring (Sample α)) : Prop where
  capacity : r.capacity = r'.capacity
  samples : r.toList.map Sample.markProcessed = r'.toList.map Sample.markProcessed

namespace SameSamples

variable {r r' : Ring (Sample α)}

theorem refl (r : Ring (Sample α)) : SameSamples r r := ⟨rfl, rfl⟩

theorem trans {r'' : Ring (Sample α)} (h : SameSamples r r') (h' : SameSamples r' r'') : SameSamples r r'' :=
  ⟨h.capacity.trans h'.capacity, h.samples.trans h'.samples⟩

theorem mark (r : Ring (Sample α)) (i : Nat) : SameSamples r (r.modify i Sample.markProcessed) where
  capacity := (Ring.capacity_modify ..).symm
  samples := by
    refine List.ext_getElem? fun j => ?_
    rw [Ring.toList_modify, List.getElem?_map, List.getElem?_map, List.getElem?_modify]
    cases r.toList[j]? with
    | none => rfl
    | some st => by_cases hij : i = j <;> simp [hij, Sample.markProcessed]

theorem foldl_mark (used : List Nat) (r : Ring (Sample α)) :
    SameSamples r (used.foldl (fun r d => r.modify (r.size - 1 - d) Sample.markProcessed) r) := by
  induction used generalizing r with
  | nil => exact refl r
  | cons d used ih => exact (mark r _).trans (ih _)

theorem size (h : SameSamples r r') : r.size = r'.size := by
  have hlength := congrArg List.length h.samples
  simpa using hlength

theorem isEmpty (h : SameSamples r r') : r.isEmpty = r'.isEmpty := by
  have hsize : r.slots.size = r'.slots.size := h.size
  rw [Ring.isEmpty, Ring.isEmpty, Array.isEmpty, Array.isEmpty, hsize]

theorem push (h : SameSamples r r') (x : Sample α) : SameSamples (r.push x).1 (r'.push x).1 where
  capacity := by rw [Ring.capacity_push, Ring.capacity_push, h.capacity]
  samples := by
    rw [Ring.toList_push, Ring.toList_push, h.size, h.capacity]
    split
    · rw [List.map_append, List.map_append, h.samples]
    · rw [List.map_append, List.map_append, List.map_tail, List.map_tail, h.samples]

variable [Scalar α]

theorem extend (h : SameSamples r r') (rtt : α) :
    SameSamples (r.modifyBack (·.extend rtt)) (r'.modifyBack (·.extend rtt)) where
  capacity := by
    rw [Ring.modifyBack, Ring.capacity_modify, Ring.modifyBack, Ring.capacity_modify, h.capacity]
  samples := by
    have hmap (l : List (Sample α)) (i : Nat) : (l.modify i (·.extend rtt)).map Sample.markProcessed =
        (l.map Sample.markProcessed).modify i (·.extend rtt) := by
      refine List.ext_getElem? fun j => ?_
      rw [List.getElem?_map, List.getElem?_modify, List.getElem?_modify, List.getElem?_map]
      cases l[j]? with
      | none => rfl
      | some st => by_cases hij : i = j <;> simp [hij, Sample.extend, Sample.markProcessed]
    rw [Ring.toList_modifyBack, Ring.toList_modifyBack, hmap, hmap, h.samples, Ring.length_toList,
      Ring.length_toList, h.size]

end SameSamples

namespace Beliefs

variable [Scalar α]

section marks

variable {b : Beliefs α} {c : Config α} {anchor : Nat} {r r' : Ring (Sample α)}

/-- What the windows of a history tell, used or not. -/
def told (b : Beliefs α) (c : Config α) (anchor : Nat) (history : List (Sample α)) : List α :=
  ((b.windows c history).filter (·.tells anchor)).map Window.rate

/-- Raises the throughput to the best that any window of the history tells, used or not, and marks none. -/
def relearnThroughput (b : Beliefs α) (c : Config α) (anchor : Nat) (history : Ring (Sample α)) :
    Beliefs α × Ring (Sample α) :=
  ({ b with minCLambda := (b.told c anchor history.toList).foldl Scalar.max b.minCLambda }, history)

/-- The window with its samples marked. -/
def Window.marked (w : Window α) : Window α :=
  { w with st := w.st.markProcessed, et := w.et.markProcessed }

theorem Window.from?_map_mark (span : Nat) (threshold : α) (st : Sample α) (newer : List (Sample α)) :
    Window.from? span threshold st.markProcessed (newer.map Sample.markProcessed) =
      (Window.from? span threshold st newer).map Window.marked := by
  rw [from?, from?, ← List.map_cons, List.getElem?_map, Option.map_map, Option.map_map, List.all_map,
    List.length_map]
  rfl

theorem windowsIn_map_mark (span : Nat) (threshold : α) (older newer : List (Sample α)) :
    windowsIn span threshold (older.map Sample.markProcessed) (newer.map Sample.markProcessed) =
      (windowsIn span threshold older newer).map Window.marked := by
  induction older generalizing newer with
  | nil => rfl
  | cons st older ih =>
      have ih := ih (st :: newer)
      rw [List.map_cons] at ih
      rw [List.map_cons, windowsIn, windowsIn, ih, Window.from?_map_mark, List.map_append, Option.toList_map]

theorem told_map_mark (history : List (Sample α)) :
    b.told c anchor (history.map Sample.markProcessed) = b.told c anchor history := by
  have hwindows : b.windows c (history.map Sample.markProcessed) =
      (b.windows c history).map Window.marked := by
    rw [windows, ← List.map_reverse]
    exact windowsIn_map_mark _ _ _ []
  rw [told, hwindows, List.filter_map, List.map_map]
  rfl

theorem told_congr (h : SameSamples r r') : b.told c anchor r.toList = b.told c anchor r'.toList := by
  rw [← told_map_mark, h.samples, told_map_mark]

theorem scan_map_mark (jitter threshold : α) (et : Sample α) (older : List (Sample α)) (depth : Nat)
    (busy : Bool) (f : Bounds α) :
    Bounds.scan jitter threshold et.markProcessed (older.map Sample.markProcessed) depth busy f =
      Bounds.scan jitter threshold et older depth busy f := by
  induction older generalizing depth busy f with
  | nil => rfl
  | cons st older ih => exact ih ..

theorem learnBounds_map_mark (history : List (Sample α)) :
    b.learnBounds c (history.map Sample.markProcessed) = b.learnBounds c history := by
  rw [learnBounds, learnBounds, ← List.map_reverse]
  rcases history.reverse with _ | ⟨et, _ | ⟨st, older⟩⟩
  · rfl
  · rfl
  · exact congrArg (b.tighten c) (scan_map_mark _ _ et (st :: older) ..)

theorem learnBounds_congr (h : SameSamples r r') : b.learnBounds c r.toList = b.learnBounds c r'.toList := by
  rw [← learnBounds_map_mark, h.samples, learnBounds_map_mark]

end marks

/-! ## Settled histories -/

/-- A sample that has nothing to tell: a queue or a loss has come between it and the newest one, or its window
is too short or taken in. -/
def Spent (c : Config α) (b : Beliefs α) (r : Ring (Sample α)) (depth : Nat) (st : Sample α) : Prop :=
  (∃ d ≤ depth, ∃ x, r.below? d = some x ∧ x.isUnderutilized (b.threshold c) = false) ∨
    c.measurementSpan ≤ depth ∧ ∃ et, r.below? (depth - c.measurementSpan) = some et ∧
      (timeEpsilon < st.lengthTo et → isNaN (st.rateTo et) = true ∨ st.rateTo et ≤ b.minCLambda)

/-- Every sample has seen a round-trip time, and every marked one is spent. -/
structure Settled (c : Config α) (b : Beliefs α) (r : Ring (Sample α)) : Prop where
  number : ∀ depth st, r.below? depth = some st → isNaN st.maxRtt = false
  spent : ∀ depth st, r.below? depth = some st → st.processed = true → Spent c b r depth st

section settled

variable {b : Beliefs α} {c : Config α} {anchor : Nat} {r r' : Ring (Sample α)}

theorem told_of_spent {w : Window α} (hw : w ∈ b.windows c r.toList) (htells : w.tells anchor = true)
    (hspent : Spent c b r w.depth w.st) : isNaN w.rate = true ∨ w.rate ≤ b.minCLambda := by
  obtain ⟨-, -, het, hclean⟩ := below?_of_mem_windows hw
  simp only [Window.tells, Bool.and_eq_true, decide_eq_true_eq] at htells
  rcases hspent with ⟨d, hd, x, hx, hunder⟩ | ⟨-, et, het', hrate⟩
  · exact absurd (hclean.mp htells.1.2 d hd x hx) (by simp [hunder])
  · cases het.symm.trans het'
    exact hrate htells.2

/-- In a settled history the windows that were used add nothing to the others. -/
theorem foldl_told_eq [MonotoneScalar α] (hpos : zero < c.initMinC) (hfloor : c.initMinC ≤ b.minCLambda)
    (hr : Settled c b r) :
    (b.told c anchor r.toList).foldl Scalar.max b.minCLambda =
      Scalar.max b.minCLambda
        (((b.learntFrom c anchor r.toList).map Window.rate).foldl Scalar.max c.initMinC) := by
  have hnum := number_right hfloor
  have hnum₀ := number_left hfloor
  have hfresh := le_foldl_max hnum₀ ((b.learntFrom c anchor r.toList).map Window.rate)
  have hold := le_foldl_max hnum (b.told c anchor r.toList)
  refine MonotoneScalar.eq_of_le_of_le (lt_of_lt_of_le hpos (le_trans hfloor hold)) ?_ ?_
  · refine foldl_max_le_of_number (le_max_left hnum _) fun rate hrate hrnum => ?_
    obtain ⟨w, hw, rfl⟩ := List.mem_map.mp hrate
    obtain ⟨hmem, htells⟩ := List.mem_filter.mp hw
    -- A window that was used is spent, and the others are those that the pass learns from.
    cases hp : w.st.processed with
    | true =>
        have hst := (below?_of_mem_windows hmem).2.1
        have hle := (told_of_spent hmem htells (hr.spent _ _ hst hp)).resolve_left (by simp [hrnum])
        exact le_trans hle (le_max_left hnum _)
    | false =>
        have hlearnt : w ∈ b.learntFrom c anchor r.toList := List.mem_filter.mpr ⟨hmem, by simp [hp, htells]⟩
        exact le_trans (le_foldl_max_of_mem hnum₀ hrnum (List.mem_map_of_mem hlearnt))
          (le_max_right _ (number_right hfresh))
  · refine max_le hold (foldl_max_le_of_number (le_trans hfloor hold) fun rate hrate hrnum => ?_)
    obtain ⟨w, hw, rfl⟩ := List.mem_map.mp hrate
    obtain ⟨hmem, htells⟩ := List.mem_filter.mp hw
    have htells : w.tells anchor = true := by
      simp only [Bool.and_eq_true] at htells
      exact htells.2
    exact le_foldl_max_of_mem hnum hrnum
      (List.mem_map_of_mem (List.mem_filter.mpr ⟨hmem, htells⟩))

/-- Reading every window again learns what reading the unused ones does. -/
theorem relearnThroughput_eq [MonotoneScalar α] (anchor : Nat) (hpos : zero < c.initMinC)
    (hfloor : c.initMinC ≤ b.minCLambda) (hr : Settled c b r) (h : SameSamples r' r) :
    (b.relearnThroughput c anchor r').1 = (b.learnThroughput c anchor r).1 := by
  rw [relearnThroughput, told_congr h]
  by_cases hsize : r.size ≤ 1
  · rw [learnThroughput, if_pos hsize, told, windows_eq_nil hsize]
    rfl
  · have hlearnt := minCLambda_learnThroughput b c anchor r
    rw [if_neg hsize, ← foldl_told_eq hpos hfloor hr] at hlearnt
    rw [← hlearnt, learnThroughput, if_neg hsize]

theorem sameSamples_learnThroughput (b : Beliefs α) (c : Config α) (anchor : Nat) (r : Ring (Sample α)) :
    SameSamples r (b.learnThroughput c anchor r).2 := by
  unfold learnThroughput
  split
  · exact .refl r
  · exact .foldl_mark _ r

/-! ## What keeps a history settled -/

theorem threshold_congr {b b' : Beliefs α} (h : b'.minRtt = b.minRtt) (c : Config α) :
    b'.threshold c = b.threshold c := by
  unfold threshold jitter rtprop
  rw [h]

theorem threshold_mono [MonotoneScalar α] {b b' : Beliefs α} (hfin : isFinite b.minRtt = true)
    (hj : zero ≤ c.jitterMultiplier) (hle : b'.minRtt ≤ b.minRtt) : b'.threshold c ≤ b.threshold c := by
  have hone : isNaN (minRtprop : α) = false := number_ofNat (by decide)
  have hrtprop : b'.rtprop ≤ b.rtprop :=
    max_le (Scalar.le_trans hle (Scalar.le_max_left (number_right hle) _)) (Scalar.le_max_right _ hone)
  have hpos := b'.zero_lt_rtprop
  have hfinite := isFinite_rtprop hfin
  have hfinite' : isFinite b'.rtprop = true :=
    LawfulScalar.isFinite_of_le_of_le (LawfulScalar.isFinite_ofNat (by decide)) hfinite (Scalar.le_of_lt hpos)
      hrtprop
  exact MonotoneScalar.add_le_add (Scalar.le_of_lt hpos) hrtprop (MonotoneScalar.mul_nonneg hfinite' hpos hj)
    (MonotoneScalar.mul_le_mul_right hfinite hpos hrtprop hj)

/-- A lower threshold spoils what a higher one does. -/
theorem isUnderutilized_anti [LawfulScalar α] {st : Sample α} {t t' : α} (h : t' ≤ t)
    (hunder : st.isUnderutilized t' = true) : st.isUnderutilized t = true := by
  simp only [Sample.isUnderutilized, Bool.and_eq_true, decide_eq_true_eq] at hunder ⊢
  exact ⟨le_trans hunder.1 h, hunder.2⟩

/-- What a sample could tell is not changed by a change to samples that keeps their snapshots and makes none of
them underutilized. -/
theorem Spent.map {φ : Nat → Sample α → Sample α} {depth : Nat} {st : Sample α}
    (hr : ∀ d, r'.below? d = (r.below? d).map (φ d))
    (hframe : ∀ d x, (φ d x).tstamp = x.tstamp ∧ (φ d x).cumSent = x.cumSent)
    (hunder : ∀ d x, r.below? d = some x → x.isUnderutilized (b.threshold c) = false →
      (φ d x).isUnderutilized (b.threshold c) = false)
    (h : Spent c b r depth st) : Spent c b r' depth (φ depth st) := by
  rcases h with ⟨d, hd, x, hx, hx'⟩ | ⟨hspan, et, het, htold⟩
  · exact .inl ⟨d, hd, φ d x, by rw [hr, hx]; rfl, hunder d x hx hx'⟩
  · refine .inr ⟨hspan, φ _ et, by rw [hr, het]; rfl, ?_⟩
    simpa only [Sample.rateTo, Sample.lengthTo, hframe] using htold

theorem Spent.beliefs [LawfulScalar α] {b' : Beliefs α} {depth : Nat} {st : Sample α} (h : Spent c b r depth st)
    (ht : ∀ x : Sample α, x.isUnderutilized (b'.threshold c) = true → x.isUnderutilized (b.threshold c) = true)
    (hrate : b.minCLambda ≤ b'.minCLambda) : Spent c b' r depth st := by
  rcases h with ⟨d, hd, x, hx, hunder⟩ | ⟨hspan, et, het, htold⟩
  · refine .inl ⟨d, hd, x, hx, Bool.eq_false_iff.mpr fun hunder' => ?_⟩
    exact Bool.false_ne_true (hunder.symm.trans (ht x hunder'))
  · exact .inr ⟨hspan, et, het, fun hlong => (htold hlong).imp_right fun hle => le_trans hle hrate⟩

theorem threshold_learnThroughput (b : Beliefs α) (c : Config α) (anchor : Nat) (r : Ring (Sample α)) :
    (b.learnThroughput c anchor r).1.threshold c = b.threshold c := by
  unfold learnThroughput
  split <;> rfl

theorem minCLambda_le_learnThroughput [LawfulScalar α] (hnum : isNaN b.minCLambda = false) :
    b.minCLambda ≤ (b.learnThroughput c anchor r).1.minCLambda := by
  rw [minCLambda_learnThroughput]
  split
  · exact le_refl hnum
  · exact le_max_left hnum _

/-- Where a pass used a window, the window is spoilt or taken in. -/
theorem spent_of_used [LawfulScalar α] (hfloor : c.initMinC ≤ b.minCLambda) {depth : Nat}
    (h : depth ∈ (b.pass c anchor r.toList).used) :
    ∃ st, r.below? depth = some st ∧ Spent c (b.learnThroughput c anchor r).1 r depth st := by
  obtain ⟨w, hw, rfl, hfresh, hended⟩ := used_pass h
  obtain ⟨hspan, hst, het, hclean⟩ := below?_of_mem_windows hw
  refine ⟨w.st, hst, ?_⟩
  rw [Spent, threshold_learnThroughput]
  by_cases hc : w.clean = true
  · refine .inr ⟨hspan, w.et, het, fun hlong => ?_⟩
    have hlearnt : w ∈ b.learntFrom c anchor r.toList := by
      refine List.mem_filter.mpr ⟨hw, ?_⟩
      simp only [Window.tells, hfresh, hended, hc, Bool.not_false, Bool.and_self, Bool.true_and]
      exact decide_eq_true hlong
    cases hrnum : isNaN w.rate with
    | true => exact .inl hrnum
    | false =>
        have hsize : ¬ r.size ≤ 1 := fun hsize => by
          rw [windows_eq_nil hsize] at hw
          cases hw
        have hnum₀ := number_left hfloor
        have hbest := le_foldl_max_of_mem hnum₀ hrnum (List.mem_map_of_mem hlearnt)
        refine .inr ?_
        rw [minCLambda_learnThroughput, if_neg hsize]
        exact Scalar.le_trans hbest (Scalar.le_max_right _ (number_right hbest))
  · left
    by_contra hnone
    refine hc (hclean.mpr fun d hd x hx => ?_)
    by_contra hunder
    exact hnone ⟨d, hd, x, hx, Bool.eq_false_iff.mpr hunder⟩

namespace Settled

theorem empty (hempty : ∀ depth, r.below? depth = none) : Settled c b r where
  number := fun depth st h => by cases (hempty depth).symm.trans h
  spent := fun depth st h => by cases (hempty depth).symm.trans h

/-- Beliefs may learn, and lower the threshold. -/
theorem beliefs [LawfulScalar α] {b' : Beliefs α} (h : Settled c b r)
    (ht : ∀ x : Sample α, x.isUnderutilized (b'.threshold c) = true → x.isUnderutilized (b.threshold c) = true)
    (hrate : b.minCLambda ≤ b'.minCLambda) : Settled c b' r where
  number := h.number
  spent := fun depth st hst hp => (h.spent depth st hst hp).beliefs ht hrate

theorem push (h : Settled c b r) {x : Sample α} (hnum : isNaN x.maxRtt = false) (hfresh : x.processed = false) :
    Settled c b (r.push x).1 where
  number := by
    intro depth st hst
    cases depth with
    | zero =>
        cases (Ring.below?_push_zero r x).symm.trans hst
        exact hnum
    | succ depth => exact h.number depth st (Ring.below?_of_push hst)
  spent := by
    intro depth st hst hp
    cases depth with
    | zero =>
        cases (Ring.below?_push_zero r x).symm.trans hst
        cases hfresh.symm.trans hp
    | succ depth =>
        have hbelow {d : Nat} (hd : d ≤ depth) : (r.push x).1.below? (d + 1) = r.below? d :=
          Ring.below?_push_succ (Nat.lt_of_le_of_lt (Nat.succ_le_succ hd) (Ring.lt_size_of_below? hst))
        rcases h.spent depth st (Ring.below?_of_push hst) hp with
          ⟨d, hd, y, hy, hunder⟩ | ⟨hspan, et, het, htold⟩
        · exact .inl ⟨d + 1, Nat.succ_le_succ hd, y, (hbelow hd).trans hy, hunder⟩
        · refine .inr ⟨Nat.le_succ_of_le hspan, et, ?_, htold⟩
          rw [Nat.succ_sub hspan, hbelow (Nat.sub_le ..), het]

theorem extend [LawfulScalar α] (h : Settled c b r) (rtt : α) :
    Settled c b (r.modifyBack (·.extend rtt)) where
  number := by
    intro depth st hst
    rw [Ring.below?_modifyBack, Option.map_eq_some_iff] at hst
    obtain ⟨st, hst, rfl⟩ := hst
    have hnum := h.number depth st hst
    split
    · exact number_right (le_max_left hnum rtt)
    · exact hnum
  spent := by
    intro depth st hst hp
    rw [Ring.below?_modifyBack, Option.map_eq_some_iff] at hst
    obtain ⟨st, hst, rfl⟩ := hst
    have hspent := h.spent depth st hst (by revert hp; split <;> exact id)
    refine hspent.map (r.below?_modifyBack (·.extend rtt)) ?_ ?_
    · intro d x
      split <;> exact ⟨rfl, rfl⟩
    · intro d x hx hunder
      split
      · refine Bool.eq_false_iff.mpr fun hunder' => Bool.false_ne_true (hunder.symm.trans ?_)
        simp only [Sample.isUnderutilized, Sample.extend, Bool.and_eq_true, decide_eq_true_eq] at hunder' ⊢
        have hle := Scalar.le_max_left (h.number d x hx) rtt
        exact ⟨Scalar.le_trans hle (of_decide_eq_true hunder'.1), hunder'.2⟩
      · exact hunder

/-- A pass marks only what it takes in or what is spoilt. -/
theorem learn [LawfulScalar α] (h : Settled c b r) (hfloor : c.initMinC ≤ b.minCLambda) :
    Settled c (b.learnThroughput c anchor r).1 (b.learnThroughput c anchor r).2 where
  number := by
    intro depth st hst
    rw [below?_learnThroughput, Option.map_eq_some_iff] at hst
    obtain ⟨st, hst, rfl⟩ := hst
    have hnum := h.number depth st hst
    split <;> exact hnum
  spent := by
    intro depth st' hst' hp
    rw [below?_learnThroughput, Option.map_eq_some_iff] at hst'
    obtain ⟨st, hst, rfl⟩ := hst'
    have hspent : Spent c (b.learnThroughput c anchor r).1 r depth st := by
      by_cases hused : depth ∈ (b.pass c anchor r.toList).used
      · obtain ⟨st₁, hst₁, hspent⟩ := spent_of_used hfloor hused
        cases hst.symm.trans hst₁
        exact hspent
      · rw [if_neg hused] at hp
        refine (h.spent depth st hst hp).beliefs (fun x hx => ?_)
          (minCLambda_le_learnThroughput (number_right hfloor))
        rwa [threshold_learnThroughput] at hx
    refine hspent.map (below?_learnThroughput r) ?_ ?_
    · intro d x
      split <;> exact ⟨rfl, rfl⟩
    · intro d x hx hunder
      split <;> exact hunder

end Settled

end settled

end Beliefs

end Pacing

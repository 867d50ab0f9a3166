import Mathlib.Data.Finset.Max
import Pacing.Proofs.Beliefs.Rereading
import Pacing.Proofs.Scalar.Extrema

/-!
# A pass by positions

What a pass over a history does, said of the positions of its samples, the oldest at 0, without the walk: the
windows that it can use, the newest of them that is not clean, the samples that it marks, and the greatest rate.
-/

namespace Pacing

variable {α : Type}

open Scalar

theorem Ring.lt_size_of_get? {r : Ring α} {i : Nat} {x : α} (h : r.get? i = some x) : i < r.size := by
  rw [← getElem?_toList] at h
  simpa using (List.getElem?_eq_some_iff.mp h).1

@[simp] theorem Ring.head_modify (r : Ring α) (i : Nat) (f : α → α) : (r.modify i f).head = r.head := by
  unfold modify
  split <;> rfl

namespace Beliefs

/-- The positions where a window starts that a pass can use: no pass has used it, and it had ended when the acked
segment was sent. -/
def usableStarts (c : Config α) (anchor : Nat) (r : Ring (Sample α)) : Finset Nat :=
  (Finset.range r.size).filter fun h =>
    (r.get? h).any (!·.processed) && (r.get? (h + c.measurementSpan)).any (·.cumDelivered ≤ anchor)

theorem mem_usableStarts {c : Config α} {anchor h : Nat} {r : Ring (Sample α)} :
    h ∈ usableStarts c anchor r ↔ ∃ st et, r.get? h = some st ∧ r.get? (h + c.measurementSpan) = some et ∧
      st.processed = false ∧ et.cumDelivered ≤ anchor := by
  rw [usableStarts, Finset.mem_filter, Finset.mem_range]
  constructor
  · rintro ⟨-, hany⟩
    cases hst : r.get? h <;> cases het : r.get? (h + c.measurementSpan) <;> simp [hst, het] at hany
    exact ⟨_, _, rfl, rfl, hany⟩
  · rintro ⟨st, et, hst, het, hfresh, hended⟩
    exact ⟨Ring.lt_size_of_get? hst, by simp [hst, het, hfresh, hended]⟩

theorem usable_of_mem {c : Config α} {anchor h : Nat} {r : Ring (Sample α)} {st et : Sample α} (clean : Bool)
    (hst : r.get? h = some st) (het : r.get? (h + c.measurementSpan) = some et) :
    (⟨r.size - 1 - h, st, et, clean⟩ : Window α).Usable anchor ↔ h ∈ usableStarts c anchor r := by
  rw [mem_usableStarts, hst, het]
  simp [Window.Usable, Window.ended]

variable [Scalar α]

/-- No sample from a position on shows a queue or a loss. -/
def cleanFrom (b : Beliefs α) (c : Config α) (r : Ring (Sample α)) (h : Nat) : Bool :=
  (r.toList.drop h).all (·.isUnderutilized (b.threshold c))

/-- The rates (segments per second) over the windows that a pass can use, are clean and have a length. -/
def cleanRates (b : Beliefs α) (c : Config α) (anchor : Nat) (r : Ring (Sample α)) : Set α :=
  {rate | ∃ h ∈ usableStarts c anchor r, b.cleanFrom c r h = true ∧
    ∃ st et, r.get? h = some st ∧ r.get? (h + c.measurementSpan) = some et ∧
      timeEpsilon < et.tstamp - st.tstamp ∧
      rate = ofNat (et.cumSent - st.cumSent) * msPerSec / (et.tstamp - st.tstamp)}

section positions

variable {b : Beliefs α} {c : Config α} {anchor h : Nat} {r : Ring (Sample α)}

/-! ## Windows -/

theorem mem_windows_iff {w : Window α} :
    w ∈ b.windows c r.toList ↔ ∃ h st et, r.get? h = some st ∧ r.get? (h + c.measurementSpan) = some et ∧
      w = ⟨r.size - 1 - h, st, et, b.cleanFrom c r h⟩ := by
  rw [mem_windows, ← Ring.length_toList]
  simp only [← Ring.getElem?_toList, cleanFrom]
  generalize r.toList = history
  constructor
  · rintro ⟨older, st, newer, rfl, hw⟩
    simp only [Window.from?, Option.map_eq_some_iff] at hw
    obtain ⟨et, het, rfl⟩ := hw
    refine ⟨older.length, st, et, by simp, ?_, ?_⟩
    · rw [List.getElem?_append_right (Nat.le_add_right ..), Nat.add_sub_cancel_left]
      exact het
    · have hdepth : (older ++ st :: newer).length - 1 - older.length = newer.length := by
        rw [List.length_append, List.length_cons]
        omega
      rw [hdepth, List.drop_left]
  · rintro ⟨h, st, et, hst, het, rfl⟩
    obtain ⟨hlt, rfl⟩ := List.getElem?_eq_some_iff.mp hst
    have hdrop := List.drop_eq_getElem_cons hlt
    refine ⟨history.take h, history[h], history.drop (h + 1), ?_, ?_⟩
    · rw [← hdrop, List.take_append_drop]
    · have hdepth : (history.drop (h + 1)).length = history.length - 1 - h := by
        rw [List.length_drop]
        omega
      rw [Window.from?, ← hdrop, List.getElem?_drop, het, hdepth]
      rfl

/-! ## Marks -/

/-- A pass marks where a window starts that it can use, down to the first that is not clean. -/
theorem mem_used_pass_iff (hlt : h < r.size) :
    r.size - 1 - h ∈ (b.pass c anchor r.toList).used ↔
      h ∈ usableStarts c anchor r ∧ ∀ h' ∈ usableStarts c anchor r, h < h' → b.cleanFrom c r h' = true := by
  rw [mem_used_pass]
  constructor
  · rintro ⟨w, hw, hdepth, husable, hall⟩
    obtain ⟨i, st, et, hst, het, rfl⟩ := mem_windows_iff.mp hw
    have hi := Ring.lt_size_of_get? hst
    obtain rfl : i = h := by
      dsimp only at hdepth
      omega
    refine ⟨(usable_of_mem _ hst het).mp husable, fun h' hh' hnewer => ?_⟩
    obtain ⟨st', et', hst', het', -⟩ := mem_usableStarts.mp hh'
    have hi' := Ring.lt_size_of_get? hst'
    refine hall ⟨_, st', et', _⟩ (mem_windows_iff.mpr ⟨h', st', et', hst', het', rfl⟩) ?_
      ((usable_of_mem _ hst' het').mpr hh')
    dsimp only
    omega
  · rintro ⟨hh, hall⟩
    obtain ⟨st, et, hst, het, -⟩ := mem_usableStarts.mp hh
    refine ⟨_, mem_windows_iff.mpr ⟨h, st, et, hst, het, rfl⟩, rfl, (usable_of_mem _ hst het).mpr hh, ?_⟩
    intro w' hw' hnewer husable'
    obtain ⟨h', st', et', hst', het', rfl⟩ := mem_windows_iff.mp hw'
    have hi' := Ring.lt_size_of_get? hst'
    refine hall h' ((usable_of_mem _ hst' het').mp husable') ?_
    dsimp only at hnewer
    omega

theorem get?_learnThroughput (h : Nat) :
    (b.learnThroughput c anchor r).2.get? h =
      (r.get? h).map fun st =>
        if r.size - 1 - h ∈ (b.pass c anchor r.toList).used then st.markProcessed else st := by
  have hsize := (sameSamples_learnThroughput b c anchor r).size
  rcases Nat.lt_or_ge h r.size with hlt | hge
  · have hdepth : r.size - 1 - h < r.size := by omega
    have hback : r.size - 1 - (r.size - 1 - h) = h := by omega
    have hheld : (b.learnThroughput c anchor r).2.below? (r.size - 1 - h) = _ := below?_learnThroughput r _
    rwa [Ring.below?_eq_get? hdepth, Ring.below?_eq_get? (hsize ▸ hdepth), ← hsize, hback] at hheld
  · rw [Ring.get?, Ring.get?, dif_neg (by omega), dif_neg (by omega), Option.map_none]

omit [Scalar α] in
theorem head_foldl_mark (used : List Nat) (r : Ring (Sample α)) :
    (used.foldl (fun r d => r.modify (r.size - 1 - d) Sample.markProcessed) r).head = r.head := by
  induction used generalizing r with
  | nil => rfl
  | cons d used ih => rw [List.foldl_cons, ih, Ring.head_modify]

/-- Between the newest window that is not clean and the newest sample, a pass marks all that it can use. -/
theorem toList_learnThroughput (b : Beliefs α) (c : Config α) (anchor : Nat) (r : Ring (Sample α)) :
    (b.learnThroughput c anchor r).2.toList = r.toList.mapIdx fun h st =>
      if h ∈ usableStarts c anchor r ∧
        ((usableStarts c anchor r).filter fun h => ¬ b.cleanFrom c r h).max ≤ (h : WithBot Nat)
      then st.markProcessed else st := by
  refine List.ext_getElem? fun h => ?_
  rw [List.getElem?_mapIdx, Ring.getElem?_toList, Ring.getElem?_toList, get?_learnThroughput]
  refine Option.map_congr fun st hst => if_congr ?_ rfl rfl
  rw [mem_used_pass_iff (Ring.lt_size_of_get? hst)]
  refine and_congr_right fun _ => ⟨fun hall => Finset.max_le fun i hi => ?_, fun hmax i hi hlt => ?_⟩
  · obtain ⟨hmem, hdirty⟩ := Finset.mem_filter.mp hi
    exact WithBot.coe_le_coe.mpr (Nat.le_of_not_lt fun hlt => hdirty (hall i hmem hlt))
  · by_contra hdirty
    have hle := (Finset.le_max (Finset.mem_filter.mpr ⟨hi, hdirty⟩)).trans hmax
    exact Nat.not_le_of_lt hlt (WithBot.coe_le_coe.mp hle)

/-! ## Rates -/

theorem mem_rates_iff {rate : α} :
    rate ∈ (b.learntFrom c anchor r.toList).map Window.rate ↔ rate ∈ b.cleanRates c anchor r := by
  simp only [List.mem_map, learntFrom, List.mem_filter, Window.tells, Bool.and_eq_true, Bool.not_eq_true',
    decide_eq_true_eq, mem_windows_iff, cleanRates, Set.mem_ofPred_eq]
  constructor
  · rintro ⟨_, ⟨⟨h, st, et, hst, het, rfl⟩, hfresh, ⟨hended, hclean⟩, hlong⟩, rfl⟩
    exact ⟨h, (usable_of_mem _ hst het).mp ⟨hfresh, hended⟩, hclean, st, et, hst, het, hlong, rfl⟩
  · rintro ⟨h, hh, hclean, st, et, hst, het, hlong, rfl⟩
    obtain ⟨hfresh, hended⟩ := (usable_of_mem (b.cleanFrom c r h) hst het).mpr hh
    exact ⟨_, ⟨⟨h, st, et, hst, het, rfl⟩, hfresh, ⟨hended, hclean⟩, hlong⟩, rfl⟩

theorem greatest_learnThroughput [LawfulScalar α] (hsize : 1 < r.size) :
    Greatest ({b.minCLambda, c.initMinC} ∪ b.cleanRates c anchor r)
      (b.learnThroughput c anchor r).1.minCLambda := by
  have hrates : {rate | rate ∈ (b.learntFrom c anchor r.toList).map Window.rate} = b.cleanRates c anchor r :=
    Set.ext fun _ => mem_rates_iff
  have hbest := (Greatest.singleton c.initMinC).foldl_max ((b.learntFrom c anchor r.toList).map Window.rate)
  rw [hrates] at hbest
  rw [minCLambda_learnThroughput, if_neg (Nat.not_le.mpr hsize), Set.insert_eq, Set.union_assoc]
  exact (Greatest.singleton b.minCLambda).union hbest

end positions

/-- A pass marks exactly the windows that it can use from the newest one that is not clean on, and changes nothing
else in the history. It raises the throughput to the greatest of what it was, the lower bound of the configuration
and the rates of the clean windows. One sample shows nothing. -/
theorem throughput_pass_declared (b : Beliefs Float) (c : Config Float) (anchor : Nat) (r : Ring (Sample Float)) :
    let K := usableStarts c anchor r
    let dirty := K.filter fun h => ¬ b.cleanFrom c r h
    let b' := (b.learnThroughput c anchor r).1
    let r' := (b.learnThroughput c anchor r).2
    (r'.capacity = r.capacity ∧ r'.head = r.head ∧
      r'.toList = r.toList.mapIdx fun h st =>
        if h ∈ K ∧ dirty.max ≤ (h : WithBot Nat) then st.markProcessed else st) ∧
    b' = { b with minCLambda := b'.minCLambda } ∧
    (1 < r.size → Greatest ({b.minCLambda, c.initMinC} ∪ b.cleanRates c anchor r) b'.minCLambda) ∧
    (r.size ≤ 1 → b' = b ∧ r' = r) := by
  intro K dirty b' r'
  refine ⟨⟨(sameSamples_learnThroughput b c anchor r).capacity.symm, ?_, b.toList_learnThroughput c anchor r⟩,
    ?_, greatest_learnThroughput, fun hsize => ?_⟩
  · simp only [r', learnThroughput]
    split
    · rfl
    · exact head_foldl_mark _ r
  · simp only [b', learnThroughput]
    split <;> rfl
  · simp only [b', r', learnThroughput, if_pos hsize, and_self]

/-- Of five samples the second is slow and the third is used up: the pass marks the second and the fourth. -/
theorem throughput_pass_declared_of_five :
    let c : Config Float := .standard
    let b : Beliefs Float := .start c (ofNat 20)
    let sample (n rtt : Nat) (used : Bool) : Sample Float :=
      ⟨ofNat (20 * n), ofNat 20, ofNat rtt, n, n, 0, ofNat 50, n - 1, 0, used⟩
    let samples := [sample 1 20 false, sample 2 90 false, sample 3 20 true, sample 4 20 false, sample 5 20 false]
    let r := samples.foldl (fun r st => (r.push st).1) (Ring.empty 8 (by decide))
    let K := usableStarts c 9 r
    let dirty := K.filter fun h => ¬ b.cleanFrom c r h
    let b' := (b.learnThroughput c 9 r).1
    let r' := (b.learnThroughput c 9 r).2
    1 < r.size ∧ K = {0, 1, 3} ∧ dirty = {0, 1} ∧ r'.toList.map (·.processed) = [false, true, true, true, false] ∧
      (r'.toList = r.toList.mapIdx fun h st =>
        if h ∈ K ∧ dirty.max ≤ (h : WithBot Nat) then st.markProcessed else st) ∧
      Greatest ({b.minCLambda, c.initMinC} ∪ b.cleanRates c 9 r) b'.minCLambda := by
  intro c b sample samples r K dirty b' r'
  have hsize : 1 < r.size := by decide +kernel
  have hK : K = {0, 1, 3} := by decide +kernel
  have hdirty : dirty = {0, 1} := by decide +kernel
  have hmarks : r'.toList.map (·.processed) = [false, true, true, true, false] := by decide +kernel
  obtain ⟨⟨-, -, hsamples⟩, -, hrate, -⟩ := throughput_pass_declared b c 9 r
  exact ⟨hsize, hK, hdirty, hmarks, hsamples, hrate hsize⟩

end Beliefs

end Pacing

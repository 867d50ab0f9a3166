import Pacing.Proofs.Beliefs.Capacity
import Pacing.Proofs.Scalar.Double
import Pacing.Proofs.Scalar.Extrema

/-!
# A scan by positions

What a scan of a history learns, said of the positions of its samples, the oldest at 0, without the walk: the
greatest rate that the path achieved, and the least rate over the windows that kept the link busy throughout.
-/

namespace Pacing

variable {α : Type}

open Scalar

/-! ## The first part of a list -/

theorem getElem?_takeWhile_eq_some {p : α → Bool} {l : List α} {k : Nat} {x : α} :
    (l.takeWhile p)[k]? = some x ↔
      l[k]? = some x ∧ ∀ j y, j ≤ k → l[j]? = some y → p y = true := by
  induction l generalizing k with
  | nil => simp
  | cons a l ih =>
      rw [List.takeWhile_cons]
      cases ha : p a with
      | false =>
          refine iff_of_false (by simp) ?_
          rintro ⟨-, hall⟩
          exact Bool.false_ne_true (ha.symm.trans (hall 0 a (Nat.zero_le k) rfl))
      | true =>
          have hall_cons (k : Nat) : (∀ j y, j ≤ k + 1 → (a :: l)[j]? = some y → p y = true) ↔
              ∀ j y, j ≤ k → l[j]? = some y → p y = true := by
            refine ⟨fun hall j y hj hy => hall (j + 1) y (by omega) hy, fun hall j y hj hy => ?_⟩
            cases j with
            | zero =>
                cases hy
                exact ha
            | succ j => exact hall j y (by omega) hy
          cases k with
          | zero => simp +contextual [ha]
          | succ k => rw [if_pos rfl, List.getElem?_cons_succ, List.getElem?_cons_succ, ih, hall_cons]

/-- A list from its end on, without the last value, as far as a property holds. -/
theorem mem_drop_takeWhile_reverse {p : α → Bool} {l : List α} {x : α} :
    x ∈ (l.reverse.takeWhile p).drop 1 ↔
      ∃ i, i + 2 ≤ l.length ∧ l[i]? = some x ∧ ∀ j y, i ≤ j → l[j]? = some y → p y = true := by
  simp only [List.mem_iff_getElem?, List.getElem?_drop, getElem?_takeWhile_eq_some]
  constructor
  · rintro ⟨k, hk, hall⟩
    have hlt : 1 + k < l.length := by simpa using (List.getElem?_eq_some_iff.mp hk).1
    rw [List.getElem?_reverse hlt] at hk
    refine ⟨_, by omega, hk, fun j y hj hy => ?_⟩
    have hjlt := (List.getElem?_eq_some_iff.mp hy).1
    refine hall (l.length - 1 - j) y (by omega) ?_
    rw [List.getElem?_reverse (by omega), Nat.sub_sub_self (by omega), hy]
  · rintro ⟨i, hi, hx, hall⟩
    have hback : l.length - 1 - (1 + (l.length - 2 - i)) = i := by omega
    refine ⟨l.length - 2 - i, ?_, fun j y hj hy => ?_⟩
    · rw [List.getElem?_reverse (by omega), hback, hx]
    · have hjlt : j < l.length := by simpa using (List.getElem?_eq_some_iff.mp hy).1
      rw [List.getElem?_reverse hjlt] at hy
      exact hall _ y (by omega) hy

theorem takeWhile_append_cons_of_not {p : α → Bool} {a : α} (h : p a = false) (l l' : List α) :
    (l ++ a :: l').takeWhile p = l.takeWhile p := by
  induction l with
  | nil => exact List.takeWhile_cons_of_neg (by simp [h])
  | cons b l ih => rw [List.cons_append, List.takeWhile_cons, List.takeWhile_cons, ih]

namespace Beliefs

variable [Scalar α]

/-- The rates (segments per second) that the path achieved: what was delivered between a sample and the newest one,
over the time between them and the jitter. -/
def achievedRates (b : Beliefs α) (c : Config α) (history : List (Sample α)) (et : Sample α) : Set α :=
  {rate | ∃ i st, i + 2 ≤ history.length ∧ history[i]? = some st ∧
    timeEpsilon < et.tstamp - st.tstamp + b.jitter c ∧
    rate = ofNat (et.cumDelivered - st.cumDelivered) * msPerSec / (et.tstamp - st.tstamp + b.jitter c)}

/-- The rates (segments per second) that cap the capacity: what was delivered between a sample and the newest one,
over the time between them less the jitter. Two intervals or more lie between the two, and every sample from the
first to the one before the newest shows a busy link. -/
def cappingRates (b : Beliefs α) (c : Config α) (history : List (Sample α)) (et : Sample α) : Set α :=
  {rate | ∃ i st, i + 3 ≤ history.length ∧ history[i]? = some st ∧
    (∀ j x, i ≤ j → j + 2 ≤ history.length → history[j]? = some x → x.isUtilized (b.threshold c) = true) ∧
    timeEpsilon < et.tstamp - st.tstamp - b.jitter c ∧
    rate = ofNat (et.cumDelivered - st.cumDelivered) * msPerSec / (et.tstamp - st.tstamp - b.jitter c)}

/-! ## Quotients -/

section quotients

variable {b : Beliefs α} {c : Config α} {older : List (Sample α)} {et : Sample α} {rate : α}

theorem mem_quotients_iff {slack : α → α} :
    rate ∈ quotients slack et older ↔
      ∃ st ∈ older, timeEpsilon < slack (et.tstamp - st.tstamp) ∧ rate = quotient slack et st := by
  simp only [quotients, List.mem_map, List.mem_filter, decide_eq_true_eq, and_assoc, eq_comm (a := rate)]

theorem mem_lowerQuotients_iff :
    rate ∈ lowerQuotients (b.jitter c) et older.reverse ↔ rate ∈ b.achievedRates c (older ++ [et]) et := by
  rw [lowerQuotients, mem_quotients_iff, achievedRates, Set.mem_ofPred_eq]
  simp only [List.mem_reverse]
  simp only [List.mem_iff_getElem?, List.length_append, List.length_singleton]
  constructor
  · rintro ⟨st, ⟨i, hi⟩, hlong, rfl⟩
    have hlt := (List.getElem?_eq_some_iff.mp hi).1
    exact ⟨i, st, by omega, (List.getElem?_append_left hlt).trans hi, hlong, rfl⟩
  · rintro ⟨i, st, hle, hi, hlong, rfl⟩
    rw [List.getElem?_append_left (by omega)] at hi
    exact ⟨st, ⟨i, hi⟩, hlong, rfl⟩

theorem mem_upperQuotients_iff :
    rate ∈ upperQuotients (b.jitter c) (b.threshold c) et older.reverse ↔
      rate ∈ b.cappingRates c (older ++ [et]) et := by
  simp only [upperQuotients, mem_quotients_iff, cappingRates, Set.mem_ofPred_eq, mem_drop_takeWhile_reverse,
    List.length_append, List.length_singleton]
  constructor
  · rintro ⟨st, ⟨i, hle, hi, hbusy⟩, hlong, rfl⟩
    refine ⟨i, st, by omega, (List.getElem?_append_left (by omega)).trans hi, fun j x hj hlt hx => ?_, hlong, rfl⟩
    rw [List.getElem?_append_left (by omega)] at hx
    exact hbusy j x hj hx
  · rintro ⟨i, st, hle, hi, hbusy, hlong, rfl⟩
    rw [List.getElem?_append_left (by omega)] at hi
    refine ⟨st, ⟨i, by omega, hi, fun j x hj hx => ?_⟩, hlong, rfl⟩
    have hlt := (List.getElem?_eq_some_iff.mp hx).1
    exact hbusy j x hj (by omega) ((List.getElem?_append_left hlt).trans hx)

end quotients

/-! ## Scans -/

variable (b : Beliefs α) (c : Config α)

theorem learnBounds_concat {older : List (Sample α)} (h : older ≠ []) (et : Sample α) :
    b.learnBounds c (older ++ [et]) = b.tighten c (b.fresh c et older.reverse) := by
  rw [learnBounds, List.reverse_concat]
  obtain ⟨st, rest, hrest⟩ := List.exists_cons_of_ne_nil (mt List.reverse_eq_nil_iff.mp h)
  rw [hrest]

theorem learnBounds_of_short {history : List (Sample α)} (h : history.length ≤ 1) :
    b.learnBounds c history = b := by
  rw [learnBounds]
  rcases history with _ | ⟨st, _ | ⟨et, newer⟩⟩
  · rfl
  · rfl
  · simp at h

/-- Where a sample shows an idle link, what is older caps nothing. -/
theorem fresh_maxC_of_idle {st : Sample α} (h : st.isUtilized (b.threshold c) = false) (et : Sample α)
    (newer older : List (Sample α)) :
    (b.fresh c et (newer ++ st :: older)).maxC = (b.fresh c et (newer ++ [st])).maxC := by
  have hstop := takeWhile_append_cons_of_not (p := (·.isUtilized (b.threshold c))) h newer
  rw [fresh_eq, fresh_eq, upperQuotients, upperQuotients, hstop older, hstop []]

variable [LawfulScalar α]

theorem greatest_fresh (older : List (Sample α)) (et : Sample α) :
    Greatest ({c.initMinC} ∪ b.achievedRates c (older ++ [et]) et) (b.fresh c et older.reverse).minC := by
  have hrates : {rate | rate ∈ lowerQuotients (b.jitter c) et older.reverse} =
      b.achievedRates c (older ++ [et]) et := Set.ext fun _ => mem_lowerQuotients_iff
  rw [fresh_eq, ← hrates]
  exact (Greatest.singleton c.initMinC).foldl_max _

theorem least_fresh (older : List (Sample α)) (et : Sample α) :
    Least ({c.initMaxC} ∪ b.cappingRates c (older ++ [et]) et) (b.fresh c et older.reverse).maxC := by
  have hrates : {rate | rate ∈ upperQuotients (b.jitter c) (b.threshold c) et older.reverse} =
      b.cappingRates c (older ++ [et]) et := Set.ext fun _ => mem_upperQuotients_iff
  rw [fresh_eq, ← hrates]
  exact (Least.singleton c.initMaxC).foldl_min _

omit [LawfulScalar α] in
/-- An idle sample, not the newest, shields the upper bounds from all that is older. -/
theorem learnBounds_of_idle {st : Sample α} (h : st.isUtilized (b.threshold c) = false) (older : List (Sample α))
    {newer : List (Sample α)} (hnewer : newer ≠ []) :
    (b.learnBounds c (older ++ st :: newer)).maxC = (b.learnBounds c (st :: newer)).maxC ∧
      (b.learnBounds c (older ++ st :: newer)).maxcSinceLastTimeout =
        (b.learnBounds c (st :: newer)).maxcSinceLastTimeout := by
  obtain ⟨between, et, rfl⟩ := (List.eq_nil_or_concat' newer).resolve_left hnewer
  have hold : older ++ st :: (between ++ [et]) = (older ++ st :: between) ++ [et] := by simp
  have hfresh : (b.fresh c et (older ++ st :: between).reverse).maxC = (b.fresh c et (st :: between).reverse).maxC := by
    simpa using fresh_maxC_of_idle b c h et between.reverse older.reverse
  rw [hold, ← List.cons_append, learnBounds_concat b c (by simp), learnBounds_concat b c (by simp)]
  simp only [tighten, Bounds.tighten, hfresh, and_self]

/-- A scan raises the lower bounds to the greatest of the rates that the path achieved, and lowers the upper bounds
to the least of those that cap the capacity, down to the floor rate. One sample shows nothing, and an idle sample
shields the upper bounds from all that is older. -/
theorem capacity_scan_declared (b : Beliefs Float) (c : Config Float) {history : List (Sample Float)}
    {et : Sample Float} (hlast : history.getLast? = some et) (hsize : 2 ≤ history.length) :
    (∃ lo hi, Greatest ({c.initMinC} ∪ b.achievedRates c history et) lo ∧
      Least ({c.initMaxC} ∪ b.cappingRates c history et) hi ∧
      b.learnBounds c history = { b with
        minC := Scalar.max b.minC lo
        mincSinceLastTimeout := Scalar.max b.mincSinceLastTimeout lo
        maxC := Scalar.max (Scalar.min b.maxC hi) (b.minSendingRate c)
        maxcSinceLastTimeout := Scalar.max (Scalar.min b.maxcSinceLastTimeout hi) (b.minSendingRate c) }) ∧
    (∀ short : List (Sample Float), short.length ≤ 1 → b.learnBounds c short = b) ∧
    ∀ older st newer, history = older ++ st :: newer → newer ≠ [] → st.isUtilized (b.threshold c) = false →
      (b.learnBounds c history).maxC = (b.learnBounds c (st :: newer)).maxC ∧
        (b.learnBounds c history).maxcSinceLastTimeout = (b.learnBounds c (st :: newer)).maxcSinceLastTimeout := by
  refine ⟨?_, fun short hshort => b.learnBounds_of_short c hshort, ?_⟩
  · obtain ⟨older, rfl⟩ := List.getLast?_eq_some_iff.mp hlast
    have hne : older ≠ [] := by
      rintro rfl
      simp at hsize
    exact ⟨_, _, b.greatest_fresh c older et, b.least_fresh c older et, b.learnBounds_concat c hne et⟩
  · rintro older st newer rfl hnewer hidle
    exact b.learnBounds_of_idle c hidle older hnewer

/-- Of five samples the second is idle: the third caps the capacity, and the first, though slower, does not. -/
theorem capacity_scan_declared_of_five :
    let c : Config Float := .standard
    let b : Beliefs Float := .start c (ofNat 20)
    let sample (n rtt delivered : Nat) : Sample Float :=
      ⟨ofNat (100 * n), ofNat rtt, ofNat rtt, delivered, delivered, 0, ofNat 50, 0, 0, false⟩
    let et := sample 5 90 400
    let idle := sample 2 20 199
    let newer := [sample 3 90 200, sample 4 90 300, et]
    let history := sample 1 90 199 :: idle :: newer
    history.getLast? = some et ∧ 2 ≤ history.length ∧ idle.isUtilized (b.threshold c) = false ∧
      (b.learnBounds c history).maxC = ofNat 200 * msPerSec / ofNat 180 ∧
      (b.learnBounds c history).maxC = (b.learnBounds c (idle :: newer)).maxC ∧
      ∃ lo hi, Greatest ({c.initMinC} ∪ b.achievedRates c history et) lo ∧
        Least ({c.initMaxC} ∪ b.cappingRates c history et) hi ∧
        (b.learnBounds c history).minC = Scalar.max b.minC lo ∧
        (b.learnBounds c history).maxC = Scalar.max (Scalar.min b.maxC hi) (b.minSendingRate c) := by
  intro c b sample et idle newer history
  have hlast : history.getLast? = some et := rfl
  have hsize : 2 ≤ history.length := by decide
  have hidle : idle.isUtilized (b.threshold c) = false := by decide +kernel
  have hcap : (b.learnBounds c history).maxC = ofNat 200 * msPerSec / ofNat 180 := by decide +kernel
  obtain ⟨⟨lo, hi, hlo, hhi, hlearnt⟩, -, hshield⟩ := capacity_scan_declared b c hlast hsize
  have hshielded := hshield [sample 1 90 199] idle newer rfl (by simp [newer]) hidle
  exact ⟨hlast, hsize, hidle, hcap, hshielded.1, lo, hi, hlo, hhi, by rw [hlearnt], by rw [hlearnt]⟩

end Beliefs

end Pacing

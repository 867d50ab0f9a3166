import Mathlib.Algebra.Order.Field.Basic
import Mathlib.Algebra.Order.Ring.Rat
import Mathlib.Data.List.Basic
import Mathlib.Data.List.Induction
import Mathlib.Tactic.Linarith
import Mathlib.Tactic.Ring
import Pacing.LinkRate

/-!
# The link rate between the gaps

Where nothing is rounded, the average gap lies between the least and the greatest of the gaps, and it is positive
as soon as one of them was. So a rate is told once enough acks have come and the clock has moved between two of
them, and it is a rate that lies between those of single gaps.
-/

namespace Pacing.LinkRate

/-- The estimate after acks at some times. -/
def after (warmup : Nat) (times : List ℚ) : LinkRate ℚ := times.foldl (fun e now => (e.onAck now).1) (start warmup)

/-- What the call for one more ack tells. -/
def told (warmup : Nat) (times : List ℚ) (now : ℚ) : Option ℚ := ((after warmup times).onAck now).2

/-- The gaps between acks. One that comes at an earlier time than the ack before it makes none. -/
def gaps (times : List ℚ) : List ℚ := times.zipWith (fun last now => max 0 (now - last)) times.tail

theorem after_concat (warmup : Nat) (times : List ℚ) (now : ℚ) :
    after warmup (times ++ [now]) = ((after warmup times).onAck now).1 :=
  List.foldl_concat ..

theorem gaps_concat (times : List ℚ) (now : ℚ) :
    gaps (times ++ [now]) = gaps times ++ times.getLast?.toList.map fun last => max 0 (now - last) := by
  induction times with
  | nil => rfl
  | cons first times ih =>
      cases times with
      | nil => rfl
      | cons second times => exact congrArg (max 0 (second - first) :: ·) ih

/-- It takes two acks to make a gap. -/
theorem two_le_length_of_mem_gaps {times : List ℚ} {g : ℚ} (h : g ∈ gaps times) : 2 ≤ times.length := by
  match times with
  | [] => exact absurd h List.not_mem_nil
  | [_] => exact absurd h List.not_mem_nil
  | _ :: _ :: times => exact Nat.le_add_left 2 times.length

/-! ## Averages -/

theorem max_zero_eq (x : ℚ) : Scalar.max x Scalar.zero = max 0 x := by
  change (if 0 < x then x else 0) = max 0 x
  split
  · rename_i hpos
    exact (max_eq_right hpos.le).symm
  · rename_i hle
    exact (max_eq_left (not_lt.mp hle)).symm

theorem average_some (old new : ℚ) : average (some old) new = (15 * old + new) / 16 := by
  change (((1 : ℕ) : ℚ) - ((1 : ℕ) : ℚ) / ((16 : ℕ) : ℚ)) * old + ((1 : ℕ) : ℚ) / ((16 : ℕ) : ℚ) * new = _
  push_cast
  ring

/-- What every average of some gaps has: it keeps to every bound of theirs, and it is zero only if they are. -/
structure Averages (gaps : List ℚ) (a : ℚ) : Prop where
  le_of_forall : ∀ lo, (∀ g ∈ gaps, lo ≤ g) → lo ≤ a
  ge_of_forall : ∀ hi, (∀ g ∈ gaps, g ≤ hi) → a ≤ hi
  nonneg : 0 ≤ a
  pos_iff : 0 < a ↔ ∃ g ∈ gaps, 0 < g

namespace Averages

theorem singleton {g : ℚ} (h : 0 ≤ g) : Averages [g] g := by
  refine ⟨fun lo hlo => hlo g (by simp), fun hi hhi => hhi g (by simp), h, by simp⟩

/-- A new gap draws the average towards itself, and not all the way. -/
theorem concat {gaps : List ℚ} {a g : ℚ} (h : Averages gaps a) (hg : 0 ≤ g) :
    Averages (gaps ++ [g]) (average (some a) g) := by
  have hnonneg := h.nonneg
  rw [average_some]
  refine ⟨fun lo hlo => ?_, fun hi hhi => ?_, by linarith, ?_⟩
  · have hold := h.le_of_forall lo fun x hx => hlo x (by simp [hx])
    have hnew := hlo g (by simp)
    linarith
  · have hold := h.ge_of_forall hi fun x hx => hhi x (by simp [hx])
    have hnew := hhi g (by simp)
    linarith
  · have hpos : 0 < (15 * a + g) / 16 ↔ 0 < a ∨ 0 < g := by
      constructor
      · intro hsum
        by_contra hnot
        rw [not_or, not_lt, not_lt] at hnot
        linarith [hnot.1, hnot.2]
      · rintro (ha | hg') <;> linarith
    simp [hpos, h.pos_iff, or_and_right, exists_or]

variable {gaps : List ℚ} {a : ℚ}

theorem le_of_max? (h : Averages gaps a) {m : ℚ} (hm : gaps.max? = some m) : a ≤ m :=
  h.ge_of_forall m (List.max?_eq_some_iff.mp hm).2

theorem ge_of_min? (h : Averages gaps a) {m : ℚ} (hm : gaps.min? = some m) : m ≤ a :=
  h.le_of_forall m (List.min?_eq_some_iff.mp hm).2

end Averages

/-! ## The estimate after some acks -/

/-- An estimate that has seen acks at some times. -/
structure Follows (warmup : Nat) (times : List ℚ) (e : LinkRate ℚ) : Prop where
  warmup : e.warmup = warmup
  seen : e.seen = times.length
  lastArrival : e.lastArrival = times.getLast?
  gap_eq_none : e.gap = none ↔ gaps times = []
  averages : ∀ a, e.gap = some a → Averages (gaps times) a

theorem Follows.arrive {warmup : Nat} {times : List ℚ} {e : LinkRate ℚ} (h : Follows warmup times e) (now : ℚ) :
    Follows warmup (times ++ [now]) (e.arrive now) := by
  have hseen : (e.arrive now).seen = (times ++ [now]).length := by
    rw [List.length_append, ← h.seen]
    rfl
  have hlast : (e.arrive now).lastArrival = (times ++ [now]).getLast? := by
    rw [List.getLast?_concat]
    rfl
  have hgaps := gaps_concat times now
  rw [← h.lastArrival] at hgaps
  cases hl : e.lastArrival with
  | none =>
      have hgap : (e.arrive now).gap = e.gap := by rw [LinkRate.arrive, hl]
      rw [hl, Option.toList_none, List.map_nil, List.append_nil] at hgaps
      refine ⟨h.warmup, hseen, hlast, ?_, ?_⟩
      · rw [hgap, hgaps]
        exact h.gap_eq_none
      · rw [hgap, hgaps]
        exact h.averages
  | some last =>
      have hgap : (e.arrive now).gap = some (average e.gap (max 0 (now - last))) := by
        rw [LinkRate.arrive, hl, ← max_zero_eq]
      rw [hl, Option.toList_some, List.map_singleton] at hgaps
      refine ⟨h.warmup, hseen, hlast, ?_, fun a ha => ?_⟩
      · rw [hgap, hgaps]
        simp
      · rw [hgap, Option.some.injEq] at ha
        subst ha
        rw [hgaps]
        cases hold : e.gap with
        | none =>
            rw [h.gap_eq_none.mp hold]
            exact .singleton (le_max_left ..)
        | some old => exact (h.averages old hold).concat (le_max_left ..)

theorem follows_after (warmup : Nat) (times : List ℚ) : Follows warmup times (after warmup times) := by
  induction times using List.reverseRecOn with
  | nil => exact ⟨rfl, rfl, rfl, by simp [after, start, gaps], nofun⟩
  | append_singleton times now ih =>
      rw [after_concat]
      exact ih.arrive now

/-! ## Told rates -/

section

variable {warmup : Nat} {times : List ℚ} {e : LinkRate ℚ}

theorem Follows.rate?_eq_some_iff (h : Follows warmup times e) {r : ℚ} :
    e.rate? = some r ↔
      warmup < times.length ∧ ∃ a, Averages (gaps times) a ∧ e.gap = some a ∧ 0 < a ∧ r = 1000 / a := by
  rw [← h.warmup, ← h.seen]
  change (e.gap.bind fun a => if e.warmup < e.seen ∧ 0 < a then some (1000 / a) else none) = some r ↔ _
  rw [Option.bind_eq_some_iff]
  constructor
  · rintro ⟨a, ha, hif⟩
    split at hif <;> rename_i hcond
    · exact ⟨hcond.1, a, h.averages a ha, ha, hcond.2, (Option.some.inj hif).symm⟩
    · cases hif
  · rintro ⟨hwarm, a, -, ha, hpos, rfl⟩
    exact ⟨a, ha, if_pos ⟨hwarm, hpos⟩⟩

theorem Follows.isSome_rate?_iff (h : Follows warmup times e) :
    e.rate?.isSome ↔ warmup < times.length ∧ ∃ g ∈ gaps times, 0 < g := by
  rw [Option.isSome_iff_exists]
  constructor
  · rintro ⟨r, hr⟩
    obtain ⟨hwarm, a, haverages, -, hpos, -⟩ := h.rate?_eq_some_iff.mp hr
    exact ⟨hwarm, haverages.pos_iff.mp hpos⟩
  · rintro ⟨hwarm, g, hg, hpos⟩
    cases ha : e.gap with
    | none => exact absurd (h.gap_eq_none.mp ha ▸ hg) List.not_mem_nil
    | some a =>
        have haverages := h.averages a ha
        exact ⟨_, h.rate?_eq_some_iff.mpr ⟨hwarm, a, haverages, ha, haverages.pos_iff.mpr ⟨g, hg, hpos⟩, rfl⟩⟩

end

/-- The call for an ack tells a rate if and only if the warm-up is over and one of the gaps so far is positive, for
which it takes two acks. The rate is positive, at least that of the greatest gap, and at most that of the least one
where this one has a rate. -/
theorem rate_between_gaps (warmup : Nat) (times : List ℚ) (now : ℚ) :
    ((told warmup times now).isSome ↔
        warmup < times.length + 1 ∧ 2 ≤ times.length + 1 ∧ ∃ g ∈ gaps (times ++ [now]), 0 < g) ∧
      ∀ r ∈ told warmup times now, 0 < r ∧ (∃ m, (gaps (times ++ [now])).max? = some m ∧ 1000 / m ≤ r) ∧
        ((∀ g ∈ gaps (times ++ [now]), 0 < g) → ∃ m, (gaps (times ++ [now])).min? = some m ∧ r ≤ 1000 / m) := by
  have hfollows := (follows_after warmup times).arrive now
  have hcalls : (times ++ [now]).length = times.length + 1 := List.length_append
  refine ⟨?_, fun r hr => ?_⟩
  · rw [← hcalls]
    refine hfollows.isSome_rate?_iff.trans (and_congr_right fun _ => ?_)
    exact ⟨fun ⟨g, hg, hpos⟩ => ⟨two_le_length_of_mem_gaps hg, g, hg, hpos⟩, And.right⟩
  · obtain ⟨-, a, haverages, -, hpos, rfl⟩ := hfollows.rate?_eq_some_iff.mp hr
    have hne : gaps (times ++ [now]) ≠ [] := List.ne_nil_of_mem (haverages.pos_iff.mp hpos).choose_spec.1
    refine ⟨by positivity, ?_, fun hall => ?_⟩
    · obtain ⟨m, hm⟩ := Option.isSome_iff_exists.mp (List.isSome_max?_of_ne_nil hne)
      exact ⟨m, hm, div_le_div_of_nonneg_left (by norm_num) hpos (haverages.le_of_max? hm)⟩
    · obtain ⟨m, hm⟩ := Option.isSome_iff_exists.mp (List.isSome_min?_of_ne_nil hne)
      have hmpos := hall m (List.min?_eq_some_iff.mp hm).1
      exact ⟨m, hm, div_le_div_of_nonneg_left (by norm_num) hmpos (haverages.ge_of_min? hm)⟩

/-- A gap of 18 ms after two of 2 ms draws the average to 3 ms. -/
example : told 2 [0, 2] 4 = some 500 ∧ told 2 [0, 2, 4] 22 = some (1000 / 3) := by decide +kernel

end Pacing.LinkRate

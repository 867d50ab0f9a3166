import Pacing.Proofs.Double.Format

/-!
# Doubles as rationals

Doubles compare as the rationals that they stand for. An infinity stands for the first power of two that is
out of range, and what is no number for nothing.
-/

namespace Pacing.Double

open Float.Model Float.Model.UnpackedFloat
open Format (binary64)

/-- The first power of two that is out of range. -/
def limit : ℚ := 2 ^ (1024 : ℤ)

theorem limit_pos : 0 < limit := two_zpow_pos _

def value : UnpackedFloat → ℚ
  | .finite s m e _ => s.apply m * 2 ^ e
  | .infinity .negative => -limit
  | .infinity .positive => limit
  | _ => 0

/-! ## Magnitudes -/

section

variable {s t : Sign} {m n : ℕ} {e e' : ℤ} {h : 0 < m} {h' : 0 < n}

theorem InRange.exponent_lt (hu : InRange (.finite s m e h)) : e < 972 := by
  by_contra he
  have hover := hu.overflow
  rw [overflow_of_le (not_lt.mp he)] at hover
  cases hover

theorem InRange.magnitude_lt (hu : InRange (.finite s m e h)) : (m : ℚ) * 2 ^ e < limit := by
  have hm : (m : ℚ) < 2 ^ (53 : ℤ) := by exact_mod_cast hu.canonical.1
  calc (m : ℚ) * 2 ^ e < 2 ^ (53 : ℤ) * 2 ^ e := mul_lt_mul_of_pos_right hm (two_zpow_pos e)
    _ = 2 ^ (53 + e) := by rw [zpow_add₀ two_ne_zero]
    _ ≤ limit := zpow_le_zpow_right₀ one_le_two (by have := hu.exponent_lt; omega)

theorem magnitude_pos (hm : 0 < m) (e : ℤ) : (0 : ℚ) < m * 2 ^ e := by positivity

theorem value_positive : value (.finite .positive m e h) = m * 2 ^ e := rfl

theorem value_negative : value (.finite .negative m e h) = -(m * 2 ^ e) := by
  change ((-(m : ℤ) : ℤ) : ℚ) * 2 ^ e = _
  rw [Int.cast_neg, Int.cast_natCast, neg_mul]

theorem value_positive_pos : 0 < value (.finite .positive m e h) := magnitude_pos h e

theorem value_negative_neg : value (.finite .negative m e h) < 0 := by
  rw [value_negative]
  exact neg_lt_zero.mpr (magnitude_pos h e)

theorem InRange.abs_value_lt (hu : InRange (.finite s m e h)) : |value (.finite s m e h)| < limit := by
  cases s with
  | negative =>
      rw [value_negative, abs_neg, abs_of_pos (magnitude_pos h e)]
      exact hu.magnitude_lt
  | positive =>
      rw [abs_of_pos value_positive_pos]
      exact hu.magnitude_lt

/-- A greater exponent outweighs every mantissa. -/
theorem magnitude_lt_of_exponent_lt (hu : Canonical (.finite s m e h)) (hv : Canonical (.finite t n e' h'))
    (he : e < e') : (m : ℚ) * 2 ^ e < n * 2 ^ e' := by
  have hm : (m : ℚ) < 2 ^ (53 : ℤ) := by exact_mod_cast hu.1
  have hn : (2 : ℚ) ^ (52 : ℤ) ≤ n := by
    have := hv.2.2.resolve_right (by have := hu.2.1; omega)
    exact_mod_cast this
  calc (m : ℚ) * 2 ^ e < 2 ^ (53 : ℤ) * 2 ^ e := mul_lt_mul_of_pos_right hm (two_zpow_pos e)
    _ = 2 ^ (53 + e) := by rw [zpow_add₀ two_ne_zero]
    _ ≤ 2 ^ (52 + e') := zpow_le_zpow_right₀ one_le_two (by omega)
    _ = 2 ^ (52 : ℤ) * 2 ^ e' := by rw [zpow_add₀ two_ne_zero]
    _ ≤ n * 2 ^ e' := mul_le_mul_of_nonneg_right hn (two_zpow_pos e').le

theorem compare_magnitudes (hu : Canonical (.finite s m e h)) (hv : Canonical (.finite t n e' h')) :
    (compare e e').then (compare m n) = compare ((m : ℚ) * 2 ^ e) (n * 2 ^ e') := by
  rcases lt_trichotomy e e' with he | rfl | he
  · rw [compare_lt_iff_lt.mpr he, compare_lt_iff_lt.mpr (magnitude_lt_of_exponent_lt hu hv he)]
    rfl
  · rw [compare_eq_iff_eq.mpr rfl, Ordering.eq_then, eq_comm, compare_iff]
    have ho := (compare_iff m n).mp rfl
    generalize compare m n = o at ho
    cases o with
    | lt => exact mul_lt_mul_of_pos_right (by exact_mod_cast ho) (two_zpow_pos e)
    | eq => exact congrArg (fun k : ℕ => (k : ℚ) * 2 ^ e) ho
    | gt => exact mul_lt_mul_of_pos_right (by exact_mod_cast ho) (two_zpow_pos e)
  · rw [compare_gt_iff_gt.mpr he, compare_gt_iff_gt.mpr (magnitude_lt_of_exponent_lt hv hu he)]
    rfl

end

/-! ## Order -/

section

variable {u v : UnpackedFloat}

theorem compare_of_lt {o : Option Ordering} {a b : ℚ} (ho : o = some .lt) (h : a < b) :
    o = some (compare a b) := by
  rw [ho, compare_lt_iff_lt.mpr h]

theorem compare_of_gt {o : Option Ordering} {a b : ℚ} (ho : o = some .gt) (h : b < a) :
    o = some (compare a b) := by
  rw [ho, compare_gt_iff_gt.mpr h]

theorem compare_of_eq {o : Option Ordering} {a b : ℚ} (ho : o = some .eq) (h : a = b) :
    o = some (compare a b) := by
  rw [ho, compare_eq_iff_eq.mpr h]

theorem compare_neg_neg (a b : ℚ) : compare (-a) (-b) = (compare a b).swap := by
  rcases lt_trichotomy a b with h | rfl | h
  · rw [compare_lt_iff_lt.mpr h, compare_gt_iff_gt.mpr (neg_lt_neg h)]; rfl
  · rw [compare_eq_iff_eq.mpr rfl, compare_eq_iff_eq.mpr rfl]; rfl
  · rw [compare_gt_iff_gt.mpr h, compare_lt_iff_lt.mpr (neg_lt_neg h)]; rfl

theorem compare_finite {s t : Sign} {m n : ℕ} {e e' : ℤ} {h : 0 < m} {h' : 0 < n}
    (hu : Canonical (.finite s m e h)) (hv : Canonical (.finite t n e' h')) :
    UnpackedFloat.compare (.finite s m e h) (.finite t n e' h') =
      some (compare (value (.finite s m e h)) (value (.finite t n e' h'))) := by
  have hmag := compare_magnitudes hu hv
  cases s with
  | negative =>
      cases t with
      | negative =>
          rw [value_negative, value_negative, compare_neg_neg, ← hmag]
          rfl
      | positive => exact compare_of_lt rfl (value_negative_neg.trans value_positive_pos)
  | positive =>
      cases t with
      | negative => exact compare_of_gt rfl (value_negative_neg.trans value_positive_pos)
      | positive =>
          rw [value_positive, value_positive, ← hmag]
          rfl

theorem compare_eq (hu : InRange u) (hv : InRange v) (hu' : u ≠ .notANumber) (hv' : v ≠ .notANumber) :
    u.compare v = some (compare (value u) (value v)) := by
  have hpos := limit_pos
  have hneg := neg_lt_zero.mpr hpos
  cases u with
  | notANumber => exact absurd rfl hu'
  | infinity s =>
      cases v with
      | notANumber => exact absurd rfl hv'
      | infinity t =>
          cases s <;> cases t
          · exact compare_of_eq rfl rfl
          · exact compare_of_lt rfl (hneg.trans hpos)
          · exact compare_of_gt rfl (hneg.trans hpos)
          · exact compare_of_eq rfl rfl
      | zero t =>
          cases s
          · exact compare_of_lt rfl hneg
          · exact compare_of_gt rfl hpos
      | finite t n e h =>
          have hin := abs_lt.mp hv.abs_value_lt
          cases s
          · exact compare_of_lt rfl hin.1
          · exact compare_of_gt rfl hin.2
  | zero s =>
      cases v with
      | notANumber => exact absurd rfl hv'
      | infinity t =>
          cases t
          · exact compare_of_gt rfl hneg
          · exact compare_of_lt rfl hpos
      | zero t => exact compare_of_eq rfl rfl
      | finite t n e h =>
          cases t
          · exact compare_of_gt rfl value_negative_neg
          · exact compare_of_lt rfl value_positive_pos
  | finite s m e h =>
      have hin := abs_lt.mp hu.abs_value_lt
      cases v with
      | notANumber => exact absurd rfl hv'
      | infinity t =>
          cases s <;> cases t
          · exact compare_of_gt rfl hin.1
          · exact compare_of_lt rfl hin.2
          · exact compare_of_gt rfl hin.1
          · exact compare_of_lt rfl hin.2
      | zero t =>
          cases s
          · exact compare_of_lt rfl value_negative_neg
          · exact compare_of_gt rfl value_positive_pos
      | finite t n e' h' => exact compare_finite hu.canonical hv.canonical

theorem compare_notANumber_right (u : UnpackedFloat) : u.compare .notANumber = none := by
  cases u with
  | infinity s => cases s <;> rfl
  | finite s => cases s <;> rfl
  | _ => rfl

theorem le_iff (hu : InRange u) (hv : InRange v) :
    u.le v = true ↔ u ≠ .notANumber ∧ v ≠ .notANumber ∧ value u ≤ value v := by
  by_cases hu' : u = .notANumber
  · subst hu'
    exact iff_of_false Bool.false_ne_true fun h => h.1 rfl
  by_cases hv' : v = .notANumber
  · subst hv'
    rw [UnpackedFloat.le, compare_notANumber_right]
    exact iff_of_false Bool.false_ne_true fun h => h.2.1 rfl
  rw [UnpackedFloat.le, compare_eq hu hv hu' hv', Option.any_some, ← compare_le_iff_le,
    Ordering.isLE_iff_ne_gt]
  exact ⟨fun h => ⟨hu', hv', h⟩, fun h => h.2.2⟩

theorem lt_iff (hu : InRange u) (hv : InRange v) :
    u.lt v = true ↔ u ≠ .notANumber ∧ v ≠ .notANumber ∧ value u < value v := by
  by_cases hu' : u = .notANumber
  · subst hu'
    exact iff_of_false Bool.false_ne_true fun h => h.1 rfl
  by_cases hv' : v = .notANumber
  · subst hv'
    rw [UnpackedFloat.lt, compare_notANumber_right]
    exact iff_of_false Bool.false_ne_true fun h => h.2.1 rfl
  rw [UnpackedFloat.lt, compare_eq hu hv hu' hv', ← compare_lt_iff_lt, beq_iff_eq, Option.some.injEq]
  exact ⟨fun h => ⟨hu', hv', h⟩, fun h => h.2.2⟩

theorem isFinite_iff (hu : InRange u) :
    u.isFinite = true ↔ u ≠ .notANumber ∧ -limit < value u ∧ value u < limit := by
  cases u with
  | notANumber => exact iff_of_false nofun fun h => h.1 rfl
  | infinity s =>
      cases s
      · exact iff_of_false nofun fun h => lt_irrefl _ h.2.1
      · exact iff_of_false nofun fun h => lt_irrefl _ h.2.2
  | zero s => exact iff_of_true rfl ⟨nofun, neg_lt_zero.mpr limit_pos, limit_pos⟩
  | finite s m e h => exact iff_of_true rfl ⟨nofun, abs_lt.mp hu.abs_value_lt⟩

end

end Pacing.Double

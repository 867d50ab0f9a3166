import Mathlib.Algebra.Order.Field.Power
import Mathlib.Data.Int.Log
import Mathlib.Data.Rat.Floor
import Mathlib.Tactic.FieldSimp
import Mathlib.Tactic.Linarith
import Mathlib.Tactic.NormNum
import Mathlib.Tactic.Positivity
import Mathlib.Tactic.Ring

/-!
# Rounding to the nearest

What 53 bits can hold of a rational that is not negative, with `2 ^ (-1074)` as the finest step. There is
no greatest value here: overflow belongs to the format.
-/

namespace Pacing.Double

/-- The nearest count, the even one of two. -/
def roundEven (x : ℚ) : ℕ :=
  let k := ⌊x⌋₊
  if x < k + 1 / 2 then k else if k + 1 / 2 < x then k + 1 else k + k % 2

/-- The exponent of the step between neighbours at `x`. -/
def stepExp (x : ℚ) : ℤ := max (Int.log 2 x - 52) (-1074)

/-- `x` in steps. -/
def scaled (x : ℚ) : ℚ := x / 2 ^ stepExp x

def nearest (x : ℚ) : ℚ := roundEven (scaled x) * 2 ^ stepExp x

/-! ## Counts -/

theorem floor_le_roundEven (x : ℚ) : ⌊x⌋₊ ≤ roundEven x := by
  unfold roundEven
  dsimp only
  split_ifs <;> omega

theorem roundEven_le_floor_add_one (x : ℚ) : roundEven x ≤ ⌊x⌋₊ + 1 := by
  unfold roundEven
  dsimp only
  split_ifs <;> omega

@[simp] theorem roundEven_natCast (n : ℕ) : roundEven n = n := by
  simp [roundEven]

theorem roundEven_mono {x y : ℚ} (h : x ≤ y) : roundEven x ≤ roundEven y := by
  rcases (Nat.floor_le_floor h).lt_or_eq with hlt | heq
  · exact (roundEven_le_floor_add_one x).trans (hlt.trans_le (floor_le_roundEven y))
  · unfold roundEven
    rw [heq]
    dsimp only
    split_ifs <;> first | omega | linarith

theorem roundEven_le {x : ℚ} {n : ℕ} (h : x ≤ n) : roundEven x ≤ n := by
  simpa using roundEven_mono h

theorem le_roundEven {x : ℚ} {n : ℕ} (h : n ≤ x) : n ≤ roundEven x := by
  simpa using roundEven_mono h

/-! ## Steps -/

theorem two_zpow_pos (e : ℤ) : (0 : ℚ) < 2 ^ e := by positivity

theorem neg_le_stepExp (x : ℚ) : -1074 ≤ stepExp x := le_max_right _ _

theorem stepExp_mono {x y : ℚ} (hx : 0 < x) (h : x ≤ y) : stepExp x ≤ stepExp y :=
  max_le_max (by linarith [Int.log_mono_right (b := 2) hx h]) le_rfl

theorem scaled_mul (x : ℚ) : scaled x * 2 ^ stepExp x = x :=
  div_mul_cancel₀ _ (two_zpow_pos _).ne'

theorem scaled_lt (x : ℚ) : scaled x < 2 ^ (53 : ℕ) := by
  have h := Int.lt_zpow_succ_log_self (b := 2) one_lt_two x
  rw [scaled, div_lt_iff₀ (two_zpow_pos _), ← zpow_natCast, ← zpow_add₀ two_ne_zero]
  refine h.trans_le (zpow_le_zpow_right₀ one_le_two ?_)
  have : Int.log 2 x - 52 ≤ stepExp x := le_max_left _ _
  push_cast
  omega

/-- Above the finest step, all 53 bits are in use. -/
theorem le_scaled {x : ℚ} (hx : 0 < x) (h : stepExp x ≠ -1074) : 2 ^ (52 : ℕ) ≤ scaled x := by
  have hl := Int.zpow_log_le_self (b := 2) one_lt_two hx
  rw [scaled, le_div_iff₀ (two_zpow_pos _), ← zpow_natCast, ← zpow_add₀ two_ne_zero]
  refine le_trans (zpow_le_zpow_right₀ one_le_two ?_) hl
  unfold stepExp at h ⊢
  push_cast
  omega

theorem roundEven_scaled_le (x : ℚ) : roundEven (scaled x) ≤ 2 ^ 53 :=
  roundEven_le (by exact_mod_cast (scaled_lt x).le)

theorem le_roundEven_scaled {x : ℚ} (hx : 0 < x) (h : stepExp x ≠ -1074) :
    2 ^ 52 ≤ roundEven (scaled x) :=
  le_roundEven (by exact_mod_cast le_scaled hx h)

/-! ## Nearest values -/

@[simp] theorem nearest_zero : nearest 0 = 0 := by
  have h : roundEven 0 = 0 := by exact_mod_cast roundEven_natCast 0
  simp [nearest, scaled, h]

theorem nearest_nonneg (x : ℚ) : 0 ≤ nearest x := by
  unfold nearest
  positivity

theorem nearest_mono {x y : ℚ} (hx : 0 ≤ x) (h : x ≤ y) : nearest x ≤ nearest y := by
  rcases hx.eq_or_lt with rfl | hx
  · simpa using nearest_nonneg y
  rcases (stepExp_mono hx h).eq_or_lt with he | he
  · have hs : scaled x ≤ scaled y := by
      unfold scaled
      rw [he]
      exact div_le_div_of_nonneg_right h (two_zpow_pos _).le
    unfold nearest
    rw [he]
    exact mul_le_mul_of_nonneg_right (by exact_mod_cast roundEven_mono hs) (two_zpow_pos _).le
  · -- A coarser step at `y` leaves a power of two between the two values.
    have hy : stepExp y ≠ -1074 := by linarith [neg_le_stepExp x]
    calc nearest x ≤ 2 ^ (53 : ℕ) * 2 ^ stepExp x :=
          mul_le_mul_of_nonneg_right (by exact_mod_cast roundEven_scaled_le x) (two_zpow_pos _).le
      _ = 2 ^ (53 + stepExp x) := by rw [← zpow_natCast, ← zpow_add₀ two_ne_zero]; norm_num
      _ ≤ 2 ^ (52 + stepExp y) := zpow_le_zpow_right₀ one_le_two (by omega)
      _ = 2 ^ (52 : ℕ) * 2 ^ stepExp y := by rw [← zpow_natCast, ← zpow_add₀ two_ne_zero]; norm_num
      _ ≤ nearest y :=
          mul_le_mul_of_nonneg_right
            (by exact_mod_cast le_roundEven_scaled (hx.trans_le h) hy) (two_zpow_pos _).le

/-- Below `2 ^ 53` steps of any size, nothing is lost. -/
theorem scaled_eq_natCast {m : ℕ} {e : ℤ} (hm : m < 2 ^ 53) (he : -1074 ≤ e) :
    ∃ n : ℕ, scaled (m * 2 ^ e) = n := by
  rcases m.eq_zero_or_pos with rfl | hpos
  · exact ⟨0, by simp [scaled]⟩
  have hx : (0 : ℚ) < m * 2 ^ e := by positivity
  have hlog : Int.log 2 ((m : ℚ) * 2 ^ e) < 53 + e := by
    refine (Int.lt_zpow_iff_log_lt one_lt_two hx).mp ?_
    push_cast
    rw [zpow_add₀ two_ne_zero]
    exact mul_lt_mul_of_pos_right (by exact_mod_cast hm) (two_zpow_pos _)
  have hle : stepExp ((m : ℚ) * 2 ^ e) ≤ e := max_le (by omega) he
  refine ⟨m * 2 ^ (e - stepExp ((m : ℚ) * 2 ^ e)).toNat, ?_⟩
  rw [scaled, mul_div_assoc, ← zpow_sub₀ two_ne_zero]
  push_cast
  rw [← zpow_natCast, Int.toNat_of_nonneg (by omega)]

theorem nearest_eq_self {m : ℕ} {e : ℤ} (hm : m < 2 ^ 53) (he : -1074 ≤ e) :
    nearest (m * 2 ^ e) = m * 2 ^ e := by
  obtain ⟨n, hn⟩ := scaled_eq_natCast hm he
  rw [nearest, hn, roundEven_natCast, ← hn, scaled_mul]

theorem nearest_two_zpow {e : ℤ} (he : -1074 ≤ e) : nearest (2 ^ e) = 2 ^ e := by
  have h := nearest_eq_self (m := 1) (by norm_num) he
  rwa [Nat.cast_one, one_mul] at h

end Pacing.Double

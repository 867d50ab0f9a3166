import Pacing.Proofs.Double.Nearest

/-!
# Rounding by residual bits

A double's operations keep what a shift drops in two residual bits. The bits tell where the exact value
lies in the unit above the mantissa, which is all that rounding to the nearest needs: `rounded` says what
comes out, from the exact value alone.
-/

namespace Pacing.Double

open Float.Model Float.Model.UnpackedFloat
open Format (binary64)

/-- The mantissa and its residual bits describe `y`. -/
structure Describes (em : ExtendedMantissa) (y : ℚ) : Prop where
  le : em.mantissa ≤ y
  lt : y < em.mantissa + 1
  roundBit : em.roundBit = true ↔ em.mantissa + 1 / 2 ≤ y
  stickyBit : em.stickyBit = true ↔ y ≠ em.mantissa ∧ y ≠ em.mantissa + 1 / 2

namespace Describes

variable {em : ExtendedMantissa} {y : ℚ}

theorem floor (h : Describes em y) : ⌊y⌋₊ = em.mantissa :=
  (Nat.floor_eq_iff (em.mantissa.cast_nonneg.trans h.le)).mpr ⟨h.le, h.lt⟩

theorem roundedMantissa (h : Describes em y) : em.roundedMantissa = roundEven y := by
  have hf := h.floor
  obtain ⟨m, r, s⟩ := em
  obtain ⟨hle, hlt, hr, hs⟩ := h
  simp only at hf hle hlt hr hs
  unfold roundEven ExtendedMantissa.roundedMantissa
  simp only [hf]
  cases r with
  | false =>
      have hlow : y < m + 1 / 2 := by simpa using hr
      rw [if_pos hlow]
      cases s <;> rfl
  | true =>
      have hhigh : ¬ y < m + 1 / 2 := not_lt.mpr (hr.mp rfl)
      rw [if_neg hhigh]
      cases s with
      | false =>
          have hm : y = m + 1 / 2 := by
            by_contra hne
            exact Bool.false_ne_true (hs.mpr ⟨by rintro rfl; linarith, hne⟩)
          rw [if_neg (by linarith)]
          rfl
      | true =>
          rw [if_pos (lt_of_le_of_ne (not_lt.mp hhigh) (hs.mp rfl).2.symm)]
          rfl

theorem shiftRightOne (h : Describes em y) : Describes em.shiftRightOne (y / 2) := by
  obtain ⟨m, r, s⟩ := em
  obtain ⟨hle, hlt, hr, hs⟩ := h
  simp only at hle hlt hr hs
  have hdiv : (m : ℚ) = 2 * (m / 2 : ℕ) + (m % 2 : ℕ) := by exact_mod_cast (Nat.div_add_mod m 2).symm
  have hrs : (r || s) = true ↔ y ≠ m := by
    rw [Bool.or_eq_true, hr, hs]
    constructor
    · rintro (h | h)
      · rintro rfl; linarith
      · exact h.1
    · intro h
      by_cases hy : y = m + 1 / 2
      · exact .inl hy.ge
      · exact .inr ⟨h, hy⟩
  rcases Nat.mod_two_eq_zero_or_one m with hb | hb <;> rw [hb] at hdiv <;> push_cast at hdiv
  · refine ⟨?_, ?_, ?_, ?_⟩ <;> simp only [ExtendedMantissa.shiftRightOne, hb, hrs] <;> norm_num
    · linarith
    · linarith
    · linarith
    · constructor
      · intro h
        exact ⟨fun h' => h (by linarith), fun h' => by linarith⟩
      · rintro ⟨h, -⟩ rfl
        exact h (by linarith)
  · refine ⟨?_, ?_, ?_, ?_⟩ <;> simp only [ExtendedMantissa.shiftRightOne, hb, hrs] <;> norm_num
    · linarith
    · linarith
    · linarith
    · constructor
      · intro h
        exact ⟨fun h' => by linarith, fun h' => h (by linarith)⟩
      · rintro ⟨-, h⟩ rfl
        exact h (by linarith)

theorem shiftRight (h : Describes em y) (n : ℕ) : Describes (em >>> n) (y / 2 ^ n) := by
  change Describes (n.repeat ExtendedMantissa.shiftRightOne em) _
  induction n with
  | zero => simpa [Nat.repeat] using h
  | succ n ih =>
      rw [pow_succ, ← div_div]
      exact ih.shiftRightOne

theorem exact (m : ℕ) : Describes (.ofMantissaAndAccuracy m .exact) m := by
  refine ⟨le_rfl, by simp [ExtendedMantissa.ofMantissaAndAccuracy], ?_, ?_⟩ <;>
    simp [ExtendedMantissa.ofMantissaAndAccuracy]

theorem inexact {m : ℕ} {y : ℚ} {o : Ordering} (hle : m < y) (hlt : y < m + 1)
    (ho : o.Compares y (m + 1 / 2)) : Describes (.ofMantissaAndAccuracy m (.inexact o)) y := by
  cases o with
  | lt =>
      have h : y < m + 1 / 2 := ho
      exact ⟨hle.le, hlt, iff_of_false Bool.false_ne_true h.not_ge, iff_of_true rfl ⟨hle.ne', h.ne⟩⟩
  | eq =>
      have h : y = m + 1 / 2 := ho
      exact ⟨hle.le, hlt, iff_of_true rfl h.ge, iff_of_false Bool.false_ne_true fun h' => h'.2 h⟩
  | gt =>
      have h : m + 1 / 2 < y := ho
      exact ⟨hle.le, hlt, iff_of_true rfl h.le, iff_of_true rfl ⟨hle.ne', h.ne'⟩⟩

theorem quotient (a : ℕ) {b : ℕ} (hb : 0 < b) :
    Describes (.ofMantissaAndAccuracy (a / b) (accuracyOfFraction (a % b) b)) (a / b) := by
  have hbq : (0 : ℚ) < b := by exact_mod_cast hb
  have hval : (a : ℚ) / b = (a / b : ℕ) + (a % b : ℕ) / b := by
    rw [div_eq_iff hbq.ne', add_mul, div_mul_cancel₀ _ hbq.ne']
    exact_mod_cast (Nat.div_add_mod' a b).symm
  unfold accuracyOfFraction
  rw [hval]
  split
  · rename_i h0
    rw [h0]
    simpa using exact (a / b)
  · rename_i h0
    have hr : (0 : ℚ) < (a % b : ℕ) := by exact_mod_cast Nat.pos_of_ne_zero h0
    have hrb : ((a % b : ℕ) : ℚ) < b := by exact_mod_cast Nat.mod_lt a hb
    refine inexact ?_ ?_ ?_
    · linarith [div_pos hr hbq]
    · linarith [(div_lt_one hbq).mpr hrb]
    · have ho := (compare_iff (2 * (a % b)) b).mp rfl
      generalize compare (2 * (a % b)) b = o at ho
      cases o with
      | lt =>
          have h : 2 * ((a % b : ℕ) : ℚ) < b := by exact_mod_cast ho
          exact add_lt_add_right ((div_lt_iff₀ hbq).mpr (by linarith)) _
      | eq =>
          have h : 2 * ((a % b : ℕ) : ℚ) = b := by exact_mod_cast ho
          exact congrArg _ ((div_eq_iff hbq.ne').mpr (by linarith))
      | gt =>
          have h : (b : ℚ) < 2 * ((a % b : ℕ) : ℚ) := by exact_mod_cast ho
          exact add_lt_add_right ((lt_div_iff₀ hbq).mpr (by linarith)) _

end Describes

/-! ## Rounding -/

/-- What a positive `x` is rounded to, whatever the format's greatest value. A full mantissa that is
rounded up takes the next exponent. -/
def rounded (s : Sign) (x : ℚ) : UnpackedFloat :=
  let n := roundEven (scaled x)
  if h : n = 0 then .zero s
  else if n = 2 ^ 53 then .finite s (2 ^ 52) (stepExp x + 1) (by decide)
  else .finite s n (stepExp x) (Nat.pos_of_ne_zero h)

section

variable {s : Sign} {x : ℚ}

theorem rounded_zero (h : roundEven (scaled x) = 0) : rounded s x = .zero s := dif_pos h

theorem rounded_full (h : roundEven (scaled x) = 2 ^ 53) :
    rounded s x = .finite s (2 ^ 52) (stepExp x + 1) (by decide) :=
  (dif_neg (by rw [h]; decide)).trans (if_pos h)

theorem rounded_finite (h : 0 < roundEven (scaled x)) (hn : roundEven (scaled x) ≠ 2 ^ 53) :
    rounded s x = .finite s (roundEven (scaled x)) (stepExp x) h :=
  (dif_neg h.ne').trans (if_neg hn)

end

theorem targetExponent_binary64 (t : ℤ) : binary64.targetExponent t = max (t - 53) (-1074) := rfl

theorem shiftToExponent_of_le {m : ℕ} {e t : ℤ} {acc : Accuracy} (h : e ≤ t) :
    shiftToExponent m e acc t =
      (ExtendedMantissa.ofMantissaAndAccuracy m acc >>> (t - e).toNat, t) := by
  simp only [shiftToExponent, Prod.mk.injEq, true_and]
  omega

theorem shiftToExponent_of_ge {m : ℕ} {e t : ℤ} (h : t ≤ e) :
    shiftToExponent m e .exact t = (⟨m, false, false⟩, e) := by
  have h0 : (t - e).toNat = 0 := by omega
  simp only [shiftToExponent, h0, Prod.mk.injEq]
  exact ⟨rfl, by simp⟩

/-- Once the mantissa has no more than 53 bits, only a full one is shifted further. -/
theorem shiftToTargetExponent_of_le {n : ℕ} {e : ℤ} (hn : n ≤ 2 ^ 53) (he : -1074 ≤ e) :
    shiftToTargetExponent binary64 n e .exact =
      if n = 2 ^ 53 then (⟨2 ^ 52, false, false⟩, e + 1) else (⟨n, false, false⟩, e) := by
  unfold shiftToTargetExponent
  rw [targetExponent_binary64]
  split
  · rename_i h
    have ht : max (totalExponent n e - 53) (-1074) = e + 1 := by
      rw [h, totalExponent, Nat.log2_two_pow]; omega
    have h1 : (e + 1 - e).toNat = 1 := by omega
    rw [ht, shiftToExponent_of_le (by omega), h1, h]
    rfl
  · rename_i h
    have hlog : n.log2 < 53 := by
      rcases n.eq_zero_or_pos with rfl | hpos
      · decide
      · exact (Nat.log2_lt hpos.ne').mpr (lt_of_le_of_ne hn h)
    exact shiftToExponent_of_ge (by unfold totalExponent; omega)

theorem roundWithAccuracy_eq {s : Sign} {m : ℕ} {e : ℤ} {acc : Accuracy} {x : ℚ}
    (he : e ≤ stepExp x) (ht : binary64.targetExponent (totalExponent m e) = stepExp x)
    (h : Describes (.ofMantissaAndAccuracy m acc) (x / 2 ^ e)) :
    roundWithAccuracy binary64 s m e acc = rounded s x := by
  have hy : x / 2 ^ e / 2 ^ (stepExp x - e).toNat = scaled x := by
    rw [div_div, ← zpow_natCast, ← zpow_add₀ two_ne_zero, Int.toNat_of_nonneg (by omega),
      add_sub_cancel, scaled]
  have hr := (h.shiftRight (stepExp x - e).toNat).roundedMantissa
  rw [hy] at hr
  have hfirst : shiftToTargetExponent binary64 m e acc =
      (ExtendedMantissa.ofMantissaAndAccuracy m acc >>> (stepExp x - e).toNat, stepExp x) := by
    rw [shiftToTargetExponent, ht, shiftToExponent_of_le he]
  have hsecond := shiftToTargetExponent_of_le (roundEven_scaled_le x) (neg_le_stepExp x)
  unfold roundWithAccuracy
  rw [hfirst]
  dsimp only
  rw [hr]
  by_cases hfull : roundEven (scaled x) = 2 ^ 53
  · rw [if_pos hfull] at hsecond
    rw [hsecond, rounded_full hfull]
    rfl
  · rw [if_neg hfull] at hsecond
    rw [hsecond]
    dsimp only
    rcases Nat.eq_zero_or_pos (roundEven (scaled x)) with h0 | h0
    · rw [dif_pos h0, rounded_zero h0]
    · rw [dif_neg h0.ne', rounded_finite h0 hfull]

/-! ## Exponents -/

theorem Describes.mantissa_bounds {m : ℕ} {acc : Accuracy} {y : ℚ}
    (h : Describes (.ofMantissaAndAccuracy m acc) y) : m ≤ y ∧ y < m + 1 := by
  have hm : (ExtendedMantissa.ofMantissaAndAccuracy m acc).mantissa = m := by
    unfold ExtendedMantissa.ofMantissaAndAccuracy
    split <;> rfl
  exact ⟨hm ▸ h.le, hm ▸ h.lt⟩

/-- The mantissa's length gives the step at the value that it describes. Where it is zero, the value lies
below the finest step. -/
theorem targetExponent_eq_stepExp {m : ℕ} {e : ℤ} {acc : Accuracy} {x : ℚ} (hx : 0 < x)
    (hm : 0 < m ∨ e ≤ -1074) (h : Describes (.ofMantissaAndAccuracy m acc) (x / 2 ^ e)) :
    binary64.targetExponent (totalExponent m e) = stepExp x := by
  obtain ⟨hle, hlt⟩ := h.mantissa_bounds
  rw [le_div_iff₀ (two_zpow_pos e)] at hle
  rw [div_lt_iff₀ (two_zpow_pos e)] at hlt
  have hhigh : Int.log 2 x < m.log2 + 1 + e := by
    refine (Int.lt_zpow_iff_log_lt one_lt_two hx).mp (hlt.trans_le ?_)
    push_cast
    rw [zpow_add₀ two_ne_zero]
    have hb : m + 1 ≤ 2 ^ (m.log2 + 1) := Nat.lt_log2_self
    exact mul_le_mul_of_nonneg_right (by exact_mod_cast hb) (two_zpow_pos e).le
  rw [targetExponent_binary64, totalExponent, stepExp]
  rcases m.eq_zero_or_pos with rfl | hpos
  · have he : e ≤ -1074 := hm.resolve_left (lt_irrefl 0)
    rw [Nat.log2_zero] at hhigh ⊢
    push_cast at hhigh ⊢
    omega
  · have hlow : m.log2 + e ≤ Int.log 2 x := by
      refine (Int.zpow_le_iff_le_log one_lt_two hx).mp (le_trans ?_ hle)
      push_cast
      rw [zpow_add₀ two_ne_zero]
      have hb : 2 ^ m.log2 ≤ m := Nat.log2_self_le hpos.ne'
      exact mul_le_mul_of_nonneg_right (by exact_mod_cast hb) (two_zpow_pos e).le
    omega

end Pacing.Double

import Pacing.Proofs.Double.Value

/-!
# Arithmetic of doubles

Products, quotients, sums, differences and counts are the exact ones rounded to the nearest, as far as they are in
range.
-/

namespace Pacing.Double

open Float.Model Float.Model.UnpackedFloat
open Format (binary64)

/-! ## Rounded values -/

theorem canonical_rounded (s : Sign) {x : ℚ} (hx : 0 < x) : Canonical (rounded s x) := by
  have hn := roundEven_scaled_le x
  have he := neg_le_stepExp x
  rcases Nat.eq_zero_or_pos (roundEven (scaled x)) with h0 | h0
  · rw [rounded_zero h0]
    trivial
  by_cases hfull : roundEven (scaled x) = 2 ^ 53
  · rw [rounded_full hfull]
    exact ⟨by norm_num, by omega, .inl le_rfl⟩
  · rw [rounded_finite h0 hfull]
    refine ⟨by omega, he, ?_⟩
    by_cases hstep : stepExp x = -1074
    · exact .inr hstep
    · exact .inl (le_roundEven_scaled hx hstep)

theorem value_overflow {m : ℕ} {e : ℤ} {h : 0 < m} (hc : Canonical (.finite .positive m e h)) :
    value (overflow (.finite .positive m e h)) = min ((m : ℚ) * 2 ^ e) limit := by
  rcases le_or_gt 972 e with he | he
  · have hm : 2 ^ 52 ≤ m := hc.2.2.resolve_right (by omega)
    have hle : limit ≤ m * 2 ^ e := by
      calc limit = 2 ^ (52 : ℤ) * 2 ^ (972 : ℤ) := by rw [limit, ← zpow_add₀ two_ne_zero]; rfl
        _ ≤ m * 2 ^ e :=
          mul_le_mul (by exact_mod_cast hm) (zpow_le_zpow_right₀ one_le_two he)
            (two_zpow_pos _).le m.cast_nonneg
    rw [overflow_of_le he, min_eq_right hle]
    rfl
  · have hr : InRange (.finite .positive m e h) := ⟨hc, overflow_of_lt he⟩
    rw [overflow_of_lt he, min_eq_left hr.magnitude_lt.le]
    rfl

theorem value_rounded {x : ℚ} (hx : 0 < x) :
    value (overflow (rounded .positive x)) = min (nearest x) limit := by
  have hc := canonical_rounded .positive hx
  rcases Nat.eq_zero_or_pos (roundEven (scaled x)) with h0 | h0
  · rw [rounded_zero h0, nearest, h0, Nat.cast_zero, zero_mul, min_eq_left limit_pos.le]
    rfl
  by_cases hfull : roundEven (scaled x) = 2 ^ 53
  · rw [rounded_full hfull] at hc ⊢
    rw [value_overflow hc, nearest, hfull, zpow_add_one₀ two_ne_zero]
    norm_num
    ring_nf
  · rw [rounded_finite h0 hfull] at hc ⊢
    rw [value_overflow hc, nearest]

theorem overflow_ne {u : UnpackedFloat} (h : u ≠ .notANumber) : overflow u ≠ .notANumber := by
  cases u with
  | finite s m e hm =>
      rcases le_or_gt 972 e with he | he
      · rw [overflow_of_le he]; exact nofun
      · rw [overflow_of_lt he]; exact nofun
  | _ => exact h

theorem rounded_ne (s : Sign) (x : ℚ) : rounded s x ≠ .notANumber := by
  rcases Nat.eq_zero_or_pos (roundEven (scaled x)) with h0 | h0
  · rw [rounded_zero h0]; exact nofun
  by_cases hfull : roundEven (scaled x) = 2 ^ 53
  · rw [rounded_full hfull]; exact nofun
  · rw [rounded_finite h0 hfull]; exact nofun

/-! ## Products -/

section

variable {m n : ℕ} {e e' : ℤ} {h : 0 < m} {h' : 0 < n}

theorem mul_finite {s t : Sign} (hu : Canonical (.finite s m e h)) (hv : Canonical (.finite t n e' h')) :
    mul binary64 (.finite s m e h) (.finite t n e' h') =
      rounded (s * t) (m * 2 ^ e * (n * 2 ^ e')) := by
  have hx : (0 : ℚ) < m * 2 ^ e * (n * 2 ^ e') := mul_pos (magnitude_pos h e) (magnitude_pos h' e')
  have hval : (m : ℚ) * 2 ^ e * (n * 2 ^ e') = (m * n : ℕ) * 2 ^ (e + e') := by
    rw [zpow_add₀ two_ne_zero]
    push_cast
    ring
  have hd : Describes (.ofMantissaAndAccuracy (m * n) .exact)
      (m * 2 ^ e * (n * 2 ^ e') / 2 ^ (e + e')) := by
    rw [hval, mul_div_cancel_right₀ _ (two_zpow_pos _).ne']
    exact .exact _
  have he : e + e' ≤ stepExp (m * 2 ^ e * (n * 2 ^ e')) := by
    by_cases hsmall : e + e' ≤ -1074
    · exact hsmall.trans (neg_le_stepExp _)
    · have hmn : 2 ^ 52 ≤ m * n := by
        obtain ⟨-, he, hm⟩ := hu
        obtain ⟨-, he', hn⟩ := hv
        rcases hm with hm | rfl
        · exact hm.trans (Nat.le_mul_of_pos_right m h')
        · exact (hn.resolve_right (by omega)).trans (Nat.le_mul_of_pos_left n h)
      refine le_max_of_le_left ?_
      rw [le_sub_iff_add_le, ← Int.zpow_le_iff_le_log one_lt_two hx, hval, add_comm]
      push_cast
      rw [zpow_add₀ two_ne_zero]
      exact mul_le_mul_of_nonneg_right (by exact_mod_cast hmn) (two_zpow_pos _).le
  exact roundWithAccuracy_eq he
    (targetExponent_eq_stepExp hx (.inl (Nat.mul_pos h h')) hd) hd

/-! ## Quotients -/

theorem zpow_le_magnitude (hm : 0 < m) (e : ℤ) : (2 : ℚ) ^ (totalExponent m e - 1) ≤ m * 2 ^ e := by
  have hb : 2 ^ m.log2 ≤ m := Nat.log2_self_le hm.ne'
  rw [show totalExponent m e - 1 = m.log2 + e by unfold totalExponent; omega, zpow_add₀ two_ne_zero]
  exact mul_le_mul_of_nonneg_right (by exact_mod_cast hb) (two_zpow_pos e).le

theorem magnitude_lt_zpow (m : ℕ) (e : ℤ) : (m : ℚ) * 2 ^ e < 2 ^ totalExponent m e := by
  have hb : m < 2 ^ (m.log2 + 1) := Nat.lt_log2_self
  rw [totalExponent, zpow_add₀ two_ne_zero]
  exact mul_lt_mul_of_pos_right (by exact_mod_cast hb) (two_zpow_pos e)

theorem zpow_le_quotient (h : 0 < m) (h' : 0 < n) (e e' : ℤ) :
    (2 : ℚ) ^ (totalExponent m e - totalExponent n e' - 1) ≤ m * 2 ^ e / (n * 2 ^ e') := by
  rw [le_div_iff₀ (magnitude_pos h' e')]
  calc (2 : ℚ) ^ (totalExponent m e - totalExponent n e' - 1) * (n * 2 ^ e')
      ≤ 2 ^ (totalExponent m e - totalExponent n e' - 1) * 2 ^ totalExponent n e' :=
        mul_le_mul_of_nonneg_left (magnitude_lt_zpow n e').le (two_zpow_pos _).le
    _ = 2 ^ (totalExponent m e - 1) := by rw [← zpow_add₀ two_ne_zero]; congr 1; omega
    _ ≤ m * 2 ^ e := zpow_le_magnitude h e

theorem describes_quotient (m : ℕ) (h' : 0 < n) {e e' t : ℤ} (ht : t ≤ e - e') :
    Describes (.ofMantissaAndAccuracy ((m <<< (e - e' - t).toNat) / n)
      (accuracyOfFraction ((m <<< (e - e' - t).toNat) % n) n)) (m * 2 ^ e / (n * 2 ^ e') / 2 ^ t) := by
  have hshift : (2 : ℚ) ^ (e - e' - t).toNat = 2 ^ (e - e' - t) := by
    rw [← zpow_natCast, Int.toNat_of_nonneg (by omega)]
  have hval : (m : ℚ) * 2 ^ e / (n * 2 ^ e') / 2 ^ t = (m <<< (e - e' - t).toNat : ℕ) / n := by
    rw [Nat.shiftLeft_eq]
    push_cast
    rw [hshift, zpow_sub₀ two_ne_zero, zpow_sub₀ two_ne_zero]
    field_simp
  rw [hval]
  exact .quotient _ h'

theorem div_finite {s t : Sign} :
    div binary64 (.finite s m e h) (.finite t n e' h') =
      rounded (s / t) (m * 2 ^ e / (n * 2 ^ e')) := by
  have hx : (0 : ℚ) < m * 2 ^ e / (n * 2 ^ e') := div_pos (magnitude_pos h e) (magnitude_pos h' e')
  have hlow := zpow_le_quotient h h' e e'
  have hlog := (Int.zpow_le_iff_le_log one_lt_two hx).mp (by exact_mod_cast hlow)
  unfold UnpackedFloat.div divCore
  dsimp only
  generalize ht : min (e - e')
    (binary64.targetExponent (totalExponent m e - totalExponent n e')) = t
  rw [targetExponent_binary64] at ht
  have hd := describes_quotient m h' (ht ▸ min_le_left _ _)
  have he : t ≤ stepExp (m * 2 ^ e / (n * 2 ^ e')) := by
    unfold stepExp
    omega
  refine roundWithAccuracy_eq he (targetExponent_eq_stepExp hx ?_ hd) hd
  -- The quotient's mantissa can be zero only below the finest step.
  by_cases hsmall : t ≤ -1074
  · exact .inr hsmall
  · refine .inl (Nat.pos_of_ne_zero fun h0 => ?_)
    obtain ⟨-, hlt⟩ := hd.mantissa_bounds
    rw [h0, div_lt_iff₀ (two_zpow_pos _)] at hlt
    have hle : (2 : ℚ) ^ t ≤ 2 ^ (totalExponent m e - totalExponent n e' - 1) :=
      zpow_le_zpow_right₀ one_le_two (by omega)
    push_cast at hlt
    linarith

end

/-! ## Sums and counts -/

theorem round_eq (s : Sign) {m : ℕ} (h : 0 < m) (e : ℤ) :
    UnpackedFloat.round binary64 s m e = rounded s (m * 2 ^ e) := by
  have hx := magnitude_pos h e
  simp only [UnpackedFloat.round, decreaseExponent]
  generalize hk : (e - binary64.targetExponent (totalExponent m e)).toNat = k
  rw [targetExponent_binary64, totalExponent] at hk
  have hd : Describes (.ofMantissaAndAccuracy (m <<< k) .exact) ((m : ℚ) * 2 ^ e / 2 ^ (e - (k : ℤ))) := by
    have hval : (m : ℚ) * 2 ^ e / 2 ^ (e - (k : ℤ)) = (m <<< k : ℕ) := by
      rw [Nat.shiftLeft_eq, mul_div_assoc, ← zpow_sub₀ two_ne_zero, sub_sub_cancel, zpow_natCast]
      push_cast
      rfl
    rw [hval]
    exact .exact _
  have hpos : 0 < m <<< k := by
    rw [Nat.shiftLeft_eq]
    positivity
  refine roundWithAccuracy_eq ?_ (targetExponent_eq_stepExp hx (.inl hpos) hd) hd
  have hlow := zpow_le_magnitude h e
  have hlog := (Int.zpow_le_iff_le_log one_lt_two hx).mp (by exact_mod_cast hlow)
  unfold stepExp
  unfold totalExponent at hlog
  omega

theorem normalize_eq {m : ℕ} (h : 0 < m) (e : ℤ) (s : Sign) :
    UnpackedFloat.normalize binary64 m e s = rounded .positive (m * 2 ^ e) := by
  have hgt : compare (m : ℤ) 0 = .gt := compare_gt_iff_gt.mpr (by exact_mod_cast h)
  rw [← round_eq _ h, UnpackedFloat.normalize, hgt]
  rfl

theorem ofNat_eq {n : ℕ} (h : 0 < n) : UnpackedFloat.ofNat binary64 n = rounded .positive n := by
  have hsum := normalize_eq h 0 .positive
  rw [zpow_zero, mul_one] at hsum
  exact hsum

theorem shiftLeft_mul_zpow (k : ℕ) {t t' : ℤ} (ht : t' ≤ t) :
    (k : ℚ) * 2 ^ t = (k <<< (t - t').toNat : ℕ) * 2 ^ t' := by
  rw [Nat.shiftLeft_eq]
  push_cast
  rw [← zpow_natCast, Int.toNat_of_nonneg (by omega), mul_assoc, ← zpow_add₀ two_ne_zero, sub_add_cancel]

theorem add_finite {m n : ℕ} {e e' : ℤ} {h : 0 < m} {h' : 0 < n} :
    add binary64 (.finite .positive m e h) (.finite .positive n e' h') =
      rounded .positive (m * 2 ^ e + n * 2 ^ e') := by
  have hpos : 0 < m <<< (e - min e e').toNat + n <<< (e' - min e e').toNat := by
    refine Nat.add_pos_left ?_ _
    rw [Nat.shiftLeft_eq]
    positivity
  rw [shiftLeft_mul_zpow m (min_le_left e e'), shiftLeft_mul_zpow n (min_le_right e e'), ← add_mul,
    ← Nat.cast_add, ← normalize_eq hpos _ .positive]
  rfl

/-! ## Differences -/

theorem normalize_neg {m : ℕ} (h : 0 < m) (e : ℤ) (s : Sign) :
    UnpackedFloat.normalize binary64 (-m) e s = rounded .negative (m * 2 ^ e) := by
  have hlt : compare (-(m : ℤ)) 0 = .lt := compare_lt_iff_lt.mpr (by omega)
  rw [← round_eq _ h, UnpackedFloat.normalize, hlt]
  simp only [neg_neg, Int.toNat_natCast]

theorem value_shiftLeft (s : Sign) (m : ℕ) {e t : ℤ} (ht : t ≤ e) :
    ((s.apply (m <<< (e - t).toNat : ℕ) : ℤ) : ℚ) * 2 ^ t = (s.apply m : ℤ) * 2 ^ e := by
  have hshift := shiftLeft_mul_zpow m ht
  cases s with
  | positive => exact hshift.symm
  | negative =>
      change ((-((m <<< (e - t).toNat : ℕ) : ℤ) : ℤ) : ℚ) * 2 ^ t = ((-(m : ℤ) : ℤ) : ℚ) * 2 ^ e
      rw [Int.cast_neg, Int.cast_neg, neg_mul, neg_mul, Int.cast_natCast, Int.cast_natCast, ← hshift]

/-- A difference is the exact one rounded. Where it is positive it is at least the finest step. -/
theorem sub_finite {s t : Sign} {m n : ℕ} {e e' : ℤ} {h : 0 < m} {h' : 0 < n} (he : -1074 ≤ e)
    (he' : -1074 ≤ e') :
    let x := value (.finite s m e h) - value (.finite t n e' h')
    let u := UnpackedFloat.sub binary64 (.finite s m e h) (.finite t n e' h')
    (x = 0 ∧ u = .zero .positive) ∨ (2 ^ (-1074 : ℤ) ≤ x ∧ u = rounded .positive x) ∨
      (x < 0 ∧ u = rounded .negative (-x)) := by
  intro x u
  obtain ⟨d, hd⟩ : ∃ d : ℤ, d = s.apply (m <<< (e - min e e').toNat : ℕ) -
      t.apply (n <<< (e' - min e e').toNat : ℕ) := ⟨_, rfl⟩
  have hx : x = d * 2 ^ min e e' := by
    rw [hd, Int.cast_sub, sub_mul, value_shiftLeft s m (min_le_left e e'),
      value_shiftLeft t n (min_le_right e e')]
    rfl
  have hu : u = UnpackedFloat.normalize binary64 d (min e e') .positive := by
    rw [hd]
    rfl
  have hpow := two_zpow_pos (min e e')
  rw [hx, hu]
  rcases lt_trichotomy d 0 with hneg | rfl | hpos
  · obtain ⟨k, rfl⟩ : ∃ k : ℕ, d = -k := ⟨d.natAbs, by omega⟩
    have hk : 0 < k := by omega
    refine .inr (.inr ⟨mul_neg_of_neg_of_pos (by exact_mod_cast hneg) hpow, ?_⟩)
    rw [normalize_neg hk, Int.cast_neg, neg_mul, neg_neg, Int.cast_natCast]
  · exact .inl ⟨by rw [Int.cast_zero, zero_mul], rfl⟩
  · obtain ⟨k, rfl⟩ : ∃ k : ℕ, d = k := ⟨d.toNat, by omega⟩
    have hk : 0 < k := by omega
    refine .inr (.inl ⟨?_, normalize_eq hk _ _⟩)
    calc (2 : ℚ) ^ (-1074 : ℤ) ≤ 2 ^ min e e' :=
          zpow_le_zpow_right₀ one_le_two (le_min he he')
      _ ≤ (k : ℤ) * 2 ^ min e e' := le_mul_of_one_le_left hpow.le (by exact_mod_cast hk)

/-! ## Truncation -/

theorem roundToInt_eq (m : ℕ) (e : ℤ) : roundToInt .positive m e = ⌊(m : ℚ) * 2 ^ e⌋₊ := by
  unfold roundToInt decreaseExponent
  dsimp only
  rw [shiftToExponent_of_le (by omega)]
  generalize hk : (e - 0).toNat = k
  have hd := (Describes.exact (m <<< k)).shiftRight (0 - (e - k)).toNat
  have hval : ((m <<< k : ℕ) : ℚ) / 2 ^ (0 - (e - k)).toNat = m * 2 ^ e := by
    rw [Nat.shiftLeft_eq, ← zpow_natCast, Int.toNat_of_nonneg (by omega), div_eq_mul_inv, ← zpow_neg]
    push_cast
    rw [← zpow_natCast, mul_assoc, ← zpow_add₀ two_ne_zero]
    congr 2
    omega
  rw [← hval, hd.floor]
  rfl

end Pacing.Double

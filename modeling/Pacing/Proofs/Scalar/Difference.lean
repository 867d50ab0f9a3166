import Pacing.Proofs.Scalar.Monotone

/-!
# Differences that tell

A difference of finite numbers is positive only if the exact one is: no two doubles are so close that their
difference is rounded to zero. So an elapsed time tells which of two readings came first, and a rate is a
number wherever the time that it is measured over is positive.
-/

namespace Pacing

open Scalar in
/-- A number system in which a difference tells which of two numbers is greater, however close they are, and
in which a result is no number only where infinities meet. -/
class DifferenceScalar (α : Type) [Scalar α] : Prop extends MonotoneScalar α where
  number_sub {a b : α} : isFinite a = true → isNaN b = false → isNaN (a - b) = false
  zero_lt_sub {a b : α} : isFinite a = true → isFinite b = true → (zero < a - b ↔ b < a)
  mul_nonneg_of_pos {a b : α} : zero < a → zero < b → zero ≤ a * b
  div_nonneg_of_isFinite {a b : α} : zero ≤ a → isFinite b = true → zero < b → zero ≤ a / b
  zero_le_ofNat (n : Nat) : (zero : α) ≤ ofNat n
  /-- Counts of up to 64 bits add up to a finite number. -/
  isFinite_add_ofNat {m n : Nat} {a : α} :
    m < 2 ^ 64 → n < 2 ^ 64 → zero ≤ a → a ≤ ofNat m → isFinite (a + ofNat n) = true

namespace Double

open Float.Model Float.Model.UnpackedFloat
open Format (binary64)

variable {a b : Float}

/-! ## Differences -/

theorem unpacked_sub {u : UnpackedFloat} (h : UnpackedFloat.sub binary64 (unpacked a) (unpacked b) = u)
    (hc : Canonical u) : unpacked (a - b) = overflow u := by
  subst h
  exact unpacked_pack hc

/-- Nothing from the finest step on is rounded to zero. -/
theorem nearest_pos {x : ℚ} (h : 2 ^ (-1074 : ℤ) ≤ x) : 0 < nearest x := by
  calc (0 : ℚ) < 2 ^ (-1074 : ℤ) := two_zpow_pos _
    _ = nearest (2 ^ (-1074 : ℤ)) := (nearest_two_zpow le_rfl).symm
    _ ≤ nearest x := nearest_mono (two_zpow_pos _).le h

theorem value_rounded_negative (x : ℚ) : value (overflow (rounded .negative x)) ≤ 0 := by
  have hfinite {m : ℕ} {e : ℤ} {h : 0 < m} : value (overflow (.finite .negative m e h)) ≤ 0 := by
    rcases le_or_gt 972 e with he | he
    · rw [overflow_of_le he]
      exact (neg_neg_of_pos limit_pos).le
    · rw [overflow_of_lt he]
      exact value_negative_neg.le
  rcases Nat.eq_zero_or_pos (roundEven (scaled x)) with h0 | h0
  · rw [rounded_zero h0]
    exact le_rfl
  by_cases hfull : roundEven (scaled x) = 2 ^ 53
  · rw [rounded_full hfull]
    exact hfinite
  · rw [rounded_finite h0 hfull]
    exact hfinite

/-- The forms of a finite number. -/
theorem forms_of_finite (h : Scalar.isFinite a = true) :
    (∃ s, unpacked a = .zero s) ∨ ∃ s m e h, unpacked a = .finite s m e h := by
  rw [isFinite_eq] at h
  cases hu : unpacked a with
  | notANumber => rw [hu] at h; cases h
  | infinity s => rw [hu] at h; cases h
  | zero s => exact .inl ⟨s, rfl⟩
  | finite s m e hm => exact .inr ⟨s, m, e, hm, rfl⟩

/-- Where nothing has to be rounded, a difference is the exact one. -/
theorem sub_exact {u : UnpackedFloat} (hu : InRange u) (hfin : u.isFinite = true)
    (hval : value u = val a - val b)
    (hsub : UnpackedFloat.sub binary64 (unpacked a) (unpacked b) = u) :
    unpacked (a - b) ≠ .notANumber ∧ (0 < val (a - b) ↔ val b < val a) := by
  have hab : unpacked (a - b) = u := (unpacked_sub hsub hu.canonical).trans hu.overflow
  refine ⟨hab ▸ ((isFinite_iff hu).mp hfin).1, ?_⟩
  rw [val, hab, hval, sub_pos]

/-- A difference of finite numbers is a number, and positive if the exact one is. -/
theorem sub_spec (ha : Scalar.isFinite a = true) (hb : Scalar.isFinite b = true) :
    unpacked (a - b) ≠ .notANumber ∧ (0 < val (a - b) ↔ val b < val a) := by
  have hina := inRange_unpacked a
  have hinb := inRange_unpacked b
  rcases forms_of_finite ha with ⟨s, hua⟩ | ⟨s, m, e, h, hua⟩ <;>
    rcases forms_of_finite hb with ⟨t, hub⟩ | ⟨t, n, e', h', hub⟩
  · refine sub_exact (u := .zero (if s == -t then s else .positive)) ⟨trivial, rfl⟩ rfl ?_ ?_
    · rw [(val_eq_zero hua).2, (val_eq_zero hub).2, sub_zero]
      rfl
    · rw [hua, hub]
      cases s <;> cases t <;> rfl
  · rw [hub] at hinb
    refine sub_exact (u := .finite (-t) n e' h') ⟨hinb.canonical, ?_⟩ rfl ?_ ?_
    · exact overflow_of_lt hinb.exponent_lt
    · rw [(val_eq_zero hua).2, zero_sub, val, hub]
      cases t with
      | positive => exact value_negative
      | negative => rw [value_negative, neg_neg]; rfl
    · rw [hua, hub]
      cases s <;> rfl
  · refine sub_exact (u := unpacked a) hina ha ?_ ?_
    · rw [(val_eq_zero hub).2, sub_zero]
      rfl
    · rw [hua, hub]
      cases s <;> rfl
  -- Only where neither of the two is zero is there anything to round.
  · rw [hua] at hina
    rw [hub] at hinb
    have hforms :
        (val a - val b = 0 ∧ UnpackedFloat.sub binary64 (unpacked a) (unpacked b) = .zero .positive) ∨
        (2 ^ (-1074 : ℤ) ≤ val a - val b ∧
          UnpackedFloat.sub binary64 (unpacked a) (unpacked b) = rounded .positive (val a - val b)) ∨
        (val a - val b < 0 ∧
          UnpackedFloat.sub binary64 (unpacked a) (unpacked b) = rounded .negative (-(val a - val b))) := by
      rw [val, val, hua, hub]
      exact sub_finite hina.canonical.2.1 hinb.canonical.2.1
    obtain ⟨hx, hu⟩ | ⟨hx, hu⟩ | ⟨hx, hu⟩ := hforms
    · exact sub_exact (u := .zero .positive) ⟨trivial, rfl⟩ rfl (by rw [hx]; rfl) hu
    · have hpos : 0 < val a - val b := (two_zpow_pos _).trans_le hx
      have hsub := unpacked_sub hu (canonical_rounded _ hpos)
      obtain ⟨hnum, hval⟩ := val_rounded hpos hsub
      refine ⟨hnum, iff_of_true ?_ (sub_pos.mp hpos)⟩
      rw [hval]
      exact lt_min (nearest_pos hx) limit_pos
    · have hsub := unpacked_sub hu (canonical_rounded _ (neg_pos.mpr hx))
      refine ⟨hsub ▸ overflow_ne (rounded_ne _ _), iff_of_false ?_ ?_⟩
      · rw [val, hsub]
        exact not_lt.mpr (value_rounded_negative _)
      · exact not_lt.mpr (sub_neg.mp hx).le

theorem number_sub (ha : Scalar.isFinite a = true) (hb : Scalar.isNaN b = false) :
    Scalar.isNaN (a - b) = false := by
  rw [isNaN_eq_false] at hb ⊢
  cases hub : unpacked b with
  | notANumber => exact absurd hub hb
  | infinity t =>
      have hu : unpacked (a - b) = .infinity (-t) := by
        refine unpacked_sub (u := .infinity (-t)) ?_ trivial
        rcases forms_of_finite ha with ⟨s, hua⟩ | ⟨s, m, e, h, hua⟩ <;> rw [hua, hub] <;> rfl
      rw [hu]
      exact nofun
  | zero t => exact (sub_spec ha (by rw [isFinite_eq, hub]; rfl)).1
  | finite t n e h => exact (sub_spec ha (isFinite_of_finite hub)).1

theorem zero_lt_sub (ha : Scalar.isFinite a = true) (hb : Scalar.isFinite b = true) :
    Scalar.zero < a - b ↔ b < a := by
  obtain ⟨hnum, hpos⟩ := sub_spec ha hb
  have hanum := (isFinite_iff_val.mp ha).1
  have hbnum := (isFinite_iff_val.mp hb).1
  rw [zero_lt_iff, lt_iff_val, hpos]
  exact ⟨fun h => ⟨hbnum, hanum, h.2⟩, fun h => ⟨hnum, h.2.2⟩⟩

/-! ## Products and quotients -/

theorem mul_nonneg_of_pos (ha : Scalar.zero < a) (hb : Scalar.zero < b) : Scalar.zero ≤ a * b := by
  rcases forms_of_pos ha with hua | ⟨m, e, h, hua⟩
  · have hu : unpacked (a * b) = .infinity .positive := by
      refine unpacked_mul (u := .infinity .positive) ?_ trivial
      rcases forms_of_pos hb with hub | ⟨n, e', h', hub⟩ <;> rw [hua, hub] <;> rfl
    exact zero_le_iff.mpr ⟨hu ▸ nofun, by rw [val_infinity hu]; exact limit_pos.le⟩
  · exact mul_nonneg (isFinite_of_finite hua) ha (Scalar.le_of_lt hb)

theorem div_nonneg_of_isFinite (ha : Scalar.zero ≤ a) (hfin : Scalar.isFinite b = true)
    (hb : Scalar.zero < b) : Scalar.zero ≤ a / b := by
  obtain ⟨n, e', h', hub⟩ := form_of_pos hfin hb
  rcases forms_of_nonneg ha with hua | ⟨s, hua⟩ | ⟨m, e, h, hua⟩
  · have hu : unpacked (a / b) = .infinity .positive :=
      unpacked_div (u := .infinity .positive) (by rw [hua, hub]; rfl) trivial
    exact zero_le_iff.mpr ⟨hu ▸ nofun, by rw [val_infinity hu]; exact limit_pos.le⟩
  · exact zero_le_div (by rw [isFinite_eq, hua]; rfl) ha hb
  · exact zero_le_div (isFinite_of_finite hua) ha hb

/-! ## Counts -/

theorem val_ofNat_le {n : ℕ} (hn : n < 2 ^ 64) : val (Scalar.ofNat n) ≤ 2 ^ (64 : ℤ) := by
  rcases n.eq_zero_or_pos with rfl | hpos
  · exact val_zero.le.trans (two_zpow_pos _).le
  · have hx : (0 : ℚ) < n := by exact_mod_cast hpos
    rw [val, unpacked_ofNat hpos, value_rounded hx]
    calc min (nearest n) limit ≤ nearest n := min_le_left _ _
      _ ≤ nearest (2 ^ (64 : ℤ)) := nearest_mono hx.le (by exact_mod_cast hn.le)
      _ = 2 ^ (64 : ℤ) := nearest_two_zpow (by norm_num)

theorem zero_le_ofNat (n : ℕ) : Scalar.zero ≤ (Scalar.ofNat n : Float) := by
  refine zero_le_iff.mpr ⟨unpacked_ofNat_ne n, ?_⟩
  rcases n.eq_zero_or_pos with rfl | hpos
  · exact val_zero.ge
  · rw [val, unpacked_ofNat hpos, value_rounded (by exact_mod_cast hpos)]
    exact le_min (nearest_nonneg _) limit_pos.le

theorem isFinite_add_ofNat {m n : ℕ} (hm : m < 2 ^ 64) (hn : n < 2 ^ 64) (ha : Scalar.zero ≤ a)
    (hle : a ≤ Scalar.ofNat m) : Scalar.isFinite (a + Scalar.ofNat n) = true := by
  obtain ⟨-, -, hle⟩ := le_iff_val.mp hle
  have hm := val_ofNat_le hm
  have hn := val_ofNat_le hn
  obtain ⟨hnum, hval⟩ := add_spec ha (zero_le_ofNat n)
  have hsum : val a + val (Scalar.ofNat n) ≤ 2 ^ (65 : ℤ) := by
    have hdouble : (2 : ℚ) ^ (65 : ℤ) = 2 ^ (64 : ℤ) + 2 ^ (64 : ℤ) := by norm_num
    linarith
  have hnonneg : 0 ≤ val a + val (Scalar.ofNat n) := by
    have := val_nonneg ha
    have := val_nonneg (zero_le_ofNat n)
    linarith
  refine isFinite_iff_val.mpr ⟨hnum, ?_, ?_⟩ <;> rw [hval]
  · exact (neg_neg_of_pos limit_pos).trans_le (le_min (nearest_nonneg _) limit_pos.le)
  · calc min (nearest (val a + val (Scalar.ofNat n))) limit ≤ nearest (val a + val (Scalar.ofNat n)) :=
          min_le_left _ _
      _ ≤ nearest (2 ^ (65 : ℤ)) := nearest_mono hnonneg hsum
      _ = 2 ^ (65 : ℤ) := nearest_two_zpow (by norm_num)
      _ < limit := zpow_lt_zpow_right₀ one_lt_two (by norm_num)

end Double

instance : DifferenceScalar Float where
  number_sub := Double.number_sub
  zero_lt_sub := Double.zero_lt_sub
  mul_nonneg_of_pos := Double.mul_nonneg_of_pos
  div_nonneg_of_isFinite := Double.div_nonneg_of_isFinite
  zero_le_ofNat := Double.zero_le_ofNat
  isFinite_add_ofNat := Double.isFinite_add_ofNat

end Pacing

import Pacing.Proofs.Scalar.Double

/-!
# Sums and products that grow with their operands

Rounding keeps the order of sums and products of numbers that are not negative, and doubles that compare
equal are the same one unless both are zeros.
-/

namespace Pacing

open Scalar in
/-- A number system in which sums and products of numbers from zero on are monotone. -/
class MonotoneScalar (α : Type) [Scalar α] : Prop extends LawfulScalar α where
  eq_of_le_of_le {a b : α} : zero < a → a ≤ b → b ≤ a → a = b
  add_le_add {a b c d : α} : zero ≤ a → a ≤ b → zero ≤ c → c ≤ d → a + c ≤ b + d
  mul_nonneg {a b : α} : isFinite a = true → zero < a → zero ≤ b → zero ≤ a * b
  mul_le_mul_right {a b c : α} : isFinite b = true → zero < a → a ≤ b → zero ≤ c → a * c ≤ b * c

namespace Double

open Float.Model Float.Model.UnpackedFloat
open Format (binary64)

variable {a b c d : Float}

/-! ## Equal values -/

theorem finite_eq_of_magnitude_eq {s : Sign} {m n : ℕ} {e e' : ℤ} {h : 0 < m} {h' : 0 < n}
    (hu : Canonical (.finite s m e h)) (hv : Canonical (.finite s n e' h'))
    (heq : (m : ℚ) * 2 ^ e = n * 2 ^ e') :
    UnpackedFloat.finite s m e h = .finite s n e' h' := by
  have hcompare := compare_magnitudes hu hv
  rw [compare_eq_iff_eq.mpr heq, Ordering.then_eq_eq, compare_eq_iff_eq, compare_eq_iff_eq] at hcompare
  obtain ⟨rfl, rfl⟩ := hcompare
  rfl

theorem eq_of_unpacked_eq (h : unpacked a = unpacked b) : a = b := by
  cases a
  cases b
  exact congrArg Float.ofModel (unpack_injective h)

theorem eq_of_le_of_le (h : Scalar.zero < a) (hab : a ≤ b) (hba : b ≤ a) : a = b := by
  obtain ⟨-, hbnum, hle⟩ := le_iff_val.mp hab
  obtain ⟨-, -, hge⟩ := le_iff_val.mp hba
  have hval := le_antisymm hle hge
  have hb : Scalar.zero < b := zero_lt_iff.mpr ⟨hbnum, hval ▸ (zero_lt_iff.mp h).2⟩
  have hina := inRange_unpacked a
  have hinb := inRange_unpacked b
  refine eq_of_unpacked_eq ?_
  rcases forms_of_pos h with hua | ⟨m, e, hm, hua⟩ <;> rcases forms_of_pos hb with hub | ⟨n, e', hn, hub⟩
  · rw [hua, hub]
  · rw [val_infinity hua, ← magnitude_eq_val hub] at hval
    rw [hub] at hinb
    exact absurd hval hinb.magnitude_lt.ne'
  · rw [val_infinity hub, ← magnitude_eq_val hua] at hval
    rw [hua] at hina
    exact absurd hval hina.magnitude_lt.ne
  · rw [← magnitude_eq_val hua, ← magnitude_eq_val hub] at hval
    rw [hua] at hina ⊢
    rw [hub] at hinb ⊢
    exact finite_eq_of_magnitude_eq hina.canonical hinb.canonical hval

/-! ## Sums -/

theorem unpacked_add {u : UnpackedFloat} (h : UnpackedFloat.add binary64 (unpacked a) (unpacked b) = u)
    (hc : Canonical u) : unpacked (a + b) = overflow u := by
  subst h
  exact unpacked_pack hc

theorem nearest_limit : nearest limit = limit := nearest_two_zpow (by norm_num)

theorem val_nonneg (h : Scalar.zero ≤ a) : 0 ≤ val a := (zero_le_iff.mp h).2

/-- Rounding leaves a number as it is. -/
theorem min_nearest_val (h : Scalar.zero ≤ a) : min (nearest (val a)) limit = val a := by
  rcases forms_of_nonneg h with hu | ⟨s, hu⟩ | ⟨m, e, hm, hu⟩
  · rw [val_infinity hu, nearest_limit, min_self]
  · rw [(val_eq_zero hu).2, nearest_zero, min_eq_left limit_pos.le]
  · rw [nearest_val (isFinite_of_finite hu) h, min_eq_left (val_le_limit a)]

theorem min_nearest_of_limit_le {x : ℚ} (h : limit ≤ x) : min (nearest x) limit = limit :=
  min_eq_right (nearest_limit.symm.le.trans (nearest_mono limit_pos.le h))

theorem unpacked_add_of_eq {x : Float}
    (h : UnpackedFloat.add binary64 (unpacked a) (unpacked b) = unpacked x) : unpacked (a + b) = unpacked x :=
  (unpacked_add h (inRange_unpacked x).canonical).trans (inRange_unpacked x).overflow

/-- A sum is the exact one rounded, with the infinity in place of what is out of range. -/
theorem add_spec (ha : Scalar.zero ≤ a) (hb : Scalar.zero ≤ b) :
    unpacked (a + b) ≠ .notANumber ∧ val (a + b) = min (nearest (val a + val b)) limit := by
  have hapos := val_nonneg ha
  have hbpos := val_nonneg hb
  have hinfinity (hle : limit ≤ val a + val b)
      (h : UnpackedFloat.add binary64 (unpacked a) (unpacked b) = .infinity .positive) :
      unpacked (a + b) ≠ .notANumber ∧ val (a + b) = min (nearest (val a + val b)) limit := by
    have hu : unpacked (a + b) = .infinity .positive := unpacked_add h trivial
    exact ⟨hu ▸ nofun, by rw [val_infinity hu, min_nearest_of_limit_le hle]⟩
  have hsame {x : Float} (hx : Scalar.zero ≤ x) (hval : val a + val b = val x)
      (h : UnpackedFloat.add binary64 (unpacked a) (unpacked b) = unpacked x) :
      unpacked (a + b) ≠ .notANumber ∧ val (a + b) = min (nearest (val a + val b)) limit := by
    have hu := unpacked_add_of_eq h
    exact ⟨hu ▸ (zero_le_iff.mp hx).1, by rw [hval, min_nearest_val hx, val, hu]; rfl⟩
  rcases forms_of_nonneg ha with hua | ⟨s, hua⟩ | ⟨m, e, h, hua⟩
  · refine hinfinity (by rw [val_infinity hua]; linarith) ?_
    rcases forms_of_nonneg hb with hub | ⟨t, hub⟩ | ⟨n, e', h', hub⟩ <;> rw [hua, hub] <;> rfl
  · have hzero := (val_eq_zero hua).2
    rcases forms_of_nonneg hb with hub | ⟨t, hub⟩ | ⟨n, e', h', hub⟩
    · exact hinfinity (by rw [val_infinity hub]; linarith) (by rw [hua, hub]; rfl)
    · obtain ⟨r, hu⟩ : ∃ r, unpacked (a + b) = .zero r := by
        refine ⟨_, unpacked_add (u := .zero (if s == t then s else .positive)) ?_ trivial⟩
        rw [hua, hub]
        cases s <;> cases t <;> rfl
      rw [hzero, (val_eq_zero hub).2, add_zero, nearest_zero, min_eq_left limit_pos.le]
      exact val_eq_zero hu
    · exact hsame hb (by rw [hzero, zero_add]) (by rw [hua, hub]; rfl)
  · rcases forms_of_nonneg hb with hub | ⟨t, hub⟩ | ⟨n, e', h', hub⟩
    · exact hinfinity (by rw [val_infinity hub]; linarith) (by rw [hua, hub]; rfl)
    · exact hsame ha (by rw [(val_eq_zero hub).2, add_zero]) (by rw [hua, hub]; rfl)
    · have hx : 0 < val a + val b :=
        add_pos_of_pos_of_nonneg (magnitude_eq_val hua ▸ magnitude_pos h e) hbpos
      refine val_rounded hx (unpacked_add ?_ (canonical_rounded _ hx))
      rw [hua, hub, add_finite, magnitude_eq_val hua, magnitude_eq_val hub]

theorem add_le_add (ha : Scalar.zero ≤ a) (hab : a ≤ b) (hc : Scalar.zero ≤ c) (hcd : c ≤ d) :
    a + c ≤ b + d := by
  obtain ⟨-, hbnum, hab⟩ := le_iff_val.mp hab
  obtain ⟨-, hdnum, hcd⟩ := le_iff_val.mp hcd
  have hapos := val_nonneg ha
  have hcpos := val_nonneg hc
  obtain ⟨hnum, hval⟩ := add_spec ha hc
  obtain ⟨hnum', hval'⟩ :=
    add_spec (zero_le_iff.mpr ⟨hbnum, hapos.trans hab⟩) (zero_le_iff.mpr ⟨hdnum, hcpos.trans hcd⟩)
  refine le_iff_val.mpr ⟨hnum, hnum', ?_⟩
  rw [hval, hval']
  exact min_le_min_right _ (nearest_mono (by linarith) (by linarith))

/-! ## Products -/

/-- A product with a positive finite number is the exact one rounded. -/
theorem mul_spec (hfin : Scalar.isFinite a = true) (ha : Scalar.zero < a) (hb : Scalar.zero ≤ b) :
    unpacked (a * b) ≠ .notANumber ∧
      val (a * b) = if Scalar.isFinite b then min (nearest (val a * val b)) limit else limit := by
  obtain ⟨m, e, h, hua⟩ := form_of_pos hfin ha
  rcases forms_of_nonneg hb with hub | ⟨t, hub⟩ | ⟨n, e', h', hub⟩
  · have hu : unpacked (a * b) = .infinity .positive :=
      unpacked_mul (u := .infinity .positive) (by rw [hua, hub]; rfl) trivial
    rw [if_neg (not_isFinite_of_infinity hub)]
    exact ⟨hu ▸ nofun, val_infinity hu⟩
  · have hu : unpacked (a * b) = .zero (.positive * t) :=
      unpacked_mul (u := .zero _) (by rw [hua, hub]; rfl) trivial
    have hbfin : Scalar.isFinite b = true := by rw [isFinite_eq, hub]; rfl
    rw [if_pos hbfin, (val_eq_zero hub).2, mul_zero, nearest_zero, min_eq_left limit_pos.le]
    exact val_eq_zero hu
  · have hbfin := isFinite_of_finite hub
    have hbpos : 0 < val b := magnitude_eq_val hub ▸ magnitude_pos h' e'
    have hx : 0 < val a * val b := mul_pos (zero_lt_iff.mp ha).2 hbpos
    rw [if_pos hbfin]
    refine val_rounded hx (unpacked_mul ?_ (canonical_rounded _ hx))
    exact mul_eq hfin hbfin ha (zero_lt_iff.mpr ⟨(zero_le_iff.mp hb).1, hbpos⟩)

theorem mul_nonneg (hfin : Scalar.isFinite a = true) (ha : Scalar.zero < a) (hb : Scalar.zero ≤ b) :
    Scalar.zero ≤ a * b := by
  obtain ⟨hnum, hval⟩ := mul_spec hfin ha hb
  refine zero_le_iff.mpr ⟨hnum, ?_⟩
  rw [hval]
  split_ifs
  · exact le_min (nearest_nonneg _) limit_pos.le
  · exact limit_pos.le

theorem mul_le_mul_right (hfin : Scalar.isFinite b = true) (ha : Scalar.zero < a) (hab : a ≤ b)
    (hc : Scalar.zero ≤ c) : a * c ≤ b * c := by
  obtain ⟨hanum, hbnum, hle⟩ := le_iff_val.mp hab
  obtain ⟨-, hapos⟩ := zero_lt_iff.mp ha
  have hcpos := val_nonneg hc
  have hafin : Scalar.isFinite a = true := by
    obtain ⟨-, -, hlt⟩ := isFinite_iff_val.mp hfin
    exact isFinite_iff_val.mpr ⟨hanum, by linarith [limit_pos], hle.trans_lt hlt⟩
  obtain ⟨hnum, hval⟩ := mul_spec hafin ha hc
  obtain ⟨hnum', hval'⟩ := mul_spec hfin (zero_lt_iff.mpr ⟨hbnum, hapos.trans_le hle⟩) hc
  refine le_iff_val.mpr ⟨hnum, hnum', ?_⟩
  rw [hval, hval']
  split_ifs
  · exact min_le_min_right _
      (nearest_mono (by positivity) (mul_le_mul_of_nonneg_right hle hcpos))
  · exact le_rfl

end Double

instance : MonotoneScalar Float where
  eq_of_le_of_le := Double.eq_of_le_of_le
  add_le_add := Double.add_le_add
  mul_nonneg := Double.mul_nonneg
  mul_le_mul_right := Double.mul_le_mul_right

end Pacing

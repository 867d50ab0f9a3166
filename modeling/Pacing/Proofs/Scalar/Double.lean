import Pacing.Proofs.Double.Arithmetic
import Pacing.Proofs.Scalar.Lawful

/-!
# Doubles are lawful scalars
-/

namespace Pacing

open Float.Model Float.Model.UnpackedFloat
open Format (binary64)
open Double (limit nearest rounded overflow)

namespace Double

/-- A double taken apart. -/
def unpacked (x : Float) : UnpackedFloat := x.toModel.unpack

/-- The rational that a double stands for. -/
def val (x : Float) : ℚ := value (unpacked x)

variable {a b c : Float}

theorem inRange_unpacked (x : Float) : InRange (unpacked x) := inRange_unpack x.toModel

theorem isNaN_eq_false : Scalar.isNaN a = false ↔ unpacked a ≠ .notANumber := by
  change (unpacked a).isNaN = false ↔ _
  cases unpacked a with
  | notANumber => exact iff_of_false nofun (fun h => h rfl)
  | infinity s => exact iff_of_true rfl nofun
  | zero s => exact iff_of_true rfl nofun
  | finite s m e h => exact iff_of_true rfl nofun

theorem le_iff_val :
    a ≤ b ↔ unpacked a ≠ .notANumber ∧ unpacked b ≠ .notANumber ∧ val a ≤ val b := by
  rw [val, val, ← le_iff (inRange_unpacked a) (inRange_unpacked b)]
  change (decide (_ : Prop)) = true ↔ _
  rw [decide_eq_true_iff]
  rfl

theorem lt_iff_val :
    a < b ↔ unpacked a ≠ .notANumber ∧ unpacked b ≠ .notANumber ∧ val a < val b := by
  rw [val, val, ← lt_iff (inRange_unpacked a) (inRange_unpacked b)]
  change (decide (_ : Prop)) = true ↔ _
  rw [decide_eq_true_iff]
  rfl

theorem isFinite_iff_val :
    Scalar.isFinite a = true ↔ unpacked a ≠ .notANumber ∧ -limit < val a ∧ val a < limit :=
  isFinite_iff (inRange_unpacked a)

theorem unpacked_pack {u : UnpackedFloat} (h : Canonical u) :
    unpacked (.ofModel (.pack u)) = overflow u := unpack_pack h

/-! ## Counts -/

theorem unpacked_ofNat {n : ℕ} (h : 0 < n) :
    unpacked (Scalar.ofNat n) = overflow (rounded .positive n) := by
  have hx : (0 : ℚ) < n := by exact_mod_cast h
  rw [← unpacked_pack (canonical_rounded .positive hx), ← ofNat_eq h]
  rfl

theorem unpacked_zero : unpacked Scalar.zero = .zero .positive :=
  unpacked_pack (u := .zero .positive) trivial

theorem val_zero : val Scalar.zero = 0 := by
  rw [val, unpacked_zero]; rfl

theorem natCast_lt_limit {n : ℕ} (hn : n < 2 ^ 53) : (n : ℚ) < limit := by
  have h : (n : ℚ) < 2 ^ (53 : ℤ) := by exact_mod_cast hn
  exact h.trans_le (zpow_le_zpow_right₀ one_le_two (by norm_num))

theorem val_ofNat {n : ℕ} (hn : n < 2 ^ 53) : val (Scalar.ofNat n) = n := by
  rcases n.eq_zero_or_pos with rfl | hpos
  · exact_mod_cast val_zero
  · have hx : (0 : ℚ) < n := by exact_mod_cast hpos
    have hself : nearest (n : ℚ) = n := by
      simpa using nearest_eq_self (e := 0) hn (by norm_num)
    rw [val, unpacked_ofNat hpos, value_rounded hx, hself, min_eq_left (natCast_lt_limit hn).le]

theorem unpacked_ofNat_ne (n : ℕ) : unpacked (Scalar.ofNat n) ≠ .notANumber := by
  rcases n.eq_zero_or_pos with rfl | hpos
  · exact unpacked_zero ▸ nofun
  · rw [unpacked_ofNat hpos]
    exact overflow_ne (rounded_ne _ _)

/-! ## Numbers that are not negative -/

theorem zero_le_iff : Scalar.zero ≤ a ↔ unpacked a ≠ .notANumber ∧ 0 ≤ val a := by
  rw [le_iff_val, val_zero, unpacked_zero]
  simp

theorem zero_lt_iff : Scalar.zero < a ↔ unpacked a ≠ .notANumber ∧ 0 < val a := by
  rw [lt_iff_val, val_zero, unpacked_zero]
  simp

theorem isFinite_eq : Scalar.isFinite a = (unpacked a).isFinite := rfl

theorem isFinite_of_finite {s : Sign} {m : ℕ} {e : ℤ} {h : 0 < m} (hu : unpacked a = .finite s m e h) :
    Scalar.isFinite a = true := by
  rw [isFinite_eq, hu]; rfl

theorem not_isFinite_of_infinity {s : Sign} (hu : unpacked a = .infinity s) :
    ¬ Scalar.isFinite a = true := by
  rw [isFinite_eq, hu]; exact Bool.false_ne_true

theorem val_eq_zero {s : Sign} (h : unpacked a = .zero s) : unpacked a ≠ .notANumber ∧ val a = 0 :=
  ⟨h ▸ nofun, by rw [val, h]; rfl⟩

theorem val_infinity (h : unpacked a = .infinity .positive) : val a = limit := by
  rw [val, h]; rfl

theorem magnitude_eq_val {m : ℕ} {e : ℤ} {h : 0 < m} (ha : unpacked a = .finite .positive m e h) :
    (m : ℚ) * 2 ^ e = val a := by
  rw [val, ha]; rfl

/-- The forms of a number that is not negative. -/
theorem forms_of_nonneg (h : Scalar.zero ≤ a) :
    unpacked a = .infinity .positive ∨ (∃ s, unpacked a = .zero s) ∨
      ∃ m e h, unpacked a = .finite .positive m e h := by
  obtain ⟨hnum, hpos⟩ := zero_le_iff.mp h
  unfold val at hpos
  cases hu : unpacked a with
  | notANumber => exact absurd hu hnum
  | zero s => exact .inr (.inl ⟨s, rfl⟩)
  | infinity s =>
      cases s with
      | positive => exact .inl rfl
      | negative =>
          rw [hu] at hpos
          exact absurd hpos (not_le.mpr (neg_neg_of_pos limit_pos))
  | finite s m e h =>
      cases s with
      | positive => exact .inr (.inr ⟨m, e, h, rfl⟩)
      | negative =>
          rw [hu] at hpos
          exact absurd hpos (not_le.mpr value_negative_neg)

theorem forms_of_isFinite (hfin : Scalar.isFinite a = true) (h : Scalar.zero ≤ a) :
    (∃ s, unpacked a = .zero s) ∨ ∃ m e h, unpacked a = .finite .positive m e h :=
  (forms_of_nonneg h).resolve_left fun hu => not_isFinite_of_infinity hu hfin

theorem forms_of_pos (h : Scalar.zero < a) :
    unpacked a = .infinity .positive ∨ ∃ m e h, unpacked a = .finite .positive m e h := by
  obtain ⟨hnum, hpos⟩ := zero_lt_iff.mp h
  rcases forms_of_nonneg (zero_le_iff.mpr ⟨hnum, hpos.le⟩) with hu | ⟨s, hu⟩ | hu
  · exact .inl hu
  · exact absurd (val_eq_zero hu).2 hpos.ne'
  · exact .inr hu

theorem form_of_pos (hfin : Scalar.isFinite a = true) (h : Scalar.zero < a) :
    ∃ m e h, unpacked a = .finite .positive m e h :=
  (forms_of_pos h).resolve_left fun hu => not_isFinite_of_infinity hu hfin

theorem val_rounded {x : ℚ} (hx : 0 < x) (h : unpacked a = overflow (rounded .positive x)) :
    unpacked a ≠ .notANumber ∧ val a = min (nearest x) limit :=
  ⟨h ▸ overflow_ne (rounded_ne _ _), by rw [val, h, value_rounded hx]⟩

/-! ## Quotients -/

theorem unpacked_div {u : UnpackedFloat} (h : UnpackedFloat.div binary64 (unpacked a) (unpacked b) = u)
    (hc : Canonical u) : unpacked (a / b) = overflow u := by
  subst h
  exact unpacked_pack hc

theorem unpacked_div_infinity (hfin : Scalar.isFinite a = true) (ha : Scalar.zero ≤ a)
    (hb : unpacked b = .infinity .positive) : ∃ s, unpacked (a / b) = .zero s := by
  rcases forms_of_isFinite hfin ha with ⟨s, hua⟩ | ⟨m, e, h, hua⟩
  · exact ⟨s / .positive, unpacked_div (u := .zero _) (by rw [hua, hb]; rfl) trivial⟩
  · exact ⟨.positive, unpacked_div (u := .zero _) (by rw [hua, hb]; rfl) trivial⟩

theorem div_finite_spec (hafin : Scalar.isFinite a = true) (ha : Scalar.zero ≤ a)
    (hbfin : Scalar.isFinite b = true) (hb : Scalar.zero < b) :
    unpacked (a / b) ≠ .notANumber ∧ val (a / b) = min (nearest (val a / val b)) limit := by
  obtain ⟨n, e', h', hub⟩ := form_of_pos hbfin hb
  rcases forms_of_isFinite hafin ha with ⟨s, hua⟩ | ⟨m, e, h, hua⟩
  · have hu : unpacked (a / b) = .zero (s / .positive) :=
      unpacked_div (u := .zero _) (by rw [hua, hub]; rfl) trivial
    rw [(val_eq_zero hua).2, zero_div, nearest_zero, min_eq_left limit_pos.le]
    exact val_eq_zero hu
  · have hx : 0 < val a / val b :=
      div_pos (magnitude_eq_val hua ▸ magnitude_pos h e) (zero_lt_iff.mp hb).2
    refine val_rounded hx (unpacked_div ?_ (canonical_rounded _ hx))
    rw [hua, hub, div_finite, magnitude_eq_val hua, magnitude_eq_val hub]
    rfl

/-- A quotient by an infinity is zero, and any other is the exact one rounded. -/
theorem div_spec (hfin : Scalar.isFinite a = true) (ha : Scalar.zero ≤ a) (hb : Scalar.zero < b) :
    unpacked (a / b) ≠ .notANumber ∧
      val (a / b) = if Scalar.isFinite b then min (nearest (val a / val b)) limit else 0 := by
  rcases forms_of_pos hb with hub | ⟨n, e', h', hub⟩
  · rw [if_neg (not_isFinite_of_infinity hub)]
    obtain ⟨s, hu⟩ := unpacked_div_infinity hfin ha hub
    exact val_eq_zero hu
  · rw [if_pos (isFinite_of_finite hub)]
    exact div_finite_spec hfin ha (isFinite_of_finite hub) hb

theorem zero_le_div (hfin : Scalar.isFinite a = true) (ha : Scalar.zero ≤ a) (hb : Scalar.zero < b) :
    Scalar.zero ≤ a / b := by
  obtain ⟨hnum, hval⟩ := div_spec hfin ha hb
  refine zero_le_iff.mpr ⟨hnum, ?_⟩
  rw [hval]
  split_ifs
  · exact le_min (nearest_nonneg _) limit_pos.le
  · exact le_rfl

theorem div_antitone (hfin : Scalar.isFinite a = true) (ha : Scalar.zero ≤ a) (hb : Scalar.zero < b)
    (hbc : b ≤ c) : a / c ≤ a / b := by
  obtain ⟨hbnum, hcnum, hle⟩ := le_iff_val.mp hbc
  obtain ⟨-, hbpos⟩ := zero_lt_iff.mp hb
  obtain ⟨-, hapos⟩ := zero_le_iff.mp ha
  obtain ⟨hnum, hval⟩ := div_spec hfin ha hb
  obtain ⟨hnum', hval'⟩ := div_spec hfin ha (zero_lt_iff.mpr ⟨hcnum, hbpos.trans_le hle⟩)
  refine le_iff_val.mpr ⟨hnum', hnum, ?_⟩
  rw [hval, hval']
  by_cases hc : Scalar.isFinite c = true
  · have hb : Scalar.isFinite b = true := by
      obtain ⟨-, -, hc⟩ := isFinite_iff_val.mp hc
      exact isFinite_iff_val.mpr ⟨hbnum, by linarith [limit_pos], hle.trans_lt hc⟩
    rw [if_pos hc, if_pos hb]
    have hcpos : 0 ≤ val c := hbpos.le.trans hle
    exact min_le_min_right _
      (nearest_mono (by positivity) (div_le_div_of_nonneg_left hapos hbpos hle))
  · rw [if_neg hc]
    split_ifs
    · exact le_min (nearest_nonneg _) limit_pos.le
    · exact le_rfl

theorem one_le_iff : Scalar.one ≤ a ↔ unpacked a ≠ .notANumber ∧ 1 ≤ val a := by
  have h1 : val (Scalar.one : Float) = 1 := by exact_mod_cast val_ofNat (n := 1) (by norm_num)
  rw [le_iff_val, h1]
  exact and_iff_right (unpacked_ofNat_ne 1)

theorem nearest_val (hfin : Scalar.isFinite a = true) (ha : Scalar.zero ≤ a) :
    nearest (val a) = val a := by
  have hc := (inRange_unpacked a).canonical
  rcases forms_of_isFinite hfin ha with ⟨s, hua⟩ | ⟨m, e, h, hua⟩
  · rw [(val_eq_zero hua).2, nearest_zero]
  · rw [hua] at hc
    rw [← magnitude_eq_val hua]
    exact nearest_eq_self hc.1 hc.2.1

theorem div_le_self (hfin : Scalar.isFinite a = true) (ha : Scalar.zero ≤ a) (hb : Scalar.one ≤ b) :
    a / b ≤ a := by
  obtain ⟨hbnum, hb⟩ := one_le_iff.mp hb
  obtain ⟨hanum, hapos⟩ := zero_le_iff.mp ha
  obtain ⟨hnum, hval⟩ := div_spec hfin ha (zero_lt_iff.mpr ⟨hbnum, zero_lt_one.trans_le hb⟩)
  refine le_iff_val.mpr ⟨hnum, hanum, ?_⟩
  rw [hval]
  split_ifs
  · refine (min_le_left _ _).trans ?_
    calc nearest (val a / val b) ≤ nearest (val a) :=
          nearest_mono (by positivity) (div_le_of_le_mul₀ (by linarith) hapos (by nlinarith))
      _ = val a := nearest_val hfin ha
  · exact hapos

/-- Not even the greatest divisor takes a number from one on below the finest step. -/
theorem zero_lt_div (hbfin : Scalar.isFinite b = true) (ha : Scalar.one ≤ a)
    (hfin : Scalar.isFinite a = true) (hb : Scalar.zero < b) : Scalar.zero < a / b := by
  obtain ⟨hanum, ha⟩ := one_le_iff.mp ha
  obtain ⟨hbnum, hbpos⟩ := zero_lt_iff.mp hb
  obtain ⟨hnum, hval⟩ :=
    div_finite_spec hfin (zero_le_iff.mpr ⟨hanum, zero_le_one.trans ha⟩) hbfin hb
  refine zero_lt_iff.mpr ⟨hnum, ?_⟩
  rw [hval]
  refine lt_min ?_ limit_pos
  obtain ⟨-, -, hlt⟩ := isFinite_iff_val.mp hbfin
  have hlow : (1 : ℕ) * (2 : ℚ) ^ (-1024 : ℤ) ≤ val a / val b := by
    rw [le_div_iff₀ hbpos]
    calc ((1 : ℕ) : ℚ) * 2 ^ (-1024 : ℤ) * val b ≤ (1 : ℕ) * 2 ^ (-1024 : ℤ) * limit := by
          exact mul_le_mul_of_nonneg_left hlt.le (by positivity)
      _ = 1 := by rw [limit, mul_assoc, ← zpow_add₀ two_ne_zero]; norm_num
      _ ≤ val a := ha
  have hstep := nearest_mono (by positivity) hlow
  rw [nearest_eq_self (by norm_num) (by norm_num)] at hstep
  exact lt_of_lt_of_le (by positivity) hstep

/-! ## Products -/

theorem unpacked_mul {u : UnpackedFloat} (h : UnpackedFloat.mul binary64 (unpacked a) (unpacked b) = u)
    (hc : Canonical u) : unpacked (a * b) = overflow u := by
  subst h
  exact unpacked_pack hc

theorem mul_eq (hafin : Scalar.isFinite a = true) (hbfin : Scalar.isFinite b = true)
    (ha : Scalar.zero < a) (hb : Scalar.zero < b) :
    UnpackedFloat.mul binary64 (unpacked a) (unpacked b) = rounded .positive (val a * val b) := by
  obtain ⟨m, e, h, hua⟩ := form_of_pos hafin ha
  obtain ⟨n, e', h', hub⟩ := form_of_pos hbfin hb
  have hca := (inRange_unpacked a).canonical
  have hcb := (inRange_unpacked b).canonical
  rw [hua] at hca
  rw [hub] at hcb
  rw [← magnitude_eq_val hua, ← magnitude_eq_val hub, hua, hub, mul_finite hca hcb]
  rfl

theorem isFinite_ofNat {n : ℕ} (hn : n < 2 ^ 53) : Scalar.isFinite (Scalar.ofNat n : Float) = true := by
  refine isFinite_iff_val.mpr ⟨unpacked_ofNat_ne n, ?_⟩
  rw [val_ofNat hn]
  refine ⟨?_, natCast_lt_limit hn⟩
  linarith [limit_pos, (n.cast_nonneg : (0 : ℚ) ≤ n)]

theorem ofNat_mul_ofNat {m n : ℕ} (hm : 0 < m) (hn : 0 < n) (h : m * n < 2 ^ 53) :
    (Scalar.ofNat m * Scalar.ofNat n : Float) = Scalar.ofNat (m * n) := by
  have hm' : m < 2 ^ 53 := (Nat.le_mul_of_pos_right m hn).trans_lt h
  have hn' : n < 2 ^ 53 := (Nat.le_mul_of_pos_left n hm).trans_lt h
  have hpos : ∀ k, 0 < k → k < 2 ^ 53 → Scalar.zero < (Scalar.ofNat k : Float) := fun k hk hk' =>
    zero_lt_iff.mpr ⟨unpacked_ofNat_ne k, by rw [val_ofNat hk']; exact_mod_cast hk⟩
  have hmul := mul_eq (isFinite_ofNat hm') (isFinite_ofNat hn') (hpos m hm hm') (hpos n hn hn')
  rw [val_ofNat hm', val_ofNat hn', ← Nat.cast_mul, ← ofNat_eq (Nat.mul_pos hm hn)] at hmul
  exact congrArg (fun u => Float.ofModel (.pack u)) hmul

theorem unpacked_mul_infinity (ha : Scalar.zero ≤ a) (hb : unpacked b = .infinity .positive)
    (hab : unpacked (a * b) ≠ .notANumber) : unpacked (a * b) = .infinity .positive := by
  rcases forms_of_nonneg ha with hua | ⟨s, hua⟩ | ⟨m, e, h, hua⟩
  · exact unpacked_mul (u := .infinity .positive) (by rw [hua, hb]; rfl) trivial
  · exact absurd (unpacked_mul (u := .notANumber) (by rw [hua, hb]; rfl) trivial) hab
  · exact unpacked_mul (u := .infinity .positive) (by rw [hua, hb]; rfl) trivial

theorem val_le_limit (a : Float) : val a ≤ limit := by
  have hin := inRange_unpacked a
  unfold val
  cases hu : unpacked a with
  | notANumber => exact limit_pos.le
  | zero s => exact limit_pos.le
  | infinity s =>
      cases s with
      | positive => exact le_rfl
      | negative => exact (neg_lt_self limit_pos).le
  | finite s m e h => exact (abs_lt.mp (hu ▸ hin).abs_value_lt).2.le

theorem le_mul (ha : Scalar.zero ≤ a) (hb : Scalar.one ≤ b) (hab : Scalar.isNaN (a * b) = false) :
    a ≤ a * b := by
  obtain ⟨hbnum, hbone⟩ := one_le_iff.mp hb
  obtain ⟨hanum, hapos⟩ := zero_le_iff.mp ha
  rw [isNaN_eq_false] at hab
  refine le_iff_val.mpr ⟨hanum, hab, ?_⟩
  have hb : Scalar.zero < b := zero_lt_iff.mpr ⟨hbnum, zero_lt_one.trans_le hbone⟩
  rcases forms_of_pos hb with hub | ⟨n, e', h', hub⟩
  · rw [val_infinity (unpacked_mul_infinity ha hub hab)]
    exact val_le_limit a
  rcases forms_of_nonneg ha with hua | ⟨s, hua⟩ | ⟨m, e, h, hua⟩
  · have hu : unpacked (a * b) = .infinity .positive :=
      unpacked_mul (u := .infinity .positive) (by rw [hua, hub]; rfl) trivial
    rw [val_infinity hu]
    exact val_le_limit a
  · have hu : unpacked (a * b) = .zero (s * .positive) :=
      unpacked_mul (u := .zero _) (by rw [hua, hub]; rfl) trivial
    rw [(val_eq_zero hua).2, (val_eq_zero hu).2]
  · have hafin := isFinite_of_finite hua
    have hpos : 0 < val a := magnitude_eq_val hua ▸ magnitude_pos h e
    have hx : 0 < val a * val b := mul_pos hpos (by linarith)
    have hu : unpacked (a * b) = overflow (rounded .positive (val a * val b)) :=
      unpacked_mul (mul_eq hafin (isFinite_of_finite hub) (zero_lt_iff.mpr ⟨hanum, hpos⟩) hb)
        (canonical_rounded _ hx)
    rw [(val_rounded hx hu).2]
    refine le_min ?_ (val_le_limit a)
    calc val a = nearest (val a) := (nearest_val hafin ha).symm
      _ ≤ nearest (val a * val b) := nearest_mono hapos (by nlinarith)

/-! ## Truncation -/

theorem le_truncate {n : ℕ} (hn : n < 2 ^ 32) (h : Scalar.ofNat n ≤ a) :
    n ≤ (Scalar.truncate a).toNat := by
  obtain ⟨-, hnum, hle⟩ := le_iff_val.mp h
  rw [val_ofNat (hn.trans (by norm_num))] at hle
  have hint : n ≤ ((unpacked a).toInt 0 (UInt32.size - 1)).toNat := by
    rcases forms_of_nonneg (zero_le_iff.mpr ⟨hnum, n.cast_nonneg.trans hle⟩) with
      hu | ⟨s, hu⟩ | ⟨m, e, h, hu⟩
    · rw [hu]
      exact Nat.le_of_lt_succ hn
    · rw [(val_eq_zero hu).2] at hle
      have h0 : n = 0 := by exact_mod_cast le_antisymm hle n.cast_nonneg
      rw [h0]
      exact Nat.zero_le _
    · rw [hu]
      change n ≤ (roundToInt .positive m e).toNat
      rw [roundToInt_eq, magnitude_eq_val hu, Int.toNat_natCast]
      exact Nat.le_floor hle
  change n ≤ (UInt32.ofNatClamp _).toNat
  unfold UInt32.ofNatClamp
  split
  · rw [UInt32.toNat_ofNatLT]
    exact hint
  · rw [UInt32.toNat_ofNatLT]
    exact Nat.le_of_lt_succ hn

end Double

instance : LawfulScalar Float where
  number_left h := Double.isNaN_eq_false.mpr (Double.le_iff_val.mp h).1
  number_right h := Double.isNaN_eq_false.mpr (Double.le_iff_val.mp h).2.1
  le_trans hab hbc := by
    obtain ⟨ha, _, hab⟩ := Double.le_iff_val.mp hab
    obtain ⟨_, hc, hbc⟩ := Double.le_iff_val.mp hbc
    exact Double.le_iff_val.mpr ⟨ha, hc, hab.trans hbc⟩
  le_total {a b} ha hb := by
    rw [Double.isNaN_eq_false] at ha hb
    rw [Double.le_iff_val, Double.le_iff_val]
    rcases le_total (Double.val a) (Double.val b) with h | h
    · exact .inl ⟨ha, hb, h⟩
    · exact .inr ⟨hb, ha, h⟩
  lt_iff_le_not_ge := by
    intro a b
    rw [Double.lt_iff_val, Double.le_iff_val, Double.le_iff_val]
    constructor
    · rintro ⟨ha, hb, h⟩
      exact ⟨⟨ha, hb, h.le⟩, fun h' => not_le.mpr h h'.2.2⟩
    · rintro ⟨⟨ha, hb, h⟩, h'⟩
      exact ⟨ha, hb, lt_of_not_ge fun hge => h' ⟨hb, ha, hge⟩⟩
  number_of_isFinite h := Double.isNaN_eq_false.mpr (Double.isFinite_iff_val.mp h).1
  isFinite_of_le_of_le := by
    intro a b c ha hc hab hbc
    obtain ⟨-, hlow, -⟩ := Double.isFinite_iff_val.mp ha
    obtain ⟨-, -, hhigh⟩ := Double.isFinite_iff_val.mp hc
    obtain ⟨-, hb, hab⟩ := Double.le_iff_val.mp hab
    obtain ⟨-, -, hbc⟩ := Double.le_iff_val.mp hbc
    exact Double.isFinite_iff_val.mpr ⟨hb, hlow.trans_le hab, hbc.trans_lt hhigh⟩
  isFinite_ofNat := Double.isFinite_ofNat
  ofNat_le_ofNat {m n} hm hn := by
    rw [Double.le_iff_val, Double.val_ofNat hm, Double.val_ofNat hn]
    exact ⟨fun h => by exact_mod_cast h.2.2, fun h =>
      ⟨Double.unpacked_ofNat_ne m, Double.unpacked_ofNat_ne n, by exact_mod_cast h⟩⟩
  ofNat_mul_ofNat := Double.ofNat_mul_ofNat
  le_mul := Double.le_mul
  div_nonneg := Double.zero_le_div
  div_pos := Double.zero_lt_div
  div_le_self := Double.div_le_self
  div_le_div_left := Double.div_antitone
  le_truncate := Double.le_truncate

end Pacing

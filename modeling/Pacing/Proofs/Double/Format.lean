import Pacing.Proofs.Double.Rounding

/-!
# Doubles unpacked

Every double unpacks to a canonical form, packing loses nothing but overflow, and doubles compare as the
rationals that they stand for. An infinity stands for the first power of two out of range.
-/

namespace Pacing.Double

open Float.Model Float.Model.UnpackedFloat
open Format (binary64)

/-- The mantissa is as long as 53 bits and the finest step allow. -/
def Canonical : UnpackedFloat → Prop
  | .finite _ m e _ => m < 2 ^ 53 ∧ -1074 ≤ e ∧ (2 ^ 52 ≤ m ∨ e = -1074)
  | _ => True

/-- What is out of range becomes infinite. -/
def overflow : UnpackedFloat → UnpackedFloat
  | .finite s m e h => if 972 ≤ e then .infinity s else .finite s m e h
  | u => u

theorem overflow_of_le {s : Sign} {m : ℕ} {e : ℤ} {h : 0 < m} (he : 972 ≤ e) :
    overflow (.finite s m e h) = .infinity s := if_pos he

theorem overflow_of_lt {s : Sign} {m : ℕ} {e : ℤ} {h : 0 < m} (he : e < 972) :
    overflow (.finite s m e h) = .finite s m e h := if_neg he.not_ge

/-! ## Packing -/

@[simp] theorem unpackSign_packComponents {spec : Format} (s : Sign) (e : BitVec spec.exponentBits)
    (m : BitVec spec.mantissaBitsWithoutImplicit) :
    Sign.ofBitVec (unpackSign (packComponents spec s e m)) = s := by
  have h : unpackSign (packComponents spec s e m) = s.toBitVec := by
    ext i hi
    obtain rfl : i = 0 := by omega
    change (BitVec.cast _ (BitVec.extractLsb _ _ (s.toBitVec ++ e ++ m)))[0] = _
    simp [BitVec.getLsbD_append, BitVec.getElem_append]
  rw [h]
  cases s <;> rfl

theorem unpack_packInfinity (s : Sign) : unpack binary64 (packedInfinity binary64 s) = .infinity s := by
  cases s <;> rfl

theorem toNat_implicitBit (v : BitVec 52) : (1#1 ++ v).toNat = 2 ^ 52 + v.toNat := by
  rw [BitVec.toNat_append, ← Nat.shiftLeft_add_eq_or_of_lt v.isLt]
  rfl

theorem unpack_normal {w : BitVec binary64.numBits} {s : Sign} {m : ℕ} {e : ℤ} {h : 0 < m}
    (hs : Sign.ofBitVec (unpackSign w) = s) (hb : unpackExponent w ≠ -1#11) (hb' : unpackExponent w ≠ 0#11)
    (hm : 2 ^ 52 + (unpackMantissa w).toNat = m) (he : (unpackExponent w).toNat - 1075 = e) :
    unpack binary64 w = .finite s m e h := by
  unfold UnpackedFloat.unpack
  dsimp only
  rw [if_neg hb, if_neg hb', UnpackedFloat.finite.injEq]
  exact ⟨hs, (toNat_implicitBit _).trans hm, he⟩

theorem unpack_subnormal {w : BitVec binary64.numBits} {s : Sign} {m : ℕ} {h : 0 < m}
    (hs : Sign.ofBitVec (unpackSign w) = s) (hb : unpackExponent w = 0#11)
    (hm : (unpackMantissa w).toNat = m) : unpack binary64 w = .finite s m (-1074) h := by
  have hne : unpackMantissa w ≠ 0#52 := by
    rintro h0
    rw [h0] at hm
    exact h.ne hm
  unfold UnpackedFloat.unpack
  dsimp only
  rw [if_neg (hb ▸ by decide), if_pos hb, dif_neg hne, UnpackedFloat.finite.injEq, hb]
  exact ⟨hs, hm, rfl⟩

theorem unpack_packComponents_normal {s : Sign} {b m : ℕ} {e : ℤ} {h : 0 < m} (hb : 0 < b) (hb' : b < 2047)
    (hlow : 2 ^ 52 ≤ m) (hhigh : m < 2 ^ 53) (he : b - 1075 = e) :
    unpack binary64 (packComponents binary64 s (.ofNat 11 b) (.ofNat 52 m)) = .finite s m e h := by
  have hexp : (BitVec.ofNat 11 b).toNat = b := by
    rw [BitVec.toNat_ofNat, Nat.mod_eq_of_lt (by omega)]
  have hexponent := @unpackExponent_packComponents binary64 s (.ofNat 11 b) (.ofNat 52 m)
  have hmantissa := @unpackMantissa_packComponents binary64 s (.ofNat 11 b) (.ofNat 52 m)
  refine unpack_normal (unpackSign_packComponents ..) ?_ ?_ ?_ ?_
  · rw [hexponent, ne_eq, ← BitVec.toNat_inj, hexp]
    exact hb'.ne
  · rw [hexponent, ne_eq, ← BitVec.toNat_inj, hexp]
    exact hb.ne'
  · rw [hmantissa, BitVec.toNat_ofNat]
    change 2 ^ 52 + m % 2 ^ 52 = m
    omega
  · rw [hexponent, hexp]
    exact he

theorem unpack_packComponents_subnormal {s : Sign} {m : ℕ} {h : 0 < m} (hhigh : m < 2 ^ 52) :
    unpack binary64 (packComponents binary64 s 0#11 (.ofNat 52 m)) = .finite s m (-1074) h := by
  have hmantissa := @unpackMantissa_packComponents binary64 s 0#11 (.ofNat 52 m)
  refine unpack_subnormal (unpackSign_packComponents ..) (unpackExponent_packComponents ..) ?_
  rw [hmantissa, BitVec.toNat_ofNat, Nat.mod_eq_of_lt hhigh]

theorem pack_normal {s : Sign} {m : ℕ} {e : ℤ} {h : 0 < m} (hlow : 2 ^ 52 ≤ m) (hm : m < 2 ^ 53)
    (he : e < 972) : UnpackedFloat.pack binary64 (.finite s m e h) =
      packComponents binary64 s (.ofNat 11 (e + 1075).toNat) (.ofNat 52 m) := by
  have hbias : e + ((Format.exponentBias binary64 : ℕ) : ℤ) + ((52 : ℕ) : ℤ) = e + 1075 := by
    rw [add_assoc]; rfl
  have hlog : m.log2 + 1 = binary64.mantissaBits := by
    change m.log2 + 1 = 53
    have h1 := (Nat.le_log2 h.ne').mpr hlow
    have h2 := (Nat.log2_lt h.ne').mpr hm
    omega
  dsimp only [UnpackedFloat.pack]
  rw [hbias, if_neg (by omega), if_pos hlog]

theorem pack_subnormal {s : Sign} {m : ℕ} {h : 0 < m} (hm : m < 2 ^ 52) :
    UnpackedFloat.pack binary64 (.finite s m (-1074) h) = packComponents binary64 s 0#11 (.ofNat 52 m) := by
  have hlog : m.log2 + 1 ≠ binary64.mantissaBits := by
    change m.log2 + 1 ≠ 53
    have := (Nat.log2_lt h.ne').mpr hm
    omega
  dsimp only [UnpackedFloat.pack]
  rw [if_neg (by decide), if_neg hlog]

theorem unpack_pack_finite {s : Sign} {m : ℕ} {e : ℤ} {h : 0 < m} (hc : Canonical (.finite s m e h)) :
    unpack binary64 (UnpackedFloat.pack binary64 (.finite s m e h)) = overflow (.finite s m e h) := by
  obtain ⟨hm, he, hn⟩ := hc
  by_cases hover : 972 ≤ e
  · have hbias : e + ((Format.exponentBias binary64 : ℕ) : ℤ) + ((52 : ℕ) : ℤ) = e + 1075 := by
      rw [add_assoc]; rfl
    dsimp only [UnpackedFloat.pack]
    rw [hbias, overflow_of_le hover, if_pos (by omega), unpack_packInfinity]
  · rw [overflow_of_lt (not_le.mp hover)]
    by_cases hlow : 2 ^ 52 ≤ m
    · rw [pack_normal hlow hm (not_le.mp hover)]
      exact unpack_packComponents_normal (by omega) (by omega) hlow hm (by omega)
    · obtain rfl := hn.resolve_left hlow
      rw [pack_subnormal (not_le.mp hlow), unpack_packComponents_subnormal (not_le.mp hlow)]

theorem unpack_pack {u : UnpackedFloat} (h : Canonical u) :
    (Float.Model.pack u).unpack = overflow u := by
  cases u with
  | finite s m e hm => exact unpack_pack_finite h
  | infinity s => cases s <;> rfl
  | notANumber => rfl
  | zero s => cases s <;> rfl

/-! ## Unpacking -/

/-- What a double unpacks to: a canonical form that is in range. -/
structure InRange (u : UnpackedFloat) : Prop where
  canonical : Canonical u
  overflow : overflow u = u

theorem inRange_finite {s : Sign} {m : ℕ} {e : ℤ} {h : 0 < m} (hm : m < 2 ^ 53) (he : -1074 ≤ e)
    (he' : e < 972) (hn : 2 ^ 52 ≤ m ∨ e = -1074) : InRange (.finite s m e h) :=
  ⟨⟨hm, he, hn⟩, overflow_of_lt he'⟩

theorem inRange_unpack (x : Float.Model) : InRange x.unpack := by
  unfold Float.Model.unpack UnpackedFloat.unpack
  dsimp only
  generalize x.toBits.toBitVec = w
  have he : (@unpackExponent binary64 w).toNat < 2 ^ 11 := BitVec.isLt _
  have hm : (@unpackMantissa binary64 w).toNat < 2 ^ 52 := BitVec.isLt _
  have hbias : ((Format.exponentBias binary64 : ℕ) : ℤ) + ((52 : ℕ) : ℤ) = 1075 := rfl
  rw [hbias]
  by_cases h1 : @unpackExponent binary64 w = -1#11
  · rw [if_pos h1]
    by_cases h2 : @unpackMantissa binary64 w = 0#52
    · rw [if_pos h2]
      exact ⟨trivial, rfl⟩
    · rw [if_neg h2]
      exact ⟨trivial, rfl⟩
  rw [if_neg h1]
  by_cases h3 : @unpackExponent binary64 w = 0#11
  · rw [if_pos h3]
    by_cases h4 : @unpackMantissa binary64 w = 0#52
    · rw [dif_pos h4]
      exact ⟨trivial, rfl⟩
    · rw [dif_neg h4, h3]
      exact inRange_finite (hm.trans (by decide)) (by decide) (by decide) (.inr rfl)
  · rw [if_neg h3]
    have h5 : (@unpackExponent binary64 w).toNat ≠ 2047 := by
      intro h; exact h1 (BitVec.eq_of_toNat_eq h)
    have h6 : (@unpackExponent binary64 w).toNat ≠ 0 := by
      intro h; exact h3 (BitVec.eq_of_toNat_eq h)
    have hv := toNat_implicitBit (@unpackMantissa binary64 w)
    refine inRange_finite ?_ ?_ ?_ (.inl ?_)
    · omega
    · omega
    · omega
    · omega

/-! ## Packing again -/

theorem packComponents_unpack (w : BitVec binary64.numBits) :
    packComponents binary64 (Sign.ofBitVec (unpackSign w)) (unpackExponent w) (unpackMantissa w) = w := by
  have hsign (v : BitVec 1) : (Sign.ofBitVec v).toBitVec = v := by
    revert v
    decide
  rw [packComponents, hsign]
  refine BitVec.eq_of_getLsbD_eq fun i hi => ?_
  change i < 64 at hi
  unfold unpackSign unpackExponent unpackMantissa
  simp only [BitVec.getLsbD_append, BitVec.getLsbD_cast, BitVec.getLsbD_extractLsb]
  by_cases hm : i < 52
  · simp [hm]
  by_cases he : i - 52 < 11
  · have hi : 52 + (i - 52) = i := by omega
    simp [hm, he, hi]
  · obtain rfl : i = 63 := by omega
    rfl

/-- Packing gives back the word that was unpacked: one word is all that is no number. -/
theorem pack_unpack {w : BitVec binary64.numBits} (hw : binary64.Valid w) :
    UnpackedFloat.pack binary64 (UnpackedFloat.unpack binary64 w) = w := by
  have hcomponents := packComponents_unpack w
  have hmlt : (@unpackMantissa binary64 w).toNat < 2 ^ 52 := BitVec.isLt _
  have helt : (@unpackExponent binary64 w).toNat < 2 ^ 11 := BitVec.isLt _
  have hbias : ((Format.exponentBias binary64 : ℕ) : ℤ) + ((52 : ℕ) : ℤ) = 1075 := rfl
  unfold UnpackedFloat.unpack
  dsimp only
  rw [hbias]
  by_cases he : @unpackExponent binary64 w = -1#11
  · rw [if_pos he]
    by_cases hm : @unpackMantissa binary64 w = 0#52
    · rw [if_pos hm]
      rw [he, hm] at hcomponents
      exact hcomponents
    · rw [if_neg hm]
      exact (hw.eq_packedNaN he hm).symm
  rw [if_neg he]
  by_cases hz : @unpackExponent binary64 w = 0#11
  · rw [if_pos hz]
    by_cases hm : @unpackMantissa binary64 w = 0#52
    · rw [dif_pos hm]
      rw [hz, hm] at hcomponents
      exact hcomponents
    · rw [hz] at hcomponents
      rw [dif_neg hm, hz]
      refine (pack_subnormal hmlt).trans ?_
      rw [BitVec.ofNat_toNat, BitVec.setWidth_eq]
      exact hcomponents
  · have hpos : (@unpackExponent binary64 w).toNat ≠ 2047 := fun h => he (BitVec.eq_of_toNat_eq h)
    have hmantissa := toNat_implicitBit (@unpackMantissa binary64 w)
    rw [if_neg hz, pack_normal (by omega) (by omega) (by omega)]
    have hexp : BitVec.ofNat 11 (((@unpackExponent binary64 w).toNat : ℤ) - 1075 + 1075).toNat =
        @unpackExponent binary64 w := by
      rw [sub_add_cancel, Int.toNat_natCast, BitVec.ofNat_toNat, BitVec.setWidth_eq]
    have hman : BitVec.ofNat 52 (1#1 ++ @unpackMantissa binary64 w).toNat = @unpackMantissa binary64 w := by
      refine BitVec.eq_of_toNat_eq ?_
      rw [BitVec.toNat_ofNat, hmantissa]
      omega
    rw [hexp, hman, hcomponents]

theorem unpack_injective : Function.Injective Float.Model.unpack := by
  intro x y h
  have hpack (z : Float.Model) : Float.Model.pack z.unpack = z := by
    obtain ⟨w, hw⟩ := z
    exact (Float.Model.mk.injEq ..).mpr (UInt64.eq_of_toBitVec_eq (pack_unpack hw))
  rw [← hpack x, h, hpack y]

end Pacing.Double

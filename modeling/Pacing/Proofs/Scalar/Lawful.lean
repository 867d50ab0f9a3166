import Mathlib.Algebra.GroupWithZero.Nat
import Pacing.Scalar

/-!
# Laws of scalars

What the estimators can rely on. Values that are no number stand outside the order, and a rounded result
keeps to the side of its operands that the exact one is on.
-/

namespace Pacing

open Scalar

/-- A number system whose numbers are in order, with products and quotients that respect it. -/
class LawfulScalar (α : Type) [Scalar α] : Prop where
  number_left {a b : α} : a ≤ b → isNaN a = false
  number_right {a b : α} : a ≤ b → isNaN b = false
  le_trans {a b c : α} : a ≤ b → b ≤ c → a ≤ c
  le_total {a b : α} : isNaN a = false → isNaN b = false → a ≤ b ∨ b ≤ a
  lt_iff_le_not_ge {a b : α} : a < b ↔ a ≤ b ∧ ¬ b ≤ a
  number_of_isFinite {a : α} : isFinite a = true → isNaN a = false
  isFinite_of_le_of_le {a b c : α} :
    isFinite a = true → isFinite c = true → a ≤ b → b ≤ c → isFinite b = true
  /-- Counts of up to 53 bits are exact. -/
  isFinite_ofNat {n : Nat} : n < 2 ^ 53 → isFinite (ofNat n : α) = true
  ofNat_le_ofNat {m n : Nat} : m < 2 ^ 53 → n < 2 ^ 53 → ((ofNat m : α) ≤ ofNat n ↔ m ≤ n)
  ofNat_mul_ofNat {m n : Nat} :
    0 < m → 0 < n → m * n < 2 ^ 53 → (ofNat m * ofNat n : α) = ofNat (m * n)
  le_mul {a b : α} : zero ≤ a → one ≤ b → isNaN (a * b) = false → a ≤ a * b
  div_nonneg {a b : α} : isFinite a = true → zero ≤ a → zero < b → zero ≤ a / b
  div_pos {a b : α} : isFinite b = true → one ≤ a → isFinite a = true → zero < b → zero < a / b
  div_le_self {a b : α} : isFinite a = true → zero ≤ a → one ≤ b → a / b ≤ a
  div_le_div_left {a b c : α} : isFinite a = true → zero ≤ a → zero < b → b ≤ c → a / c ≤ a / b
  le_truncate {n : Nat} {a : α} : n < 2 ^ 32 → ofNat n ≤ a → n ≤ (truncate a).toNat

namespace Scalar

variable {α : Type} [Scalar α] {a b c : α}

theorem max_le (ha : a ≤ c) (hb : b ≤ c) : Scalar.max a b ≤ c := by
  unfold Scalar.max
  split
  · exact ha
  · split
    · exact ha
    · exact hb

theorem le_min (ha : c ≤ a) (hb : c ≤ b) : c ≤ Scalar.min a b := by
  unfold Scalar.min
  split
  · exact ha
  · split
    · exact ha
    · exact hb

theorem foldl_max_le {l : List α} (ha : a ≤ c) (hl : ∀ b ∈ l, b ≤ c) : l.foldl Scalar.max a ≤ c := by
  induction l generalizing a with
  | nil => exact ha
  | cons b l ih =>
      exact ih (max_le ha (hl b List.mem_cons_self)) fun b' hb => hl b' (List.mem_cons_of_mem _ hb)

/-- What is no number does not count. -/
theorem foldl_max_le_of_number {l : List α} (ha : a ≤ c) (hl : ∀ b ∈ l, isNaN b = false → b ≤ c) :
    l.foldl Scalar.max a ≤ c := by
  induction l generalizing a with
  | nil => exact ha
  | cons b l ih =>
      refine ih ?_ fun b' hb => hl b' (List.mem_cons_of_mem _ hb)
      cases hb : isNaN b with
      | true =>
          rw [Scalar.max, if_pos hb]
          exact ha
      | false => exact max_le ha (hl b List.mem_cons_self hb)

theorem le_foldl_min {l : List α} (ha : c ≤ a) (hl : ∀ b ∈ l, c ≤ b) : c ≤ l.foldl Scalar.min a := by
  induction l generalizing a with
  | nil => exact ha
  | cons b l ih =>
      exact ih (le_min ha (hl b List.mem_cons_self)) fun b' hb => hl b' (List.mem_cons_of_mem _ hb)

variable [LawfulScalar α]

export LawfulScalar (number_left number_right le_trans le_total lt_iff_le_not_ge)

theorem le_refl (h : isNaN a = false) : a ≤ a := (le_total h h).elim id id

theorem le_of_lt (h : a < b) : a ≤ b := (lt_iff_le_not_ge.mp h).1

theorem not_ge_of_lt (h : a < b) : ¬ b ≤ a := (lt_iff_le_not_ge.mp h).2

theorem le_of_not_gt (ha : isNaN a = false) (hb : isNaN b = false) (h : ¬ b < a) : a ≤ b := by
  by_cases hab : a ≤ b
  · exact hab
  · exact absurd (lt_iff_le_not_ge.mpr ⟨(le_total ha hb).resolve_left hab, hab⟩) h

theorem not_lt_iff (ha : isNaN a = false) (hb : isNaN b = false) : ¬ a < b ↔ b ≤ a :=
  ⟨le_of_not_gt hb ha, fun h h' => not_ge_of_lt h' h⟩

theorem not_le_iff (ha : isNaN a = false) (hb : isNaN b = false) : ¬ a ≤ b ↔ b < a :=
  ⟨fun h => lt_iff_le_not_ge.mpr ⟨(le_total ha hb).resolve_left h, h⟩, not_ge_of_lt⟩

/-! ## Values that may be no number -/

theorem number_and_not_lt_iff (hb : isNaN b = false) : isNaN a = false ∧ ¬ a < b ↔ b ≤ a :=
  ⟨fun ⟨ha, hnot⟩ => (not_lt_iff ha hb).mp hnot,
    fun h => ⟨number_right h, (not_lt_iff (number_right h) hb).mpr h⟩⟩

theorem number_and_not_le_iff (hb : isNaN b = false) : isNaN a = false ∧ ¬ a ≤ b ↔ b < a :=
  ⟨fun ⟨ha, hnot⟩ => (not_le_iff ha hb).mp hnot, fun h => ⟨number_right (le_of_lt h), not_ge_of_lt h⟩⟩

/-- What is no number is not less than a bound, and not at or above it either. -/
theorem not_lt_iff_le_or_isNaN (hb : isNaN b = false) : ¬ a < b ↔ b ≤ a ∨ isNaN a = true := by
  cases ha : isNaN a with
  | false => simp [not_lt_iff ha hb]
  | true =>
      have hnot : ¬ a < b := fun h => by simp [number_left (le_of_lt h)] at ha
      simp [hnot]

theorem lt_of_lt_of_le (h : a < b) (h' : b ≤ c) : a < c :=
  lt_iff_le_not_ge.mpr ⟨le_trans (le_of_lt h) h', fun hca => not_ge_of_lt h (le_trans h' hca)⟩

theorem lt_of_le_of_lt (h : a ≤ b) (h' : b < c) : a < c :=
  lt_iff_le_not_ge.mpr ⟨le_trans h (le_of_lt h'), fun hca => not_ge_of_lt h' (le_trans hca h)⟩

/-! ## The greater of two -/

theorem le_max_left (ha : isNaN a = false) (b : α) : a ≤ Scalar.max a b := by
  unfold Scalar.max
  cases hb : isNaN b with
  | true => exact le_refl ha
  | false =>
      simp only [Bool.false_eq_true, if_false]
      split
      · exact le_refl ha
      · rename_i h; exact le_of_not_gt ha hb h

theorem le_max_right (a : α) (hb : isNaN b = false) : b ≤ Scalar.max a b := by
  unfold Scalar.max
  simp only [hb, Bool.false_eq_true, if_false]
  split
  · rename_i h; exact le_of_lt h
  · exact le_refl hb

/-! ## The lesser of two -/

theorem min_le_left (ha : isNaN a = false) (b : α) : Scalar.min a b ≤ a := by
  unfold Scalar.min
  cases hb : isNaN b with
  | true => exact le_refl ha
  | false =>
      simp only [Bool.false_eq_true, if_false]
      split
      · exact le_refl ha
      · rename_i h; exact le_of_not_gt hb ha h

theorem min_le_right (a : α) (hb : isNaN b = false) : Scalar.min a b ≤ b := by
  unfold Scalar.min
  simp only [hb, Bool.false_eq_true, if_false]
  split
  · rename_i h; exact le_of_lt h
  · exact le_refl hb

/-- A first operand that is no number gives way. -/
theorem min_of_isNaN_left (ha : isNaN a = true) (hb : isNaN b = false) : Scalar.min a b = b := by
  have hnot : ¬ a < b := fun h => by simp [number_left (le_of_lt h)] at ha
  simp [Scalar.min, hb, hnot]

/-! ## Between two -/

theorem clamp_within {lo hi x : α} (hx : isNaN x = false) (h : lo ≤ hi) :
    lo ≤ clamp x lo hi ∧ clamp x lo hi ≤ hi := by
  have hhi := number_right h
  have hraised : lo ≤ if x < lo then lo else x := by
    split
    · exact le_refl (number_left h)
    · rename_i hlow
      exact le_of_not_gt (number_left h) hx hlow
  unfold clamp
  dsimp only
  generalize (if x < lo then lo else x) = raised at hraised ⊢
  split
  · exact ⟨h, le_refl hhi⟩
  · rename_i hhigh
    exact ⟨hraised, le_of_not_gt (number_right hraised) hhi hhigh⟩

/-! ## Folds -/

theorem le_foldl_max (ha : isNaN a = false) (l : List α) : a ≤ l.foldl Scalar.max a := by
  induction l generalizing a with
  | nil => exact le_refl ha
  | cons b l ih =>
      have hle := le_max_left ha b
      exact le_trans hle (ih (number_right hle))

theorem foldl_min_le (ha : isNaN a = false) (l : List α) : l.foldl Scalar.min a ≤ a := by
  induction l generalizing a with
  | nil => exact le_refl ha
  | cons b l ih =>
      have hle := min_le_left ha b
      exact le_trans (ih (number_left hle)) hle

theorem le_foldl_max_of_mem {l : List α} (ha : isNaN a = false) (hb : isNaN b = false) (hmem : b ∈ l) :
    b ≤ l.foldl Scalar.max a := by
  induction l generalizing a with
  | nil => cases hmem
  | cons b' l ih =>
      have hnum := number_right (le_max_left ha b')
      rcases List.mem_cons.mp hmem with rfl | hmem
      · exact le_trans (le_max_right a hb) (le_foldl_max hnum l)
      · exact ih hnum hmem

/-! ## Counts -/

theorem ofNat_lt_ofNat {m n : Nat} (hm : m < 2 ^ 53) (hn : n < 2 ^ 53) :
    (ofNat m : α) < ofNat n ↔ m < n := by
  rw [lt_iff_le_not_ge, LawfulScalar.ofNat_le_ofNat hm hn, LawfulScalar.ofNat_le_ofNat hn hm]
  omega

theorem number_ofNat {n : Nat} (hn : n < 2 ^ 53) : isNaN (ofNat n : α) = false :=
  LawfulScalar.number_of_isFinite (LawfulScalar.isFinite_ofNat hn)

theorem number_zero : isNaN (zero : α) = false := number_ofNat (by decide)

theorem number_one : isNaN (one : α) = false := number_ofNat (by decide)

theorem zero_lt_one : (zero : α) < one := (ofNat_lt_ofNat (by decide) (by decide)).mpr (by decide)

end Scalar

end Pacing

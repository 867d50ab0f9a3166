import Mathlib.Data.Set.Insert
import Pacing.Proofs.Scalar.Lawful

/-!
# Extrema of sets of values

The greatest and the least of some values, said without the operations that compute them. A value that is no
number counts only if there is nothing else.
-/

namespace Pacing.Scalar

variable {α : Type} [Scalar α]

/-- One of the values, and no number among them is above it. -/
structure Greatest (S : Set α) (m : α) : Prop where
  mem : m ∈ S
  ge : ∀ a ∈ S, isNaN a = false → a ≤ m

/-- One of the values, and no number among them is below it. -/
structure Least (S : Set α) (m : α) : Prop where
  mem : m ∈ S
  le : ∀ a ∈ S, isNaN a = false → m ≤ a

theorem max_eq_or (a b : α) : Scalar.max a b = a ∨ Scalar.max a b = b := by
  unfold Scalar.max
  split
  · exact .inl rfl
  · split
    · exact .inl rfl
    · exact .inr rfl

theorem min_eq_or (a b : α) : Scalar.min a b = a ∨ Scalar.min a b = b := by
  unfold Scalar.min
  split
  · exact .inl rfl
  · split
    · exact .inl rfl
    · exact .inr rfl

omit [Scalar α] in
/-- What holds of a value, and is kept as others are taken in one by one, holds once all are taken in. -/
theorem foldl_of_union {P : Set α → α → Prop} {op : α → α → α}
    (hop : ∀ S m a, P S m → P (S ∪ {a}) (op m a)) {S : Set α} {m : α} (h : P S m) (l : List α) :
    P (S ∪ {a | a ∈ l}) (l.foldl op m) := by
  induction l generalizing S m with
  | nil => simpa using h
  | cons a l ih =>
      have hcons : S ∪ {x | x ∈ a :: l} = S ∪ {a} ∪ {x | x ∈ l} := by
        ext x
        simp only [Set.mem_union, Set.mem_ofPred_eq, Set.mem_singleton_iff, List.mem_cons, or_assoc]
      rw [hcons]
      exact ih (hop S m a h)

variable [LawfulScalar α] {S T : Set α} {m n : α}

namespace Greatest

theorem singleton (a : α) : Greatest {a} a where
  mem := rfl
  ge := by
    rintro _ rfl hnum
    exact le_refl hnum

theorem union (hS : Greatest S m) (hT : Greatest T n) : Greatest (S ∪ T) (Scalar.max m n) where
  mem := by
    rcases max_eq_or m n with h | h <;> rw [h]
    · exact .inl hS.mem
    · exact .inr hT.mem
  ge := by
    rintro a (ha | ha) hnum
    · have hle := hS.ge a ha hnum
      exact le_trans hle (le_max_left (number_right hle) n)
    · have hle := hT.ge a ha hnum
      exact le_trans hle (le_max_right m (number_right hle))

theorem foldl_max (h : Greatest S m) (l : List α) : Greatest (S ∪ {a | a ∈ l}) (l.foldl Scalar.max m) :=
  foldl_of_union (fun _ _ a h => h.union (singleton a)) h l

end Greatest

namespace Least

theorem singleton (a : α) : Least {a} a where
  mem := rfl
  le := by
    rintro _ rfl hnum
    exact le_refl hnum

theorem union (hS : Least S m) (hT : Least T n) : Least (S ∪ T) (Scalar.min m n) where
  mem := by
    rcases min_eq_or m n with h | h <;> rw [h]
    · exact .inl hS.mem
    · exact .inr hT.mem
  le := by
    rintro a (ha | ha) hnum
    · have hle := hS.le a ha hnum
      exact le_trans (min_le_left (number_left hle) n) hle
    · have hle := hT.le a ha hnum
      exact le_trans (min_le_right m (number_left hle)) hle

theorem foldl_min (h : Least S m) (l : List α) : Least (S ∪ {a | a ∈ l}) (l.foldl Scalar.min m) :=
  foldl_of_union (fun _ _ a h => h.union (singleton a)) h l

end Least

end Pacing.Scalar

import Mathlib.Data.List.Basic
import Pacing.Ring

/-!
# Rings from the newest value down

A walk over a ring counts from its newest value. Seen that way, a push takes every value one place down and
a change at a place leaves the others alone. To replace the values one by one commutes with all of it.
-/

namespace Pacing.Ring

variable {β γ : Type}

/-- The value `depth` places below the newest. -/
def below? (r : Ring β) (depth : Nat) : Option β := r.toList.reverse[depth]?

theorem lt_size_of_below? {r : Ring β} {depth : Nat} {x : β} (h : r.below? depth = some x) :
    depth < r.size := by
  simpa using (List.getElem?_eq_some_iff.mp h).1

theorem exists_below? {r : Ring β} {depth : Nat} (h : depth < r.size) : ∃ x, r.below? depth = some x :=
  ⟨_, List.getElem?_eq_getElem (by simpa using h)⟩

theorem below?_eq_get? {r : Ring β} {depth : Nat} (h : depth < r.size) :
    r.below? depth = r.get? (r.size - 1 - depth) := by
  rw [below?, List.getElem?_reverse (by simpa using h), getElem?_toList, length_toList]

theorem back?_eq_below? (r : Ring β) : r.back? = r.below? 0 := by
  rw [back?_eq, below?, ← List.head?_eq_getElem?, List.head?_reverse]

theorem back?_ne_none {r : Ring β} {depth : Nat} {x : β} (h : r.below? depth = some x) : r.back? ≠ none := by
  have hlt := lt_size_of_below? h
  rw [back?_eq, ne_eq, List.getLast?_eq_none_iff, ← List.length_eq_zero_iff, length_toList]
  omega

theorem isEmpty_eq_true {r : Ring β} : r.isEmpty = true ↔ r.back? = none := by
  rw [back?_eq, List.getLast?_eq_none_iff, ← List.length_eq_zero_iff, length_toList, size, isEmpty]
  simp

@[simp] theorem isEmpty_clear (r : Ring β) : r.clear.isEmpty = true := rfl

@[simp] theorem below?_clear (r : Ring β) (depth : Nat) : r.clear.below? depth = none := by
  simp [below?]

@[simp] theorem below?_push_zero (r : Ring β) (x : β) : (r.push x).1.below? 0 = some x := by
  simp [below?, toList_push]

/-- A push takes every value one place down, as far as the ring reaches. -/
theorem below?_push_succ {r : Ring β} {x : β} {depth : Nat} (h : depth + 1 < (r.push x).1.size) :
    (r.push x).1.below? (depth + 1) = r.below? depth := by
  rw [← length_toList, toList_push, List.length_append, List.length_singleton] at h
  rw [below?, toList_push, List.reverse_append, List.reverse_singleton, List.singleton_append,
    List.getElem?_cons_succ, below?]
  split at h <;> rename_i hfull
  · rw [if_pos hfull]
  · rw [if_neg hfull, ← List.drop_one, List.reverse_drop, List.getElem?_take_of_lt]
    simpa using h

theorem below?_of_push {r : Ring β} {x y : β} {depth : Nat}
    (h : (r.push x).1.below? (depth + 1) = some y) : r.below? depth = some y :=
  (below?_push_succ (lt_size_of_below? h)).symm.trans h

theorem below?_eq_none {r : Ring β} {depth : Nat} (h : r.size ≤ depth) : r.below? depth = none :=
  List.getElem?_eq_none (by simpa using h)

@[simp] theorem size_modify (r : Ring β) (i : Nat) (f : β → β) : (r.modify i f).size = r.size := by
  rw [← length_toList, toList_modify, List.length_modify, length_toList]

theorem below?_modify {r : Ring β} (f : β → β) {d : Nat} (hd : d < r.size) (depth : Nat) :
    (r.modify (r.size - 1 - d) f).below? depth =
      (r.below? depth).map fun x => if depth = d then f x else x := by
  by_cases h : depth < r.size
  · have hpos : r.size - 1 - d = r.size - 1 - depth ↔ depth = d := by omega
    rw [below?_eq_get? (by rwa [size_modify]), below?_eq_get? h, size_modify, ← getElem?_toList,
      toList_modify, List.getElem?_modify, getElem?_toList]
    by_cases he : depth = d <;> simp [hpos, he]
  · rw [Nat.not_lt] at h
    rw [below?_eq_none h, below?_eq_none (by rwa [size_modify]), Option.map_none]

theorem below?_modifyBack (r : Ring β) (f : β → β) (depth : Nat) :
    (r.modifyBack f).below? depth = (r.below? depth).map fun x => if depth = 0 then f x else x := by
  by_cases h : 0 < r.size
  · exact below?_modify f h depth
  · have hsize : r.size ≤ depth := by omega
    rw [below?_eq_none hsize, below?_eq_none (by rwa [modifyBack, size_modify]), Option.map_none]

/-! ## Values replaced one by one -/

def map (r : Ring β) (f : β → γ) : Ring γ where
  slots := r.slots.map f
  head := r.head
  capacity := r.capacity
  size_le := by simpa using r.size_le
  head_lt := r.head_lt
  head_eq := by simpa using r.head_eq

@[simp] theorem size_map (r : Ring β) (f : β → γ) : (r.map f).size = r.size := Array.size_map

@[simp] theorem isEmpty_map (r : Ring β) (f : β → γ) : (r.map f).isEmpty = r.isEmpty := by
  simp [isEmpty, map, Array.isEmpty]

@[simp] theorem toList_map (r : Ring β) (f : β → γ) : (r.map f).toList = r.toList.map f := by
  simp [toList, map]

theorem clear_map (r : Ring β) (f : β → γ) : (r.map f).clear = r.clear.map f := by
  simp [clear, empty, map]

theorem push_map (r : Ring β) (f : β → γ) (x : β) : ((r.map f).push (f x)).1 = (r.push x).1.map f := by
  have hsize : (r.map f).slots.size = r.slots.size := Array.size_map
  by_cases h : r.slots.size < r.capacity
  · have h' : (r.map f).slots.size < (r.map f).capacity := by rwa [hsize]
    rw [push, dif_pos h', push, dif_pos h]
    simp [map]
  · have h' : ¬ (r.map f).slots.size < (r.map f).capacity := by rwa [hsize]
    rw [push, dif_neg h', push, dif_neg h]
    simp [map]

theorem modify_map (r : Ring β) {f : β → γ} {g : β → β} {g' : γ → γ} (h : ∀ x, g' (f x) = f (g x)) (i : Nat) :
    (r.map f).modify i g' = (r.modify i g).map f := by
  unfold modify
  rw [size_map]
  split
  · have hslots : (r.slots.map f).modify (r.slot i) g' = (r.slots.modify (r.slot i) g).map f :=
      Array.ext (by simp) fun j hj _ => by
        simp only [Array.getElem_modify, Array.getElem_map]
        split
        · exact h _
        · rfl
    simp only [map, slot]
    congr
  · rfl

end Pacing.Ring

/-!
# Rings

A ring keeps the newest values that were pushed, as many as its capacity. Its slots are reused in
turn: once all are taken, a push overwrites the oldest value. Position 0 is the oldest value.

`Ring.toList` is the view that the laws are about: what the ring holds, oldest first. Seen through it,
a push appends and drops the first value of a full ring, and a change at a position is one in the
list.
-/

namespace Pacing

/-- A buffer of bounded size that forgets its oldest value first. -/
structure Ring (β : Type) where
  slots : Array β
  /-- The slot of the oldest value. -/
  head : Nat
  capacity : Nat
  size_le : slots.size ≤ capacity
  head_lt : head < capacity
  head_eq : slots.size < capacity → head = 0

namespace Ring

variable {β : Type}

/-- Why there is no ring of some capacity. -/
inductive Fault
  | noCapacity
  deriving DecidableEq, Repr

def Fault.message : Fault → String
  | .noCapacity => "history ring needs a non-zero capacity"

def empty (capacity : Nat) (pos : 0 < capacity) : Ring β where
  slots := #[]
  head := 0
  capacity
  size_le := Nat.zero_le _
  head_lt := pos
  head_eq := fun _ => rfl

def ofCapacity (capacity : Nat) : Except Fault (Ring β) :=
  if h : 0 < capacity then .ok (empty capacity h) else .error .noCapacity

def size (r : Ring β) : Nat := r.slots.size

def isEmpty (r : Ring β) : Bool := r.slots.isEmpty

/-- What the ring holds, oldest first. -/
def toList (r : Ring β) : List β :=
  r.slots.toList.drop r.head ++ r.slots.toList.take r.head

/-! ## Slots -/

/-- The slot that holds position `i`. -/
def slot (r : Ring β) (i : Nat) : Nat := (r.head + i) % r.capacity

theorem slot_lt (r : Ring β) {i : Nat} (h : i < r.size) : r.slot i < r.slots.size := by
  have hs := r.size_le
  simp only [size] at h
  by_cases hf : r.slots.size < r.capacity
  · rw [slot, r.head_eq hf, Nat.zero_add, Nat.mod_eq_of_lt (by omega)]
    exact h
  · have hc : r.slots.size = r.capacity := by omega
    rw [slot, hc]
    exact Nat.mod_lt _ (Nat.zero_lt_of_lt r.head_lt)

theorem head_lt_size (r : Ring β) (h : ¬ r.slots.size < r.capacity) : r.head < r.slots.size := by
  have := r.size_le
  have := r.head_lt
  omega

theorem head_le_size (r : Ring β) : r.head ≤ r.slots.size := by
  by_cases h : r.slots.size < r.capacity
  · simp [r.head_eq h]
  · exact Nat.le_of_lt (r.head_lt_size h)

/-- The slot of a position, without the remainder. -/
theorem slot_eq (r : Ring β) {i : Nat} (h : i < r.size) :
    r.slot i = if i < r.slots.size - r.head then r.head + i else i - (r.slots.size - r.head) := by
  have hs := r.size_le
  simp only [size] at h
  by_cases hf : r.slots.size < r.capacity
  · have h0 := r.head_eq hf
    rw [slot, h0, Nat.zero_add, Nat.mod_eq_of_lt (by omega)]
    split <;> omega
  · have hc : r.slots.size = r.capacity := by omega
    have hl := r.head_lt_size hf
    rw [slot, ← hc]
    split
    · rw [Nat.mod_eq_of_lt (by omega)]
    · rw [Nat.mod_eq_sub_mod (by omega), Nat.mod_eq_of_lt (by omega)]
      omega

theorem slot_inj (r : Ring β) {i j : Nat} (hi : i < r.size) (hj : j < r.size)
    (h : r.slot i = r.slot j) : i = j := by
  have := r.head_le_size
  rw [r.slot_eq hi, r.slot_eq hj] at h
  simp only [size] at hi hj
  split at h <;> split at h <;> omega

/-! ## Operations -/

/-- Adds a value as the newest one. The second component is the value it displaced. -/
def push (r : Ring β) (x : β) : Ring β × Option β :=
  if h : r.slots.size < r.capacity then
    ({ r with
        slots := r.slots.push x
        size_le := by rw [Array.size_push]; exact h
        head_eq := fun _ => r.head_eq h }, none)
  else
    have hh := r.head_lt_size h
    ({ r with
        slots := r.slots.set r.head x hh
        head := (r.head + 1) % r.capacity
        size_le := by simpa using r.size_le
        head_lt := Nat.mod_lt _ (Nat.zero_lt_of_lt r.head_lt)
        head_eq := fun hlt => absurd (by simpa using hlt) h }, some r.slots[r.head])

def get? (r : Ring β) (i : Nat) : Option β :=
  if h : i < r.size then
    have := r.slot_lt h
    some r.slots[r.slot i]
  else
    none

/-- Changes the value at position `i`, if there is one. -/
def modify (r : Ring β) (i : Nat) (f : β → β) : Ring β :=
  if i < r.size then
    { r with
      slots := r.slots.modify (r.slot i) f
      size_le := by simpa using r.size_le
      head_eq := by simpa using r.head_eq }
  else
    r

def back? (r : Ring β) : Option β := r.get? (r.size - 1)

/-- Changes the newest value, if there is one. -/
def modifyBack (r : Ring β) (f : β → β) : Ring β := r.modify (r.size - 1) f

def clear (r : Ring β) : Ring β :=
  empty r.capacity (Nat.zero_lt_of_lt r.head_lt)

theorem clear_congr {r r' : Ring β} (h : r.capacity = r'.capacity) : r.clear = r'.clear := by
  unfold clear
  congr

/-! ## What operations do to the view -/

@[simp] theorem length_toList (r : Ring β) : r.toList.length = r.size := by
  have := r.head_le_size
  simp only [toList, size, List.length_append, List.length_drop, List.length_take,
    Array.length_toList]
  omega

@[simp] theorem toList_empty (capacity : Nat) (pos : 0 < capacity) :
    (empty capacity pos : Ring β).toList = [] := rfl

theorem getElem?_toList (r : Ring β) (i : Nat) : r.toList[i]? = r.get? i := by
  have hh := r.head_le_size
  rw [get?]
  split
  · rename_i h
    have hlt := r.slot_lt h
    rw [← Array.getElem?_eq_getElem hlt, r.slot_eq h, toList, List.getElem?_append]
    simp only [List.length_drop, Array.length_toList, List.getElem?_drop]
    split
    · simp
    · rw [List.getElem?_take_of_lt (by simp only [size] at h; omega)]
      simp
  · rename_i h
    exact List.getElem?_eq_none (by rw [length_toList]; omega)

theorem back?_eq (r : Ring β) : r.back? = r.toList.getLast? := by
  rw [back?, ← getElem?_toList, List.getLast?_eq_getElem?, length_toList]

theorem toList_push (r : Ring β) (x : β) :
    (r.push x).1.toList = (if r.size < r.capacity then r.toList else r.toList.tail) ++ [x] := by
  rw [push]
  split
  · rename_i h
    simp [toList, r.head_eq h, size, h]
  · rename_i h
    have hl := r.head_lt_size h
    have hc : r.slots.size = r.capacity := by have := r.size_le; omega
    have htail : r.toList.tail = r.slots.toList.drop (r.head + 1) ++ r.slots.toList.take r.head := by
      rw [toList, List.tail_append_of_ne_nil (by simpa using hl), List.tail_drop]
    have hset : (r.slots.set r.head x hl).toList =
        r.slots.toList.take r.head ++ x :: r.slots.toList.drop (r.head + 1) := by
      rw [Array.toList_set, List.set_eq_take_append_cons_drop]
      simp [hl]
    rw [if_neg (by simpa [size] using h), htail, toList]
    simp only
    rw [hset]
    by_cases hw : r.head + 1 < r.capacity
    · rw [Nat.mod_eq_of_lt hw]
      have ht : (r.slots.toList.take r.head).length = r.head := by simp; omega
      rw [List.drop_append, List.take_append, ht]
      simp [List.drop_eq_nil_of_le, List.take_take, Nat.le_of_lt hl]
    · have hz : (r.head + 1) % r.capacity = 0 := by
        rw [show r.head + 1 = r.capacity by omega]; exact Nat.mod_self _
      rw [hz, List.drop_eq_nil_of_le (i := r.head + 1) (by simp; omega)]
      simp

theorem displaced_push (r : Ring β) (x : β) :
    (r.push x).2 = if r.size < r.capacity then none else r.toList.head? := by
  rw [push]
  split
  · rename_i h
    simp [size, h]
  · rename_i h
    have hl := r.head_lt_size h
    rw [if_neg (by simpa [size] using h), toList, List.head?_append, List.head?_drop]
    simp [hl]

theorem toList_modify (r : Ring β) (i : Nat) (f : β → β) :
    (r.modify i f).toList = r.toList.modify i f := by
  refine List.ext_getElem? fun j => ?_
  rw [List.getElem?_modify, getElem?_toList, getElem?_toList, modify]
  split
  · rename_i hi
    simp only [get?, size, Array.size_modify]
    by_cases hj : j < r.slots.size
    · have hs : r.slot i = r.slot j ↔ i = j := ⟨r.slot_inj hi hj, fun h => h ▸ rfl⟩
      simp only [hj, ↓reduceDIte, slot, Array.getElem_modify] at hs ⊢
      by_cases he : i = j <;> simp [he, hs]
    · simp [hj]
  · rename_i hi
    by_cases he : i = j
    · subst he
      simp [get?, hi]
    · simp [he]

theorem toList_modifyBack (r : Ring β) (f : β → β) :
    (r.modifyBack f).toList = r.toList.modify (r.toList.length - 1) f := by
  rw [modifyBack, toList_modify, length_toList]

@[simp] theorem toList_clear (r : Ring β) : r.clear.toList = [] := rfl

@[simp] theorem capacity_push (r : Ring β) (x : β) : (r.push x).1.capacity = r.capacity := by
  rw [push]; split <;> rfl

@[simp] theorem capacity_modify (r : Ring β) (i : Nat) (f : β → β) :
    (r.modify i f).capacity = r.capacity := by
  rw [modify]; split <;> rfl

end Ring

end Pacing

import Pacing.Proofs.ListEnd
import Pacing.Proofs.Ring

/-!
# Rings as bounded queues

Whatever is done to a ring, it holds the end of a log. The log has every value that was pushed since the last
clear, with the changes made in it, and the ring has the last of them, as many as its capacity. All that can be
asked of the ring is answered by this list, and no slot is looked for where the array has none.
-/

namespace Pacing.Ring

variable {β : Type}

/-- What can be done to a ring. -/
inductive Op (β : Type)
  | push (x : β)
  | modify (i : Nat) (f : β → β)
  | modifyBack (f : β → β)
  | clear

def Op.isPush : Op β → Bool
  | .push _ => true
  | _ => false

def Op.isClear : Op β → Bool
  | .clear => true
  | _ => false

def apply (r : Ring β) : Op β → Ring β
  | .push x => (r.push x).1
  | .modify i f => r.modify i f
  | .modifyBack f => r.modifyBack f
  | .clear => r.clear

/-- The ring that a sequence of operations makes of an empty one. -/
def after (capacity : Nat) (pos : 0 < capacity) (ops : List (Op β)) : Ring β :=
  ops.foldl apply (empty capacity pos)

/-- What an operation does to the log. Positions count from the oldest of the last `capacity` values. -/
def Op.log (capacity : Nat) (values : List β) : Op β → List β
  | .push x => values ++ [x]
  | .modify i f => values.modify (values.length - capacity + i) f
  | .modifyBack f => values.modify (values.length - 1) f
  | .clear => []

def logged (capacity : Nat) (ops : List (Op β)) : List β := ops.foldl (Op.log capacity) []

/-- What a walk over the positions finds in their slots, oldest first. -/
def walk (r : Ring β) : List (Option β) := (List.range r.size).map fun i => r.slots[r.slot i]?

/-- A ring answers as a list of its values would, oldest first, and every slot that it turns to is there. -/
structure Shows (r : Ring β) (values : List β) : Prop where
  size : r.size = values.length
  le_capacity : values.length ≤ r.capacity
  walk : r.walk = values.map some
  walk_reverse : r.walk.reverse = values.reverse.map some
  get : ∀ i, r.get? i = values[i]?
  back : r.back? = values.getLast?
  displaced : ∀ x, (r.push x).2 = if values.length = r.capacity then values.head? else none
  modify : ∀ i f, (r.modify i f).walk = (values.modify i f).map some
  modify_beyond : ∀ i f, values.length ≤ i → r.modify i f = r
  modifyBack : ∀ f, (r.modifyBack f).walk = (values.modify (values.length - 1) f).map some
  slot_lt : ∀ i < values.length, r.slot i < r.slots.size
  head_lt : values.length = r.capacity → r.head < r.slots.size

/-! ## One ring -/

theorem walk_eq (r : Ring β) : r.walk = r.toList.map some := by
  refine List.ext_getElem? fun i => ?_
  rw [walk, List.getElem?_map, List.getElem?_map, getElem?_toList, get?]
  by_cases h : i < r.size
  · have hslot := r.slot_lt h
    simp [h, hslot]
  · rw [dif_neg h, List.getElem?_eq_none (by simpa using h)]
    rfl

theorem shows_toList (r : Ring β) : r.Shows r.toList where
  size := r.length_toList.symm
  le_capacity := by
    rw [length_toList]
    exact r.size_le
  walk := r.walk_eq
  walk_reverse := by rw [walk_eq, List.map_reverse]
  get := fun i => (r.getElem?_toList i).symm
  back := r.back?_eq
  displaced := fun x => by
    have hle : r.size ≤ r.capacity := r.size_le
    rw [displaced_push, length_toList]
    by_cases h : r.size < r.capacity
    · rw [if_pos h, if_neg h.ne]
    · rw [if_neg h, if_pos (hle.eq_of_not_lt h)]
  modify := fun i f => by rw [walk_eq, toList_modify]
  modify_beyond := fun i f h => by
    rw [length_toList] at h
    rw [Ring.modify, if_neg h.not_gt]
  modifyBack := fun f => by rw [walk_eq, toList_modifyBack]
  slot_lt := fun i h => r.slot_lt (by rwa [length_toList] at h)
  head_lt := fun h => r.head_lt_size (by
    rw [length_toList] at h
    exact h.not_lt)

/-! ## One operation -/

@[simp] theorem capacity_apply (r : Ring β) (op : Op β) : (r.apply op).capacity = r.capacity := by
  cases op with
  | push x => exact r.capacity_push x
  | modify i f => exact r.capacity_modify i f
  | modifyBack f => exact r.capacity_modify _ f
  | clear => rfl

theorem rtake_modify (values : List β) (n i : Nat) (f : β → β) :
    (values.modify (values.length - n + i) f).rtake n = (values.rtake n).modify i f := by
  refine List.ext_getElem? fun j => ?_
  simp only [List.rtake, List.length_modify, List.getElem?_drop, List.getElem?_modify, Nat.add_left_cancel_iff]

theorem rtake_modify_last {values : List β} {n : Nat} (hn : 0 < n) (f : β → β) :
    (values.modify (values.length - 1) f).rtake n =
      (values.rtake n).modify ((values.rtake n).length - 1) f := by
  rw [length_rtake, ← rtake_modify]
  congr 2
  omega

/-- An operation keeps the ring the end of the log. -/
theorem toList_apply {r : Ring β} {values : List β} (h : r.toList = values.rtake r.capacity) (op : Op β) :
    (r.apply op).toList = (op.log r.capacity values).rtake r.capacity := by
  have hpos : 0 < r.capacity := Nat.zero_lt_of_lt r.head_lt
  cases op with
  | push x =>
      rw [apply, toList_push, ← length_toList, h, Op.log, rtake_concat hpos]
  | modify i f => rw [apply, toList_modify, h, Op.log, rtake_modify]
  | modifyBack f => rw [apply, toList_modifyBack, h, Op.log, rtake_modify_last hpos]
  | clear => simp [apply, Op.log, List.rtake]

/-! ## Sequences of operations -/

theorem after_concat (capacity : Nat) (pos : 0 < capacity) (ops : List (Op β)) (op : Op β) :
    after capacity pos (ops ++ [op]) = (after capacity pos ops).apply op :=
  List.foldl_concat ..

theorem logged_concat (capacity : Nat) (ops : List (Op β)) (op : Op β) :
    logged capacity (ops ++ [op]) = op.log capacity (logged capacity ops) :=
  List.foldl_concat ..

theorem capacity_after (capacity : Nat) (pos : 0 < capacity) (ops : List (Op β)) :
    (after capacity pos ops).capacity = capacity := by
  induction ops using List.reverseRecOn with
  | nil => rfl
  | append_singleton ops op ih => rw [after_concat, capacity_apply, ih]

theorem toList_after (capacity : Nat) (pos : 0 < capacity) (ops : List (Op β)) :
    (after capacity pos ops).toList = (logged capacity ops).rtake capacity := by
  induction ops using List.reverseRecOn with
  | nil => simp [after, logged, List.rtake]
  | append_singleton ops op ih =>
      have hcapacity := capacity_after capacity pos ops
      have happly := toList_apply (r := after capacity pos ops) (by rw [hcapacity, ih]) op
      rw [after_concat, logged_concat, happly, hcapacity]

/-- The log grows by pushes alone. -/
theorem length_logged (capacity : Nat) (ops : List (Op β)) :
    (logged capacity ops).length = (ops.rtakeWhile fun op => !op.isClear).countP Op.isPush := by
  induction ops using List.reverseRecOn with
  | nil => rfl
  | append_singleton ops op ih =>
      rw [logged_concat, List.rtakeWhile_concat]
      cases op <;> simp [Op.log, Op.isClear, Op.isPush, List.countP_append, ih]

/-- A ring behaves as a bounded queue: after any operations it answers as the list of the last values pushed
since it was last cleared would, with the changes made in place, and it holds all of them or as many as its
capacity. -/
theorem bounded_fifo (capacity : Nat) (pos : 0 < capacity) (ops : List (Op β)) :
    let r := after capacity pos ops
    r.Shows ((logged capacity ops).rtake capacity) ∧ r.capacity = capacity ∧
      r.size = min ((ops.rtakeWhile fun op => !op.isClear).countP Op.isPush) capacity := by
  intro r
  have hlist : r.toList = (logged capacity ops).rtake capacity := toList_after capacity pos ops
  have hsize : r.size = min (logged capacity ops).length capacity := by
    rw [← length_toList, hlist, List.rtake, List.length_drop]
    omega
  rw [length_logged] at hsize
  exact ⟨hlist ▸ r.shows_toList, capacity_after capacity pos ops, hsize⟩

/-- Two slots, cleared once, then filled three times with a change before and after the oldest value goes. -/
theorem bounded_fifo_of_two_slots :
    let ops : List (Op Nat) := [.push 1, .clear, .push 2, .push 3, .modify 0 (· + 10), .modify 1 (· + 20),
      .push 4, .modifyBack (· + 30), .modify 2 (· + 40)]
    let r := after 2 (by decide) ops
    (0 < 2) ∧ r.toList = [23, 34] ∧ r.head = 1 ∧ r.Shows ((logged 2 ops).rtake 2) ∧ r.size = 2 := by
  intro ops r
  obtain ⟨hshows, -, hsize⟩ := bounded_fifo 2 (by decide) ops
  exact ⟨by decide, by decide, by decide, hshows, hsize⟩

end Pacing.Ring

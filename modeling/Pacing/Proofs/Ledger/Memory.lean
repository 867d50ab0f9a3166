import Mathlib.Data.List.Nodup
import Pacing.Ledger.Memory
import Pacing.Proofs.ListEnd
import Std.Data.TreeSet.Lemmas

/-!
# The memory is its queue

The set beside the queue answers for the queue: it holds the same numbers, and the queue holds none twice. So what
a memory does can be read off its queue alone.
-/

namespace Pacing.Memory

theorem queue_dropOldest (m : Memory) : m.dropOldest.queue = m.queue.tail := by
  unfold dropOldest
  split <;> rename_i hq <;> simp [hq]

theorem capacity_dropOldest (m : Memory) : m.dropOldest.capacity = m.capacity := by
  unfold dropOldest
  split <;> rfl

@[simp] theorem capacity_remember (m : Memory) (seq : Nat) : (m.remember seq).capacity = m.capacity := by
  unfold remember
  split
  · rfl
  · split
    · exact m.capacity_dropOldest
    · rfl

/-- The queue keeps to its capacity and holds no number twice, and the set has the same numbers. -/
structure Sound (m : Memory) : Prop where
  nodup : m.queue.Nodup
  length_le : m.queue.length ≤ m.capacity
  contains_iff : ∀ seq, m.contains seq = true ↔ seq ∈ m.queue

namespace Sound

theorem empty (capacity : Nat) : (Memory.empty capacity).Sound :=
  ⟨.nil, Nat.zero_le _, fun seq => by simp [Memory.empty, contains]⟩

theorem clear (m : Memory) : m.clear.Sound := empty m.capacity

variable {m : Memory}

theorem dropOldest (h : m.Sound) : m.dropOldest.Sound := by
  unfold Memory.dropOldest
  split
  · exact h
  · rename_i oldest rest hq
    obtain ⟨hnot, hrest⟩ := List.nodup_cons.mp (hq ▸ h.nodup)
    refine ⟨hrest, ?_, fun seq => ?_⟩
    · have hlength := h.length_le
      rw [hq, List.length_cons] at hlength
      exact Nat.le_of_succ_le hlength
    · have hseq := h.contains_iff seq
      rw [hq, List.mem_cons] at hseq
      simp only [contains, Std.TreeSet.contains_iff_mem, Std.TreeSet.mem_erase, ne_eq,
        Std.LawfulEqCmp.compare_eq_iff_eq] at hseq ⊢
      rw [hseq]
      grind

theorem append (h : m.Sound) {seq : Nat} (hroom : m.queue.length < m.capacity) (hnew : seq ∉ m.queue) :
    (m.append seq).Sound := by
  refine ⟨List.nodup_append.mpr ⟨h.nodup, List.nodup_singleton seq, ?_⟩, ?_, fun i => ?_⟩
  · rintro i hi _ hj rfl
    exact hnew (List.mem_singleton.mp hj ▸ hi)
  · simpa [Memory.append] using Nat.succ_le_of_lt hroom
  · have hi := h.contains_iff i
    simp only [contains, Memory.append, Std.TreeSet.contains_iff_mem, Std.TreeSet.mem_insert,
      Std.LawfulEqCmp.compare_eq_iff_eq, List.mem_append, List.mem_singleton] at hi ⊢
    rw [hi, or_comm, eq_comm]

theorem remember (h : m.Sound) (seq : Nat) : (m.remember seq).Sound := by
  have hlength := h.length_le
  unfold Memory.remember
  split
  · exact h
  · rename_i hnew
    rw [h.contains_iff, not_or] at hnew
    obtain ⟨hpos, hnew⟩ := hnew
    split
    · -- A full memory that may hold anything has an oldest number to give up.
      refine h.dropOldest.append ?_ ?_
      · rw [queue_dropOldest, capacity_dropOldest, List.length_tail]
        omega
      · rw [queue_dropOldest]
        exact fun hmem => hnew (List.mem_of_mem_tail hmem)
    · exact h.append (by omega) hnew

/-- A new number comes last, and the oldest one makes room for it. -/
theorem queue_remember (h : m.Sound) (seq : Nat) :
    (m.remember seq).queue =
      if m.capacity = 0 ∨ seq ∈ m.queue then m.queue
      else if m.queue.length = m.capacity then m.queue.tail ++ [seq]
      else m.queue ++ [seq] := by
  unfold Memory.remember
  simp only [h.contains_iff]
  split
  · rfl
  · split
    · rw [Memory.append, queue_dropOldest]
    · rfl

/-- With a new number, the queue is the end of what it was and the number. -/
theorem queue_remember_eq_rtake (h : m.Sound) (seq : Nat) :
    (m.remember seq).queue = if seq ∈ m.queue then m.queue else (m.queue ++ [seq]).rtake m.capacity := by
  have hlength := h.length_le
  rw [h.queue_remember]
  by_cases hmem : seq ∈ m.queue
  · rw [if_pos (.inr hmem), if_pos hmem]
  · rw [if_neg hmem]
    rcases Nat.eq_zero_or_pos m.capacity with hzero | hpos
    · rw [if_pos (.inl hzero), hzero, List.rtake_zero]
      exact List.length_eq_zero_iff.mp (by omega)
    · rw [if_neg (not_or.mpr ⟨Nat.ne_of_gt hpos, hmem⟩), rtake_concat hpos, rtake_of_length_le hlength]
      by_cases hfull : m.queue.length = m.capacity
      · rw [if_pos hfull, if_neg (Nat.not_lt.mpr hfull.ge)]
      · rw [if_neg hfull, if_pos (Nat.lt_of_le_of_ne hlength hfull)]

/-- A number that is not remembered comes in by itself alone, if there is room for any. -/
theorem mem_queue_remember_iff (h : m.Sound) {i : Nat} (hnew : i ∉ m.queue) (seq : Nat) :
    i ∈ (m.remember seq).queue ↔ 0 < m.capacity ∧ seq = i := by
  rw [h.queue_remember]
  split
  · rename_i hheld
    refine iff_of_false hnew ?_
    rintro ⟨hpos, rfl⟩
    exact hheld.elim (Nat.ne_of_gt hpos) hnew
  · rename_i hfree
    have hpos : 0 < m.capacity := by
      rw [not_or] at hfree
      exact Nat.pos_of_ne_zero hfree.1
    have htail : i ∉ m.queue.tail := fun hmem => hnew (List.mem_of_mem_tail hmem)
    split <;> simp [hpos, hnew, htail, eq_comm]

end Sound

end Pacing.Memory

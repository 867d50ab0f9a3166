import Mathlib.Data.List.DropRight

/-!
# The end of a list

A container with room for `n` values holds the last `n` of all that were put in it. Here it is how that end moves
when the list grows, and where an element of it stands in the list.
-/

namespace Pacing

variable {β : Type} {a : β} {l l' earlier later : List β} {n : Nat}

theorem length_rtake (l : List β) (n : Nat) : (l.rtake n).length = min l.length n := by
  rw [List.rtake, List.length_drop]
  omega

theorem rtake_of_length_le (h : l.length ≤ n) : l.rtake n = l := by
  rw [List.rtake, Nat.sub_eq_zero_of_le h, List.drop_zero]

theorem rtake_append_of_length_eq (h : l'.length = n) : (l ++ l').rtake n = l' := by
  rw [List.rtake, List.length_append, h, Nat.add_sub_cancel, List.drop_left]

/-! ## Growing lists -/

/-- The end of a list is that of its end with as much after it. -/
theorem rtake_rtake_append (l l' : List β) (n : Nat) : (l.rtake n ++ l').rtake n = (l ++ l').rtake n := by
  have hkept : l.rtake n ++ l' = (l ++ l').drop (l.length - n) := by
    rw [List.rtake, List.drop_append_of_le_length (Nat.sub_le ..)]
  rw [hkept, List.rtake, List.drop_drop, List.rtake, List.length_drop, List.length_append]
  congr 1
  omega

theorem rtake_concat (hn : 0 < n) :
    (l ++ [a]).rtake n = (if (l.rtake n).length < n then l.rtake n else (l.rtake n).tail) ++ [a] := by
  simp only [List.rtake, List.length_append, List.length_singleton, List.length_drop, List.tail_drop]
  by_cases h : l.length < n
  · rw [if_pos (by omega), Nat.sub_eq_zero_of_le (by omega), Nat.sub_eq_zero_of_le (by omega), List.drop_zero,
      List.drop_zero]
  · rw [if_neg (by omega), List.drop_append_of_le_length (by omega), Nat.sub_add_comm (by omega)]

/-! ## Places -/

theorem mem_rtake_of_length_lt (h : later.length < n) : a ∈ (earlier ++ a :: later).rtake n := by
  have hle : (earlier ++ a :: later).length - n ≤ earlier.length := by
    rw [List.length_append, List.length_cons]
    omega
  rw [List.rtake, List.drop_append_of_le_length hle]
  exact List.mem_append_right _ List.mem_cons_self

/-- What the end holds once has less than its length after it. -/
theorem exists_split_of_mem_rtake (hnodup : (l.rtake n).Nodup) (h : a ∈ l.rtake n) :
    ∃ earlier later, l = earlier ++ a :: later ∧ a ∉ later ∧ later.length < n := by
  obtain ⟨mid, later, hend⟩ := List.append_of_mem h
  have hlength : (l.rtake n).length ≤ n := (length_rtake l n).trans_le (Nat.min_le_right ..)
  rw [hend] at hnodup hlength
  refine ⟨l.take (l.length - n) ++ mid, later, ?_, ?_, ?_⟩
  · rw [List.append_assoc, ← hend, List.rtake, List.take_append_drop]
  · exact (List.nodup_cons.mp (List.nodup_append.mp hnodup).2.1).1
  · rw [List.length_append, List.length_cons] at hlength
    omega

end Pacing

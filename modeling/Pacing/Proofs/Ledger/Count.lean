import Pacing.Proofs.Flow.Stages

/-!
# Counting segments

How many outstanding segments are marked lost and how many are not, and what each operation of the ledger
does to the two numbers.
-/

namespace Pacing

/-! ## Counts over a map -/

namespace SeqMap

variable {β : Type}

theorem countP_insertEntry {k : Nat} {v : β} {l : List (Nat × β)} (p : Nat → β → Bool)
    (h : l.lookup k = none) :
    (insertEntry k v l).countP (fun e => p e.1 e.2) =
      l.countP (fun e => p e.1 e.2) + if p k v then 1 else 0 := by
  induction l with
  | nil => simp [insertEntry, List.countP_cons]
  | cons e r ih =>
      rw [lookup_entry] at h
      split at h
      · cases h
      · rw [insertEntry]
        split
        · rw [List.countP_cons]
        · rw [if_pos (by omega), List.countP_cons, List.countP_cons, ih h]
          omega

theorem countP_eq_erase {k : Nat} {v : β} {l : List (Nat × β)} (p : Nat → β → Bool)
    (hs : l.Pairwise (fun a b => a.1 < b.1)) (h : l.lookup k = some v) :
    l.countP (fun e => p e.1 e.2) =
      l.countP (fun e => p e.1 e.2 && e.1 != k) + if p k v then 1 else 0 := by
  induction l with
  | nil => cases h
  | cons e r ih =>
      obtain ⟨he, hr⟩ := List.pairwise_cons.1 hs
      rw [lookup_entry] at h
      rw [List.countP_cons, List.countP_cons]
      split at h
      · -- the entry taken out is the first one, and no later one has its number
        rename_i hk
        cases h
        have hne : r.countP (fun e => p e.1 e.2 && e.1 != k) = r.countP (fun e => p e.1 e.2) :=
          List.countP_congr fun x hx => by
            have := he x hx
            have hx : x.1 ≠ k := by omega
            simp [hx]
        rw [hne]
        simp [hk]
      · rename_i hk
        have hk : e.1 ≠ k := fun h => hk h.symm
        rw [ih hr h]
        simp only [bne, beq_eq_false_iff_ne.mpr hk, Bool.not_false, Bool.and_true]
        omega

theorem count_insert {m : SeqMap β} {k : Nat} {v : β} (p : Nat → β → Bool) (h : m.find? k = none) :
    (m.insert k v).count p = m.count p + if p k v then 1 else 0 :=
  countP_insertEntry p h

theorem count_filter (m : SeqMap β) (p q : Nat → β → Bool) :
    (m.filter q).count p = m.count fun i v => p i v && q i v := by
  simp [count, filter, List.countP_filter]

theorem count_eq_erase {m : SeqMap β} {k : Nat} {v : β} (p : Nat → β → Bool)
    (h : m.find? k = some v) : m.count p = (m.erase k).count p + if p k v then 1 else 0 := by
  rw [erase, count_filter]
  exact countP_eq_erase p m.sorted h

theorem count_map (m : SeqMap β) (p : Nat → β → Bool) (f : Nat → β → β) :
    (m.map f).count p = m.count fun i v => p i (f i v) := by
  simp only [count, map, List.countP_map]
  rfl

theorem count_congr {m : SeqMap β} {p q : Nat → β → Bool}
    (h : ∀ i v, m.find? i = some v → p i v = q i v) : m.count p = m.count q :=
  List.countP_congr fun e he => by rw [h e.1 e.2 ((m.mem_entries_iff e.1 e.2).1 he)]

theorem count_add_count (m : SeqMap β) (p q : Nat → β → Bool) :
    (m.count fun i v => p i v && q i v) + (m.count fun i v => p i v && !q i v) = m.count p := by
  have h := List.countP_eq_countP_filter_add m.entries (fun e => p e.1 e.2) fun e => q e.1 e.2
  simp only [List.countP_filter] at h
  exact h.symm

theorem count_pos {m : SeqMap β} {k : Nat} {v : β} {p : Nat → β → Bool} (h : m.find? k = some v)
    (hp : p k v = true) : 0 < m.count p :=
  List.countP_pos_iff.2 ⟨(k, v), (m.mem_entries_iff k v).2 h, hp⟩

end SeqMap

/-! ## Live and lost segments -/

namespace Ledger

variable {α : Type}

/-- How many outstanding segments are not marked lost. -/
def live (l : Ledger α) : Nat := l.outstanding.count fun _ s => !s.lost

/-- How many outstanding segments are marked lost. -/
def lost (l : Ledger α) : Nat := l.outstanding.count fun _ s => s.lost

theorem lost_pos {l : Ledger α} {seq : Nat} {s : Segment α} (h : l.find? seq = some s)
    (hs : s.lost = true) : 0 < l.lost :=
  SeqMap.count_pos h hs

theorem live_settle {l : Ledger α} {seq : Nat} {s : Segment α} (h : l.find? seq = some s) :
    (l.settle seq).live + (if s.lost then 0 else 1) = l.live := by
  rw [live, live, SeqMap.count_eq_erase _ h]
  cases s.lost <;> simp [settle]

theorem lost_settle {l : Ledger α} {seq : Nat} {s : Segment α} (h : l.find? seq = some s) :
    (l.settle seq).lost + (if s.lost then 1 else 0) = l.lost := by
  rw [lost, lost, SeqMap.count_eq_erase _ h]
  rfl

theorem live_markLosses (l : Ledger α) (seq : Nat) :
    (l.markLosses seq).live + l.newLosses seq = l.live := by
  unfold live newLosses markLosses
  rw [SeqMap.count_map, ← l.outstanding.count_add_count (fun _ s => !s.lost) fun i _ => i < seq,
    Nat.add_comm]
  congr 1
  · exact SeqMap.count_congr fun i s _ => Bool.and_comm ..
  · exact SeqMap.count_congr fun i s _ => by by_cases h : i < seq <;> simp [h]

theorem lost_markLosses (l : Ledger α) (seq : Nat) :
    (l.markLosses seq).lost = l.lost + l.newLosses seq := by
  unfold lost newLosses markLosses
  rw [SeqMap.count_map, ← SeqMap.count_add_count _ _ fun _ s => s.lost]
  congr 1
  · exact SeqMap.count_congr fun i s _ => by
      by_cases h : i < seq <;> cases hs : s.lost <;> simp [h, hs]
  · exact SeqMap.count_congr fun i s _ => by
      by_cases h : i < seq <;> cases hs : s.lost <;> simp [h, hs]

variable [Scalar α]

theorem live_recordSent {l l' : Ledger α} {seq : Nat} {now : α} {n : Nat}
    (h : l.recordSent seq now n = .ok l') : l'.live = l.live + 1 ∧ l'.lost = l.lost := by
  unfold recordSent at h
  split at h
  · cases h
  · rename_i hc
    cases h
    have hn : l.outstanding.find? seq = none := by
      simpa [SeqMap.contains] using hc
    exact ⟨SeqMap.count_insert _ hn, SeqMap.count_insert _ hn⟩

theorem contains_recordSent {l l' : Ledger α} {seq i : Nat} {now : α} {n : Nat} {s : Segment α}
    (h : l.recordSent seq now n = .ok l') (hs : l.find? i = some s) :
    l'.outstanding.contains i = true := by
  unfold recordSent at h
  split at h
  · cases h
  · cases h
    simp only [SeqMap.contains, SeqMap.find?_insert]
    split
    · rfl
    · exact Option.isSome_of_eq_some hs

/-- How many lost segments a horizon leaves behind. -/
def expiring (l : Ledger α) (horizon : α) : Nat :=
  l.outstanding.count fun _ s => s.lost && s.sendTstamp < horizon

theorem live_expireLost (l : Ledger α) (horizon : α) : (l.expireLost horizon).live = l.live := by
  unfold live expireLost
  rw [SeqMap.count_filter]
  exact SeqMap.count_congr fun i s _ => by cases s.lost <;> simp

theorem lost_expireLost (l : Ledger α) (horizon : α) :
    (l.expireLost horizon).lost + l.expiring horizon = l.lost := by
  unfold lost expireLost expiring
  rw [SeqMap.count_filter, ← l.outstanding.count_add_count (fun _ s => s.lost)
    fun _ s => !(s.lost && s.sendTstamp < horizon)]
  congr 1
  exact SeqMap.count_congr fun i s _ => by cases s.lost <;> simp

/-- What an ack and the expiry after it take out of the ledger, the acked segment apart, was expiring. -/
theorem count_gone (l : Ledger α) (seq : Nat) (horizon : α) :
    (l.outstanding.count fun i _ =>
      !(((l.settle seq).markLosses seq).expireLost horizon).outstanding.contains i && i != seq) =
      ((l.settle seq).markLosses seq).expiring horizon := by
  unfold expiring markLosses settle SeqMap.erase expireLost
  rw [SeqMap.count_map, SeqMap.count_filter]
  refine SeqMap.count_congr fun i s hs => ?_
  rw [SeqMap.contains, SeqMap.find?_filter, SeqMap.find?_map, SeqMap.find?_filter, hs]
  by_cases hi : i = seq
  · simp [hi]
  · simp only [Option.filter_some, bne, beq_eq_false_iff_ne.mpr hi, Bool.not_false, if_true,
      Option.map_some, Bool.and_true]
    generalize (if i < seq then { s with lost := true } else s) = m
    cases hm : m.lost <;> by_cases ht : m.sendTstamp < horizon <;> simp [ht]

end Ledger

end Pacing

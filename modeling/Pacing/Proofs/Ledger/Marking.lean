import Mathlib.Algebra.GroupWithZero.Nat
import Pacing.Proofs.Ledger.Count

/-!
# Marking losses again and again

Marks for several numbers come to the marks for the greatest of them, and each segment is counted by the first of
them alone that reaches it. So neither their order nor their repetition makes a difference, to the ledger or to
the sum of the counts.
-/

namespace Pacing.Ledger

variable {α : Type}

/-- Marks losses for one number after another, and tells how many segments each of them newly marked. -/
def markEach (l : Ledger α) : List Nat → Ledger α × List Nat
  | [] => (l, [])
  | seq :: seqs =>
    let (last, counts) := (l.markLosses seq).markEach seqs
    (last, l.newLosses seq :: counts)

/-- The greatest of some sequence numbers. There is no segment below that of none. -/
def highest (seqs : List Nat) : Nat := seqs.max?.getD 0

theorem highest_cons (seq : Nat) (seqs : List Nat) : highest (seq :: seqs) = max seq (highest seqs) := by
  unfold highest
  rw [List.max?_cons]
  cases seqs.max? <;> simp

/-! ## Marks for two numbers -/

theorem find?_markLosses (l : Ledger α) (seq i : Nat) :
    (l.markLosses seq).find? i = (l.find? i).map fun s => { s with lost := s.lost || decide (i < seq) } := by
  rw [find?, markLosses, SeqMap.find?_map, find?]
  refine Option.map_congr fun s _ => ?_
  by_cases hi : i < seq <;> simp [hi]

theorem ext_find? {l l' : Ledger α} (h : ∀ i, l.find? i = l'.find? i) (hr : l.resolved = l'.resolved) : l = l' := by
  obtain ⟨m, r⟩ := l
  obtain ⟨m', r'⟩ := l'
  rw [Ledger.mk.injEq]
  exact ⟨SeqMap.ext_find? h, hr⟩

theorem markLosses_zero (l : Ledger α) : l.markLosses 0 = l :=
  ext_find? (fun i => by simp [find?_markLosses]) rfl

theorem markLosses_markLosses (l : Ledger α) (a b : Nat) :
    (l.markLosses a).markLosses b = l.markLosses (max a b) := by
  refine ext_find? (fun i => ?_) rfl
  rw [find?_markLosses, find?_markLosses, find?_markLosses, Option.map_map]
  refine Option.map_congr fun s _ => ?_
  have hlt : i < max a b ↔ i < a ∨ i < b := by omega
  simp [hlt, Bool.or_assoc]

theorem newLosses_zero (l : Ledger α) : l.newLosses 0 = 0 := by
  simp [newLosses, SeqMap.count]

/-- What two numbers mark one after the other is live before them and not after. -/
theorem newLosses_add_newLosses (l : Ledger α) (a b : Nat) :
    l.newLosses a + (l.markLosses a).newLosses b = l.newLosses (max a b) := by
  have hfirst := l.live_markLosses a
  have hsecond := (l.markLosses a).live_markLosses b
  have hboth := l.live_markLosses (max a b)
  rw [markLosses_markLosses] at hsecond
  omega

/-! ## Marks for any numbers -/

theorem markEach_eq (l : Ledger α) (seqs : List Nat) :
    (l.markEach seqs).1 = l.markLosses (highest seqs) ∧
      (l.markEach seqs).2.sum = l.newLosses (highest seqs) := by
  induction seqs generalizing l with
  | nil => exact ⟨l.markLosses_zero.symm, l.newLosses_zero.symm⟩
  | cons seq seqs ih =>
      obtain ⟨hledger, hsum⟩ := ih (l.markLosses seq)
      rw [highest_cons, ← markLosses_markLosses, ← newLosses_add_newLosses]
      exact ⟨hledger, congrArg (l.newLosses seq + ·) hsum⟩

/-- However numbers are ordered and repeated, marks for them are counted once for each segment below the greatest
that was not lost. These segments are lost afterwards, and nothing else is different. -/
theorem marking_order_free (l : Ledger α) (seqs : List Nat) :
    (l.markEach seqs).2.sum =
        (l.outstanding.entries.filter fun e => e.1 < highest seqs && !e.2.lost).length ∧
      (∀ i, (l.markEach seqs).1.find? i =
        (l.find? i).map fun s => { s with lost := s.lost || decide (i < highest seqs) }) ∧
      (l.markEach seqs).1.resolved = l.resolved ∧
      ∀ seqs', seqs'.max? = seqs.max? →
        (l.markEach seqs').1 = (l.markEach seqs).1 ∧ (l.markEach seqs').2.sum = (l.markEach seqs).2.sum := by
  obtain ⟨hledger, hsum⟩ := l.markEach_eq seqs
  rw [hledger, hsum]
  refine ⟨List.countP_eq_length_filter, l.find?_markLosses _, rfl, fun seqs' hmax => ?_⟩
  obtain ⟨hledger', hsum'⟩ := l.markEach_eq seqs'
  have hhighest : highest seqs' = highest seqs := congrArg (·.getD 0) hmax
  rw [hledger', hsum', hhighest]
  exact ⟨rfl, rfl⟩

end Pacing.Ledger

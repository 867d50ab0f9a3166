import Mathlib.Order.Monotone.Basic
import Pacing.Proofs.Flow.Stages
import Pacing.Proofs.Ledger.Memory

/-!
# Ledgers under other numbers

A ledger compares sequence numbers and does nothing else with them. So a renaming that keeps the order of the
numbers in use goes through every operation: the entries stay in their order, an ack finds the same segment and
marks the same ones lost.
-/

namespace Pacing

variable {f : Nat → Nat} {S : Set Nat}

/-! ## Maps -/

namespace SeqMap

variable {β : Type}

/-- The same entries in the same order, under other numbers. -/
def Renamed (f : Nat → Nat) (m m' : SeqMap β) : Prop := m'.entries = m.entries.map fun e => (f e.1, e.2)

/-- The numbers of the map belong to `S`. -/
def Within (S : Set Nat) (m : SeqMap β) : Prop := ∀ e ∈ m.entries, e.1 ∈ S

theorem lookup_rename (hf : StrictMonoOn f S) {l : List (Nat × β)} (hl : ∀ e ∈ l, e.1 ∈ S) {k : Nat} (hk : k ∈ S) :
    (l.map fun e => (f e.1, e.2)).lookup (f k) = l.lookup k := by
  induction l with
  | nil => rfl
  | cons e r ih =>
      obtain ⟨he, hr⟩ := List.forall_mem_cons.mp hl
      rw [List.map_cons, lookup_entry, lookup_entry, ih hr]
      simp only [hf.eq_iff_eq hk he]

theorem insertEntry_rename (hf : StrictMonoOn f S) {l : List (Nat × β)} (hl : ∀ e ∈ l, e.1 ∈ S) {k : Nat}
    (hk : k ∈ S) (v : β) :
    insertEntry (f k) v (l.map fun e => (f e.1, e.2)) = (insertEntry k v l).map fun e => (f e.1, e.2) := by
  induction l with
  | nil => rfl
  | cons e r ih =>
      obtain ⟨he, hr⟩ := List.forall_mem_cons.mp hl
      rw [List.map_cons, insertEntry, insertEntry]
      simp only [hf.lt_iff_lt hk he, hf.lt_iff_lt he hk, ih hr]
      split
      · rfl
      · split <;> rfl

namespace Renamed

variable {m m' : SeqMap β} (h : m.Renamed f m') (hf : StrictMonoOn f S) (hm : m.Within S)

include h

theorem size : m'.size = m.size := by
  rw [SeqMap.size, h, List.length_map]
  rfl

include hf hm

theorem find? {k : Nat} (hk : k ∈ S) : m'.find? (f k) = m.find? k := by
  rw [SeqMap.find?, h]
  exact lookup_rename hf hm hk

theorem insert {k : Nat} (hk : k ∈ S) (v : β) : (m.insert k v).Renamed f (m'.insert (f k) v) := by
  change SeqMap.insertEntry (f k) v m'.entries = _
  rw [h]
  exact insertEntry_rename hf hm hk v

omit hf

theorem filter {p q : Nat → β → Bool} (hpq : ∀ i ∈ S, ∀ v, q (f i) v = p i v) :
    (m.filter p).Renamed f (m'.filter q) := by
  change m'.entries.filter (fun e => q e.1 e.2) = (m.entries.filter fun e => p e.1 e.2).map _
  rw [h, List.filter_map]
  exact congrArg _ (List.filter_congr fun e he => hpq e.1 (hm e he) e.2)

theorem map {g g' : Nat → β → β} (hg : ∀ i ∈ S, ∀ v, g' (f i) v = g i v) : (m.map g).Renamed f (m'.map g') := by
  change m'.entries.map (fun e => (e.1, g' e.1 e.2)) = (m.entries.map fun e => (e.1, g e.1 e.2)).map _
  rw [h, List.map_map, List.map_map]
  exact List.map_congr_left fun e he => congrArg (f e.1, ·) (hg e.1 (hm e he) e.2)

theorem count {p q : Nat → β → Bool} (hpq : ∀ i ∈ S, ∀ v, q (f i) v = p i v) : m'.count q = m.count p := by
  rw [SeqMap.count, h, List.countP_map]
  exact List.countP_congr fun e he => by
    rw [← hpq e.1 (hm e he) e.2]
    rfl

end Renamed

namespace Within

variable {m : SeqMap β} (hm : m.Within S)

include hm

theorem insert {k : Nat} (hk : k ∈ S) (v : β) : (m.insert k v).Within S := by
  intro e he
  rcases mem_insertEntry he with rfl | he
  · exact hk
  · exact hm e he

theorem filter (p : Nat → β → Bool) : (m.filter p).Within S :=
  fun e he => hm e (List.mem_of_mem_filter he)

theorem map (g : Nat → β → β) : (m.map g).Within S := by
  intro e he
  obtain ⟨e', he', rfl⟩ := List.mem_map.mp he
  exact hm e' he'

end Within

end SeqMap

/-! ## Memories -/

/-- The same memory but for the numbers in it. -/
structure Memory.Renamed (f : Nat → Nat) (m m' : Memory) : Prop where
  capacity : m'.capacity = m.capacity
  queue : m'.queue = m.queue.map f
  sound : m.Sound
  renamed_sound : m'.Sound

namespace Memory.Renamed

variable {m m' : Memory}

theorem empty (capacity : Nat) : (Memory.empty capacity).Renamed f (.empty capacity) :=
  ⟨rfl, rfl, .empty capacity, .empty capacity⟩

theorem clear (h : m.Renamed f m') : m.clear.Renamed f m'.clear :=
  ⟨h.capacity, rfl, .clear m, .clear m'⟩

variable (h : m.Renamed f m') (hf : StrictMonoOn f S) (hm : ∀ seq ∈ m.queue, seq ∈ S)

include h hf hm

theorem mem_queue_iff {seq : Nat} (hseq : seq ∈ S) : f seq ∈ m'.queue ↔ seq ∈ m.queue := by
  rw [h.queue, List.mem_map]
  constructor
  · rintro ⟨old, hold, heq⟩
    exact hf.injOn (hm old hold) hseq heq ▸ hold
  · exact fun hmem => ⟨seq, hmem, rfl⟩

theorem contains {seq : Nat} (hseq : seq ∈ S) : m'.contains (f seq) = m.contains seq := by
  rw [Bool.eq_iff_iff, h.renamed_sound.contains_iff, h.sound.contains_iff]
  exact h.mem_queue_iff hf hm hseq

theorem remember {seq : Nat} (hseq : seq ∈ S) : (m.remember seq).Renamed f (m'.remember (f seq)) where
  capacity := by rw [capacity_remember, capacity_remember, h.capacity]
  queue := by
    have hlength : m'.queue.length = m.queue.length := by rw [h.queue, List.length_map]
    rw [h.sound.queue_remember, h.renamed_sound.queue_remember]
    simp only [h.mem_queue_iff hf hm hseq, hlength, h.capacity]
    split
    · exact h.queue
    · split <;> simp [h.queue]
  sound := h.sound.remember seq
  renamed_sound := h.renamed_sound.remember (f seq)

end Memory.Renamed

theorem Memory.mem_queue_remember {m : Memory} (hsound : m.Sound) {seq : Nat} (hseq : seq ∈ S)
    (hm : ∀ i ∈ m.queue, i ∈ S) : ∀ i ∈ (m.remember seq).queue, i ∈ S := by
  intro i hi
  rw [hsound.queue_remember] at hi
  split at hi
  · exact hm i hi
  · split at hi <;> rcases List.mem_append.mp hi with hi | hi
    · exact hm i (List.mem_of_mem_tail hi)
    · exact List.mem_singleton.mp hi ▸ hseq
    · exact hm i hi
    · exact List.mem_singleton.mp hi ▸ hseq

/-! ## Ledgers -/

/-- The number in an anomaly renamed. -/
def Anomaly.rename (f : Nat → Nat) : Anomaly → Anomaly
  | .unknownAck seq => .unknownAck (f seq)
  | .duplicateAck seq => .duplicateAck (f seq)
  | .duplicateSend seq => .duplicateSend (f seq)
  | .reorderedDelivery seq => .reorderedDelivery (f seq)
  | .timeout => .timeout

variable {α : Type}

namespace Ledger

/-- The same segments in the same order and the same memory, under other numbers. -/
structure Renamed (f : Nat → Nat) (l l' : Ledger α) : Prop where
  outstanding : l.outstanding.Renamed f l'.outstanding
  resolved : l.resolved.Renamed f l'.resolved

/-- The numbers in the ledger and in its memory belong to `S`. -/
structure Within (S : Set Nat) (l : Ledger α) : Prop where
  outstanding : l.outstanding.Within S
  resolved : ∀ seq ∈ l.resolved.queue, seq ∈ S

theorem Renamed.empty (memory : Nat) : (Ledger.empty memory : Ledger α).Renamed f (.empty memory) :=
  ⟨rfl, .empty memory⟩

theorem Within.empty (memory : Nat) : (Ledger.empty memory : Ledger α).Within S := ⟨nofun, nofun⟩

theorem Renamed.clear {l l' : Ledger α} (h : l.Renamed f l') : l.clear.Renamed f l'.clear :=
  ⟨rfl, h.resolved.clear⟩

theorem Within.clear (l : Ledger α) : l.clear.Within S := ⟨nofun, nofun⟩

section operations

variable {l l' : Ledger α} (h : l.Renamed f l') (hf : StrictMonoOn f S) (hl : l.Within S) {seq : Nat} (hseq : seq ∈ S)

include h hf hl hseq

theorem Renamed.find? : l'.find? (f seq) = l.find? seq := h.outstanding.find? hf hl.outstanding hseq

theorem Renamed.settle : (l.settle seq).Renamed f (l'.settle (f seq)) where
  outstanding := h.outstanding.filter hl.outstanding fun i hi _ => by
    simp only [bne, BEq.beq, decide_eq_decide.mpr (hf.eq_iff_eq hi hseq)]
  resolved := h.resolved.remember hf hl.resolved hseq

omit h hf in
theorem Within.settle (hsound : l.resolved.Sound) : (l.settle seq).Within S where
  outstanding := hl.outstanding.filter _
  resolved := Memory.mem_queue_remember hsound hseq hl.resolved

theorem Renamed.markLosses : (l.markLosses seq).Renamed f (l'.markLosses (f seq)) where
  outstanding := h.outstanding.map hl.outstanding fun i hi s => by simp only [hf.lt_iff_lt hi hseq]
  resolved := h.resolved

omit h hf hseq in
theorem Within.markLosses (seq : Nat) : (l.markLosses seq).Within S := ⟨hl.outstanding.map _, hl.resolved⟩

theorem Renamed.newLosses : l'.newLosses (f seq) = l.newLosses seq :=
  h.outstanding.count hl.outstanding fun i hi s => by simp only [hf.lt_iff_lt hi hseq]

theorem Renamed.resolve :
    (∃ s, l.resolve seq = .ok (s, l.settle seq) ∧ l'.resolve (f seq) = .ok (s, l'.settle (f seq))) ∨
      ∃ a, l.resolve seq = .error a ∧ l'.resolve (f seq) = .error (a.rename f) := by
  have hfind : l'.outstanding.find? (f seq) = l.outstanding.find? seq := h.find? hf hl hseq
  have hcontains := h.resolved.contains hf hl.resolved hseq
  unfold Ledger.resolve
  rw [hfind, hcontains]
  cases l.outstanding.find? seq with
  | some s => exact .inl ⟨s, rfl, rfl⟩
  | none =>
      right
      dsimp only
      split
      · exact ⟨_, rfl, rfl⟩
      · exact ⟨_, rfl, rfl⟩

variable [Scalar α]

theorem Renamed.recordSent (now : α) (n : Nat) :
    (∃ k k', l.recordSent seq now n = .ok k ∧ l'.recordSent (f seq) now n = .ok k' ∧ k.Renamed f k' ∧ k.Within S) ∨
      ∃ a, l.recordSent seq now n = .error a ∧ l'.recordSent (f seq) now n = .error (a.rename f) := by
  have hcontains : l'.outstanding.contains (f seq) = l.outstanding.contains seq :=
    congrArg Option.isSome (h.find? hf hl hseq)
  unfold Ledger.recordSent
  rw [hcontains]
  split
  · exact .inr ⟨_, rfl, rfl⟩
  · refine .inl ⟨_, _, rfl, rfl, ⟨?_, h.resolved⟩, ⟨hl.outstanding.insert hseq _, hl.resolved⟩⟩
    exact h.outstanding.insert hf hl.outstanding hseq _

omit hf hseq

theorem Renamed.expireLost (horizon : α) : (l.expireLost horizon).Renamed f (l'.expireLost horizon) :=
  ⟨h.outstanding.filter hl.outstanding fun _ _ _ => rfl, h.resolved⟩

omit h in
theorem Within.expireLost (horizon : α) : (l.expireLost horizon).Within S :=
  ⟨hl.outstanding.filter _, hl.resolved⟩

end operations

end Ledger

end Pacing

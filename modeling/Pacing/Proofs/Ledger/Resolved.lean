import Pacing.Ledger
import Pacing.Proofs.Ledger.Memory

/-!
# What a ledger remembers of resolved segments

Whatever is done to a ledger, its memory is the end of a log. The log has the numbers that were resolved while
they were not remembered, since the last clear, and the memory has the last of them, as many as its capacity. So a
number is forgotten when as many others have come after it, and not before.
-/

namespace Pacing

namespace Ledger

variable {α : Type} {l : Ledger α} {seq : Nat}

/-! ## Operations -/

/-- What can be done to a ledger. -/
inductive Op (α : Type)
  | sent (seq : Nat) (now : α) (delivered : Nat)
  | ack (seq : Nat)
  | losses (seq : Nat)
  | expire (horizon : α)
  | clear

/-- The number that an operation resolves while it is not remembered. -/
def newlyResolved? (l : Ledger α) : Op α → Option Nat
  | .ack seq => if (l.find? seq).isSome ∧ seq ∉ l.resolved.queue then some seq else none
  | _ => none

/-- The log after an operation. A clear begins it anew. -/
def log (l : Ledger α) (entered : List Nat) : Op α → List Nat
  | .clear => []
  | op => entered ++ (l.newlyResolved? op).toList

theorem log_ack (l : Ledger α) (entered : List Nat) (h : (l.find? seq).isSome = true) :
    l.log entered (.ack seq) = if seq ∈ l.resolved.queue then entered else entered ++ [seq] := by
  by_cases hmem : seq ∈ l.resolved.queue <;> simp [log, newlyResolved?, h, hmem]

theorem resolve_of_find?_eq_none (h : l.find? seq = none) :
    l.resolve seq = .error (if l.resolved.contains seq then .duplicateAck seq else .unknownAck seq) := by
  change l.outstanding.find? seq = none at h
  simp only [resolve, h]
  split <;> rfl

variable [Scalar α]

/-- The ledger after an operation. One that is refused leaves it as it was. -/
def apply (l : Ledger α) : Op α → Ledger α
  | .sent seq now delivered =>
    match l.recordSent seq now delivered with
    | .ok recorded => recorded
    | .error _ => l
  | .ack seq =>
    match l.resolve seq with
    | .ok (_, resolved) => resolved
    | .error _ => l
  | .losses seq => l.markLosses seq
  | .expire horizon => l.expireLost horizon
  | .clear => l.clear

def after (memory : Nat) (ops : List (Op α)) : Ledger α := ops.foldl apply (empty memory)

/-- The numbers that were resolved while they were not remembered, since the last clear. -/
def entered (memory : Nat) (ops : List (Op α)) : List Nat :=
  (ops.foldl (fun p op => (p.1.apply op, p.1.log p.2 op)) (empty memory, [])).2

theorem after_concat (memory : Nat) (ops : List (Op α)) (op : Op α) :
    after memory (ops ++ [op]) = (after memory ops).apply op :=
  List.foldl_concat ..

theorem entered_concat (memory : Nat) (ops : List (Op α)) (op : Op α) :
    entered memory (ops ++ [op]) = (after memory ops).log (entered memory ops) op := by
  have hledger : ∀ (l : Ledger α) (e : List Nat),
      (ops.foldl (fun p op => (p.1.apply op, p.1.log p.2 op)) (l, e)).1 = ops.foldl apply l := by
    induction ops with
    | nil => exact fun _ _ => rfl
    | cons op ops ih => exact fun l e => ih _ _
  rw [entered, List.foldl_concat, hledger]
  rfl

/-! ## One operation -/

theorem apply_ack_of_find?_eq_none (h : l.find? seq = none) : l.apply (.ack seq) = l := by
  rw [apply, resolve_of_find?_eq_none h]

theorem resolve_of_find?_eq_some {s : Segment α} (h : l.find? seq = some s) :
    l.resolve seq = .ok (s, l.apply (.ack seq)) := by
  change l.outstanding.find? seq = some s at h
  simp only [apply, resolve, h]

theorem resolved_apply_ack {s : Segment α} (h : l.find? seq = some s) :
    (l.apply (.ack seq)).resolved = l.resolved.remember seq := by
  change l.outstanding.find? seq = some s at h
  simp only [apply, resolve, h, settle]

theorem resolved_apply_sent (l : Ledger α) (seq : Nat) (now : α) (delivered : Nat) :
    (l.apply (.sent seq now delivered)).resolved = l.resolved := by
  by_cases h : l.outstanding.contains seq = true <;> simp [apply, recordSent, h]

/-- A clear begins a new memory, an ack that finds its segment is remembered, and nothing else counts. -/
theorem resolved_cases (l : Ledger α) (op : Op α) :
    (op = .clear ∧ (l.apply op).resolved = l.resolved.clear) ∨
      (∃ seq, op = .ack seq ∧ (l.find? seq).isSome = true ∧ (l.apply op).resolved = l.resolved.remember seq) ∨
      ((∀ entered, l.log entered op = entered) ∧ (l.apply op).resolved = l.resolved) := by
  cases op with
  | clear => exact .inl ⟨rfl, rfl⟩
  | ack seq =>
      cases h : l.find? seq with
      | some s => exact .inr (.inl ⟨seq, rfl, by rw [h]; rfl, resolved_apply_ack h⟩)
      | none =>
          refine .inr (.inr ⟨fun entered => ?_, congrArg resolved (apply_ack_of_find?_eq_none h)⟩)
          simp [log, newlyResolved?, h]
  | sent seq now delivered =>
      exact .inr (.inr ⟨fun _ => List.append_nil _, resolved_apply_sent l seq now delivered⟩)
  | losses seq => exact .inr (.inr ⟨fun _ => List.append_nil _, rfl⟩)
  | expire horizon => exact .inr (.inr ⟨fun _ => List.append_nil _, rfl⟩)

theorem sound_apply (h : l.resolved.Sound) (op : Op α) : (l.apply op).resolved.Sound := by
  obtain ⟨-, hr⟩ | ⟨seq, -, -, hr⟩ | ⟨-, hr⟩ := l.resolved_cases op <;> rw [hr]
  · exact .clear _
  · exact h.remember seq
  · exact h

theorem capacity_apply (l : Ledger α) (op : Op α) : (l.apply op).resolved.capacity = l.resolved.capacity := by
  obtain ⟨-, hr⟩ | ⟨seq, -, -, hr⟩ | ⟨-, hr⟩ := l.resolved_cases op <;> rw [hr]
  · rfl
  · exact Memory.capacity_remember _ seq

/-- The queue stays the end of the log. -/
theorem queue_apply (h : l.resolved.Sound) {entered : List Nat}
    (hqueue : l.resolved.queue = entered.rtake l.resolved.capacity) (op : Op α) :
    (l.apply op).resolved.queue = (l.log entered op).rtake l.resolved.capacity := by
  obtain ⟨rfl, hr⟩ | ⟨seq, rfl, hfound, hr⟩ | ⟨hlog, hr⟩ := l.resolved_cases op
  · rw [hr, log, List.rtake_nil]
    rfl
  · rw [hr, h.queue_remember_eq_rtake, log_ack l entered hfound]
    split
    · exact hqueue
    · rw [hqueue, rtake_rtake_append]
  · rw [hr, hlog, hqueue]

/-- A number comes into the queue by an ack that finds its segment. -/
theorem mem_queue_apply_iff (h : l.resolved.Sound) (hnew : seq ∉ l.resolved.queue) (op : Op α) :
    seq ∈ (l.apply op).resolved.queue ↔
      0 < l.resolved.capacity ∧ op = .ack seq ∧ (l.find? seq).isSome = true := by
  obtain ⟨rfl, hr⟩ | ⟨acked, rfl, hfound, hr⟩ | ⟨hlog, hr⟩ := l.resolved_cases op
  · simp [hr, Memory.clear, Memory.empty]
  · rw [hr, h.mem_queue_remember_iff hnew, Op.ack.injEq]
    refine and_congr_right fun _ => ⟨?_, And.left⟩
    rintro rfl
    exact ⟨rfl, hfound⟩
  · rw [hr]
    refine iff_of_false hnew ?_
    rintro ⟨-, rfl, hfound⟩
    have hnone := hlog []
    simp [log_ack l [] hfound, hnew] at hnone

/-- A number that is remembered keeps its place when it is resolved again. -/
theorem resolved_apply_ack_of_mem (h : l.resolved.Sound) (hmem : seq ∈ l.resolved.queue) :
    (l.apply (.ack seq)).resolved = l.resolved := by
  cases hfound : l.find? seq with
  | none => rw [apply_ack_of_find?_eq_none hfound]
  | some s =>
      rw [resolved_apply_ack hfound, Memory.remember, if_pos (.inr ((h.contains_iff seq).mpr hmem))]

/-! ## Sequences of operations -/

theorem sound_after (memory : Nat) (ops : List (Op α)) : (after memory ops).resolved.Sound := by
  induction ops using List.reverseRecOn with
  | nil => exact .empty memory
  | append_singleton ops op ih =>
      rw [after_concat]
      exact sound_apply ih op

theorem capacity_after (memory : Nat) (ops : List (Op α)) : (after memory ops).resolved.capacity = memory := by
  induction ops using List.reverseRecOn with
  | nil => rfl
  | append_singleton ops op ih => rw [after_concat, capacity_apply, ih]

theorem queue_after (memory : Nat) (ops : List (Op α)) :
    (after memory ops).resolved.queue = (entered memory ops).rtake memory := by
  induction ops using List.reverseRecOn with
  | nil => simp [after, entered, empty, Memory.empty]
  | append_singleton ops op ih =>
      have hcapacity := capacity_after memory ops
      rw [after_concat, entered_concat, queue_apply (sound_after memory ops) (by rw [hcapacity, ih]), hcapacity]

/-- A number is forgotten with a clear, or when as many others as the memory has room for have come after it. -/
theorem forgotten_iff (memory : Nat) (ops : List (Op α)) (op : Op α)
    (hmem : seq ∈ (after memory ops).resolved.queue) :
    seq ∉ ((after memory ops).apply op).resolved.queue ↔ op = .clear ∨
      ∃ earlier later, entered memory (ops ++ [op]) = earlier ++ seq :: later ∧
        seq ∉ later ∧ later.Nodup ∧ later.length = memory := by
  have hqueue : ((after memory ops).apply op).resolved.queue = (entered memory (ops ++ [op])).rtake memory := by
    rw [← after_concat, queue_after]
  have hnodup : ((entered memory (ops ++ [op])).rtake memory).Nodup :=
    hqueue ▸ (sound_apply (sound_after memory ops) op).nodup
  constructor
  · intro hnot
    obtain ⟨rfl, -⟩ | ⟨acked, rfl, hfound, hr⟩ | ⟨-, hr⟩ := (after memory ops).resolved_cases op
    · exact .inl rfl
    · -- Only a new number can push another one out, and only the last that there is room for.
      have hnew : acked ∉ (after memory ops).resolved.queue := fun hold =>
        hnot (by rwa [resolved_apply_ack_of_mem (sound_after memory ops) hold])
      have hbefore := (sound_after memory ops).nodup
      rw [queue_after] at hbefore hmem hnew
      obtain ⟨earlier, later, hsplit, hlater, hlength⟩ := exists_split_of_mem_rtake hbefore hmem
      have hentered : entered memory (ops ++ [.ack acked]) = earlier ++ seq :: (later ++ [acked]) := by
        rw [entered_concat, log_ack _ _ hfound, queue_after, if_neg hnew, hsplit, List.append_assoc,
          List.cons_append]
      have hfull : (later ++ [acked]).length = memory := by
        by_contra hne
        rw [List.length_append, List.length_singleton] at hne
        rw [hqueue, hentered] at hnot
        exact hnot (mem_rtake_of_length_lt (by rw [List.length_append, List.length_singleton]; omega))
      have hother : seq ≠ acked := fun heq => hnew (heq ▸ hmem)
      rw [hentered, List.append_cons, rtake_append_of_length_eq hfull] at hnodup
      exact .inr ⟨earlier, later ++ [acked], hentered, by simp [hlater, hother], hnodup, hfull⟩
    · exact absurd (hr ▸ hmem) hnot
  · rintro (rfl | ⟨earlier, later, hentered, hlater, -, hlength⟩)
    · simp [apply, clear, Memory.clear, Memory.empty]
    · rwa [hqueue, hentered, List.append_cons, rtake_append_of_length_eq hlength]

/-- After any operations, the memory holds what it should of the resolved numbers, and it is by the memory that an
ack of a segment that is not outstanding is a duplicate or unknown. A number enters it when it is resolved anew,
keeps its place when it is resolved again, and is forgotten when as many others have entered as there is room
for. -/
theorem resolved_memory_account (memory : Nat) (ops : List (Op α)) :
    let l := after memory ops
    let queue := l.resolved.queue
    (queue.Nodup ∧ (∀ seq, l.resolved.members.contains seq = true ↔ seq ∈ queue) ∧ queue.length ≤ memory) ∧
    (∀ seq, l.find? seq = none → l.apply (.ack seq) = l ∧
      l.resolve seq = .error (if seq ∈ queue then .duplicateAck seq else .unknownAck seq)) ∧
    (∀ seq s, l.find? seq = some s → l.resolve seq = .ok (s, l.apply (.ack seq))) ∧
    queue = (entered memory ops).rtake memory ∧
    (∀ op, ∀ seq ∉ queue, (seq ∈ (l.apply op).resolved.queue ↔
      0 < memory ∧ op = .ack seq ∧ (l.find? seq).isSome = true)) ∧
    (∀ seq ∈ queue, (l.apply (.ack seq)).resolved = l.resolved) ∧
    ∀ op, ∀ seq ∈ queue, (seq ∉ (l.apply op).resolved.queue ↔ op = .clear ∨
      ∃ earlier later, entered memory (ops ++ [op]) = earlier ++ seq :: later ∧
        seq ∉ later ∧ later.Nodup ∧ later.length = memory) := by
  intro l queue
  have hsound : l.resolved.Sound := sound_after memory ops
  have hcapacity : l.resolved.capacity = memory := capacity_after memory ops
  have hlength : queue.length ≤ memory := hcapacity ▸ hsound.length_le
  refine ⟨⟨hsound.nodup, hsound.contains_iff, hlength⟩, fun seq hnone => ?_, fun _ _ => resolve_of_find?_eq_some,
    queue_after memory ops, fun op seq hnew => ?_, fun _ => resolved_apply_ack_of_mem hsound,
    fun op _ hmem => forgotten_iff memory ops op hmem⟩
  · refine ⟨apply_ack_of_find?_eq_none hnone, ?_⟩
    rw [resolve_of_find?_eq_none hnone]
    simp only [hsound.contains_iff, queue]
  · rw [← hcapacity]
    exact mem_queue_apply_iff hsound hnew op

/-- A number that is resolved again gets no later place, so with room for three, the third other number pushes it
out. -/
theorem resolved_memory_account_of_three_slots :
    let sends : List (Op Float) := [0, 1, 0, 2].flatMap fun seq => [.sent seq Scalar.zero 0, .ack seq]
    let ops := sends ++ [.sent 3 Scalar.zero 0]
    0 ∈ (after 3 ops).resolved.queue ∧ entered 3 (ops ++ [.ack 3]) = [0, 1, 2, 3] ∧
      0 ∉ ((after 3 ops).apply (.ack 3)).resolved.queue := by
  intro sends ops
  obtain ⟨-, -, -, -, -, -, hforgotten⟩ := resolved_memory_account 3 ops
  have hmem : 0 ∈ (after 3 ops).resolved.queue := by decide +kernel
  have hentered : entered 3 (ops ++ [.ack 3]) = [0, 1, 2, 3] := by decide +kernel
  exact ⟨hmem, hentered, (hforgotten (.ack 3) 0 hmem).mpr (.inr ⟨[], [1, 2, 3], hentered, by decide⟩)⟩

end Ledger

end Pacing

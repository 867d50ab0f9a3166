import Std.Data.TreeSet.Basic

/-!
# Memory of resolved sequence numbers

A bounded memory, oldest number first. A number that is already remembered keeps its place, so none
is held twice; a full memory forgets its oldest number to take in a new one. Membership is answered
by a set beside the queue.
-/

namespace Pacing

/-- The sequence numbers resolved of late. -/
structure Memory where
  capacity : Nat
  /-- The numbers in the order in which they came, oldest first. -/
  queue : List Nat
  /-- The same numbers, for look-ups. -/
  members : Std.TreeSet Nat

namespace Memory

def empty (capacity : Nat) : Memory := ⟨capacity, [], ∅⟩

def contains (m : Memory) (seq : Nat) : Bool := m.members.contains seq

def dropOldest (m : Memory) : Memory :=
  match m.queue with
  | [] => m
  | oldest :: rest => { m with queue := rest, members := m.members.erase oldest }

def append (m : Memory) (seq : Nat) : Memory :=
  { m with queue := m.queue ++ [seq], members := m.members.insert seq }

def remember (m : Memory) (seq : Nat) : Memory :=
  if m.capacity = 0 ∨ m.contains seq then m
  else if m.queue.length = m.capacity then m.dropOldest.append seq
  else m.append seq

def clear (m : Memory) : Memory := empty m.capacity

end Memory

end Pacing

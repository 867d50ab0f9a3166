/-!
# Maps from sequence numbers

A finite map that keeps its entries in ascending order of their sequence numbers. The order is part
of the type, so two maps with the same look-ups are equal
(`SeqMap.ext_find?`), and each operation is known by what it does to look-ups.
-/

namespace Pacing

/-- A finite map from sequence numbers. -/
structure SeqMap (β : Type) where
  entries : List (Nat × β)
  sorted : entries.Pairwise (fun a b => a.1 < b.1)

namespace SeqMap

variable {β : Type}

def empty : SeqMap β := ⟨[], .nil⟩

def size (m : SeqMap β) : Nat := m.entries.length

def find? (m : SeqMap β) (k : Nat) : Option β := m.entries.lookup k

def contains (m : SeqMap β) (k : Nat) : Bool := (m.find? k).isSome

/-! ## Insertion -/

/-- Puts an entry in its place and displaces one of the same sequence number. -/
def insertEntry (k : Nat) (v : β) : List (Nat × β) → List (Nat × β)
  | [] => [(k, v)]
  | e :: r =>
    if k < e.1 then (k, v) :: e :: r
    else if e.1 < k then e :: insertEntry k v r
    else (k, v) :: r

theorem mem_insertEntry {k : Nat} {v : β} {l : List (Nat × β)} {x : Nat × β}
    (h : x ∈ insertEntry k v l) : x = (k, v) ∨ x ∈ l := by
  induction l with
  | nil => simpa [insertEntry] using h
  | cons e r ih =>
    rw [insertEntry] at h
    split at h
    · simpa using h
    · split at h
      · rcases List.mem_cons.1 h with rfl | h
        · simp
        · rcases ih h with rfl | h <;> simp_all
      · rcases List.mem_cons.1 h with rfl | h <;> simp_all

theorem sorted_insertEntry {k : Nat} {v : β} {l : List (Nat × β)}
    (h : l.Pairwise (fun a b => a.1 < b.1)) :
    (insertEntry k v l).Pairwise (fun a b => a.1 < b.1) := by
  induction l with
  | nil => simp [insertEntry]
  | cons e r ih =>
    obtain ⟨he, hr⟩ := List.pairwise_cons.1 h
    rw [insertEntry]
    split
    · rename_i hk
      refine List.pairwise_cons.2 ⟨fun x hx => ?_, h⟩
      rcases List.mem_cons.1 hx with rfl | hx
      · exact hk
      · exact Nat.lt_trans hk (he x hx)
    · split
      · rename_i hk
        refine List.pairwise_cons.2 ⟨fun x hx => ?_, ih hr⟩
        rcases mem_insertEntry hx with rfl | hx
        · exact hk
        · exact he x hx
      · rename_i hge hle
        have hk : e.1 = k := by omega
        exact List.pairwise_cons.2 ⟨fun x hx => hk ▸ he x hx, hr⟩

def insert (m : SeqMap β) (k : Nat) (v : β) : SeqMap β :=
  ⟨insertEntry k v m.entries, sorted_insertEntry m.sorted⟩

/-! ## Removal and change -/

def filter (m : SeqMap β) (p : Nat → β → Bool) : SeqMap β :=
  ⟨m.entries.filter (fun e => p e.1 e.2), m.sorted.filter _⟩

def erase (m : SeqMap β) (k : Nat) : SeqMap β := m.filter (fun i _ => i != k)

def map (m : SeqMap β) (f : Nat → β → β) : SeqMap β :=
  ⟨m.entries.map (fun e => (e.1, f e.1 e.2)), List.pairwise_map.2 m.sorted⟩

/-- How many entries pass the test. -/
def count (m : SeqMap β) (p : Nat → β → Bool) : Nat :=
  m.entries.countP (fun e => p e.1 e.2)

/-! ## Look-ups in ascending lists -/

theorem lookup_entry (j : Nat) (e : Nat × β) (r : List (Nat × β)) :
    (e :: r).lookup j = if j = e.1 then some e.2 else r.lookup j := by
  rw [List.lookup_cons]
  by_cases h : j = e.1
  · simp [h]
  · rw [if_neg h, beq_false_of_ne h]

theorem lookup_of_lt {l : List (Nat × β)} {j : Nat} (h : ∀ x ∈ l, j < x.1) : l.lookup j = none := by
  induction l with
  | nil => rfl
  | cons e r ih =>
    have := h e (by simp)
    rw [lookup_entry, if_neg (by omega)]
    exact ih fun x hx => h x (by simp [hx])

theorem lookup_insertEntry (k : Nat) (v : β) (l : List (Nat × β)) (j : Nat) :
    (insertEntry k v l).lookup j = if j = k then some v else l.lookup j := by
  induction l with
  | nil => rw [insertEntry, lookup_entry]
  | cons e r ih =>
    rw [insertEntry]
    split
    · rw [lookup_entry]
    · split
      · rw [lookup_entry, lookup_entry, ih]
        split <;> split <;> simp_all
      · rw [lookup_entry, lookup_entry]
        split
        · rfl
        · rw [if_neg (by omega)]

theorem lookup_filter {l : List (Nat × β)} (h : l.Pairwise (fun a b => a.1 < b.1))
    (p : Nat → β → Bool) (j : Nat) :
    (l.filter (fun e => p e.1 e.2)).lookup j = (l.lookup j).filter (p j) := by
  induction l with
  | nil => rfl
  | cons e r ih =>
    obtain ⟨he, hr⟩ := List.pairwise_cons.1 h
    rw [List.filter_cons, lookup_entry]
    split <;> rename_i hp
    · rw [lookup_entry, ih hr]
      split
      · rename_i hj
        rw [Option.filter_some, hj, if_pos hp]
      · rfl
    · rw [ih hr]
      split <;> rename_i hj
      · rw [hj, lookup_of_lt he, Option.filter_some, if_neg hp]
        rfl
      · rfl

theorem lookup_map (l : List (Nat × β)) (f : Nat → β → β) (j : Nat) :
    (l.map (fun e => (e.1, f e.1 e.2))).lookup j = (l.lookup j).map (f j) := by
  induction l with
  | nil => rfl
  | cons e r ih =>
    rw [List.map_cons, lookup_entry, lookup_entry, ih]
    split <;> simp_all

/-- In an ascending list, what stands beside a number is what is looked up. -/
theorem mem_iff_lookup {l : List (Nat × β)} (h : l.Pairwise (fun a b => a.1 < b.1)) (k : Nat)
    (v : β) : (k, v) ∈ l ↔ l.lookup k = some v := by
  induction l with
  | nil => simp
  | cons e r ih =>
    obtain ⟨he, hr⟩ := List.pairwise_cons.1 h
    rw [lookup_entry, List.mem_cons, ih hr]
    split
    · rename_i hk
      rw [lookup_of_lt (hk ▸ he)]
      simp [Prod.ext_iff, hk, eq_comm]
    · simp_all [Prod.ext_iff]

theorem eq_of_lookup_eq {l₁ l₂ : List (Nat × β)} (h₁ : l₁.Pairwise (fun a b => a.1 < b.1))
    (h₂ : l₂.Pairwise (fun a b => a.1 < b.1)) (h : ∀ k, l₁.lookup k = l₂.lookup k) : l₁ = l₂ := by
  induction l₁ generalizing l₂ with
  | nil =>
    cases l₂ with
    | nil => rfl
    | cons e r => simpa [lookup_entry] using h e.1
  | cons e₁ r₁ ih =>
    cases l₂ with
    | nil => simpa [lookup_entry] using h e₁.1
    | cons e₂ r₂ =>
      obtain ⟨he₁, hr₁⟩ := List.pairwise_cons.1 h₁
      obtain ⟨he₂, hr₂⟩ := List.pairwise_cons.1 h₂
      have key : e₁.1 = e₂.1 := by
        rcases Nat.lt_trichotomy e₁.1 e₂.1 with hlt | heq | hlt
        · have := h e₁.1
          rw [lookup_entry, lookup_entry, if_pos rfl, if_neg (by omega),
            lookup_of_lt fun x hx => Nat.lt_trans hlt (he₂ x hx)] at this
          cases this
        · exact heq
        · have := h e₂.1
          rw [lookup_entry, lookup_entry, if_pos rfl, if_neg (by omega),
            lookup_of_lt fun x hx => Nat.lt_trans hlt (he₁ x hx)] at this
          cases this
      have head : e₁ = e₂ := by
        have := h e₁.1
        rw [lookup_entry, lookup_entry, if_pos rfl, if_pos key] at this
        exact Prod.ext key (Option.some.inj this)
      subst head
      refine congrArg _ (ih hr₁ hr₂ fun k => ?_)
      have := h k
      rw [lookup_entry, lookup_entry] at this
      by_cases hk : k = e₁.1
      · subst hk
        rw [lookup_of_lt he₁, lookup_of_lt he₂]
      · simpa [hk] using this

/-! ## Look-ups -/

@[simp] theorem find?_empty (j : Nat) : (empty : SeqMap β).find? j = none := rfl

theorem find?_insert (m : SeqMap β) (k : Nat) (v : β) (j : Nat) :
    (m.insert k v).find? j = if j = k then some v else m.find? j :=
  lookup_insertEntry k v m.entries j

theorem find?_filter (m : SeqMap β) (p : Nat → β → Bool) (j : Nat) :
    (m.filter p).find? j = (m.find? j).filter (p j) :=
  lookup_filter m.sorted p j

theorem find?_erase (m : SeqMap β) (k j : Nat) :
    (m.erase k).find? j = if j = k then none else m.find? j := by
  rw [erase, find?_filter]
  by_cases h : j = k <;> cases m.find? j <;> simp [h]

theorem find?_map (m : SeqMap β) (f : Nat → β → β) (j : Nat) :
    (m.map f).find? j = (m.find? j).map (f j) :=
  lookup_map m.entries f j

theorem mem_entries_iff (m : SeqMap β) (k : Nat) (v : β) :
    (k, v) ∈ m.entries ↔ m.find? k = some v :=
  mem_iff_lookup m.sorted k v

/-- Maps with the same look-ups are equal. -/
theorem ext_find? {m₁ m₂ : SeqMap β} (h : ∀ k, m₁.find? k = m₂.find? k) : m₁ = m₂ := by
  obtain ⟨l₁, h₁⟩ := m₁
  obtain ⟨l₂, h₂⟩ := m₂
  simp only [mk.injEq]
  exact eq_of_lookup_eq h₁ h₂ h

end SeqMap

end Pacing

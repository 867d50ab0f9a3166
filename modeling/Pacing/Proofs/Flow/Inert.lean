import Pacing.Flow.Recorder
import Pacing.Proofs.Flow.Overlay
import Pacing.Proofs.Flow.Run

/-!
# Events without effect

Refused acks, useless round-trip times, measured link rates and the close of a flow show in its reports alone. So a
run may be edited: such events deleted, the time stamps of acks changed and the entries taken in elsewhere, and after
each event that is left the flow is what it was but for the link rate and the counts of refused acks.
-/

namespace Pacing

variable {α : Type}

/-- What becomes of an event of a run. -/
inductive Edit (α : Type)
  | keep (e : Event α)
  /-- An ack gets other time stamps. -/
  | restamp (ackSeq : Nat) (receiverTs senderTs newReceiverTs newSenderTs : α)
  | delete (e : Event α)

namespace Edit

def original : Edit α → Event α
  | .keep e => e
  | .restamp ackSeq receiverTs senderTs _ _ => .ack ackSeq receiverTs senderTs
  | .delete e => e

/-- What is left of the event. -/
def edited? : Edit α → Option (Event α)
  | .keep e => some e
  | .restamp ackSeq _ _ receiverTs senderTs => some (.ack ackSeq receiverTs senderTs)
  | .delete _ => none

def deletesAck : Edit α → Bool
  | .delete (.ack _ _ _) => true
  | _ => false

end Edit

namespace Flow

/-- Other counts of refused acks, and another link rate. -/
def aside (unknown duplicate : Nat) (rate : Option α) : Overlay α where
  tally := fun t => { t with
    unknownAcks := t.unknownAcks + unknown
    duplicateAcks := t.duplicateAcks + duplicate }
  linkRate := fun _ => rate
  history := id
  tally_count := by
    intro t a
    cases a <;> simp only [Tally.count, Nat.add_right_comm]
  tally_recompute := fun _ => rfl
  tally_repair := fun _ => rfl

/-- Two flows are the same but for the link rate and the counts of refused acks, of which the first has `n` more. -/
def SameButRefusals (n : Nat) (f g : Flow α) : Prop :=
  ∃ unknown duplicate rate, unknown + duplicate = n ∧ f = g.overlay (aside unknown duplicate rate)

theorem SameButRefusals.refl (f : Flow α) : SameButRefusals 0 f f := ⟨0, 0, f.linkRate, rfl, rfl⟩

variable [Scalar α]

/-- The event is an ack that the flow refuses, a round-trip time of no use to it, a measured link rate or a close. -/
def inert (f : Flow α) : Event α → Bool
  | .ack n _ _ => (f.ack n).segment?.isNone
  | .minRtt rtt => uselessTime rtt
  | .linkRate _ | .close => true
  | _ => false

/-- Only events without effect on the flow that they meet are deleted. -/
def admits (f : Flow α) : List (Edit α) → Bool
  | [] => true
  | k :: edits => (k.edited?.isSome || f.inert k.original) && (f.step k.original).1.admits edits

/-- A run whose entries go into a sink of some kind, one by one. -/
def runInto {σ : Type} (f : Flow α) (take : σ → Entry α → σ) (sink : σ) : List (Event α) → Flow α × σ
  | [] => (f, sink)
  | e :: events =>
    let (g, entries) := f.step e
    g.runInto take (entries.foldl take sink) events

theorem runInto_fst {σ : Type} (f : Flow α) (take : σ → Entry α → σ) (sink : σ) (events : List (Event α)) :
    (f.runInto take sink events).1 = (f.run events).1 := by
  induction events generalizing f sink with
  | nil => rfl
  | cons e events ih => exact ih (f.step e).1 _

theorem admits_of_append {f : Flow α} {past more : List (Edit α)} (h : f.admits (past ++ more) = true) :
    f.admits past = true := by
  induction past generalizing f with
  | nil => rfl
  | cons k past ih =>
      simp only [List.cons_append, admits, Bool.and_eq_true] at h ⊢
      exact ⟨h.1, ih h.2⟩

/-! ## One event -/

/-- A refused ack is counted, as an unknown one or as a duplicate, and does nothing else. -/
theorem ack_of_refusal {f : Flow α} {n : Nat} (h : (f.ack n).segment? = none) :
    (f.ack n).flow = { f with tally := { f.tally with unknownAcks := f.tally.unknownAcks + 1 } } ∨
      (f.ack n).flow = { f with tally := { f.tally with duplicateAcks := f.tally.duplicateAcks + 1 } } := by
  have hrefused : f.accepted? n = none := by rwa [segment?_ack, Option.map_eq_none_iff] at h
  obtain ⟨a, ha⟩ := accept_of_refused hrefused
  rw [ack, ha]
  obtain ⟨m, rfl⟩ | ⟨m, rfl⟩ := accept_eq_error ha
  · exact .inl rfl
  · exact .inr rfl

namespace SameButRefusals

variable {n : Nat} {f g : Flow α}

theorem keep (h : SameButRefusals n f g) (e : Event α) : SameButRefusals n (f.step e).1 (g.step e).1 := by
  obtain ⟨unknown, duplicate, rate, hn, rfl⟩ := h
  cases e with
  -- After it both have the same link rate.
  | linkRate rate' => exact ⟨unknown, duplicate, some rate', hn, rfl⟩
  | _ => exact ⟨unknown, duplicate, rate, hn, g.step_overlay rfl _ nofun⟩

/-- The second flow need not take in an event that has no effect on the first one. -/
theorem delete (h : SameButRefusals n f g) {e : Event α} (he : f.inert e = true) :
    SameButRefusals (n + if (Edit.delete e).deletesAck then 1 else 0) (f.step e).1 g := by
  obtain ⟨unknown, duplicate, rate, rfl, rfl⟩ := h
  cases e with
  | ack m r s =>
      obtain hflow | hflow := ack_of_refusal (Option.isNone_iff_eq_none.mp he)
      · refine ⟨unknown + 1, duplicate, rate, Nat.add_right_comm .., ?_⟩
        rw [step, hflow]
        rfl
      · refine ⟨unknown, duplicate + 1, rate, rfl, ?_⟩
        rw [step, hflow]
        rfl
  | minRtt rtt =>
      refine ⟨unknown, duplicate, rate, rfl, ?_⟩
      rw [inert] at he
      rw [step, setMinRtt, if_pos he]
  | linkRate rate' => exact ⟨unknown, duplicate, some rate', rfl, rfl⟩
  | close => exact ⟨unknown, duplicate, rate, rfl, rfl⟩
  | _ => cases he

/-! ## Runs -/

theorem run (h : SameButRefusals n f g) {edits : List (Edit α)} (hedits : f.admits edits = true) :
    SameButRefusals (n + edits.countP Edit.deletesAck) (f.run (edits.map Edit.original)).1
      (g.run (edits.filterMap Edit.edited?)).1 := by
  induction edits generalizing n f g with
  | nil => exact h
  | cons k edits ih =>
      simp only [admits, Bool.and_eq_true] at hedits
      obtain ⟨hk, hedits⟩ := hedits
      cases k with
      | keep e => exact ih (h.keep e) hedits
      | restamp m r s r' s' => exact ih (h.keep (.ack m r s)) hedits
      | delete e =>
          have hinert : f.inert e = true := by simpa [Edit.edited?, Edit.original] using hk
          rw [List.countP_cons, Nat.add_comm (List.countP ..), ← Nat.add_assoc]
          exact ih (h.delete hinert) hedits

end SameButRefusals

/-- Events without effect may be deleted from a run, the time stamps of its acks changed and its entries taken in
elsewhere: after every event that is left the flow is the same but for the link rate and the counts of refused acks.
A refused ack adds one to one of these counts. -/
theorem inert_events_deletable (c : Config α) {edits past more : List (Edit α)}
    (h : (start c).admits edits = true) (hsplit : edits = past ++ more) {σ τ : Type}
    (take : σ → Entry α → σ) (sink : σ) (take' : τ → Entry α → τ) (sink' : τ) :
    let f := ((start c).runInto take sink (past.map Edit.original)).1
    let g := ((start c).runInto take' sink' (past.filterMap Edit.edited?)).1
    f = { g with
      linkRate := f.linkRate
      tally := { g.tally with
        unknownAcks := f.tally.unknownAcks
        duplicateAcks := f.tally.duplicateAcks } } ∧
    f.tally.unknownAcks + f.tally.duplicateAcks =
      g.tally.unknownAcks + g.tally.duplicateAcks + past.countP Edit.deletesAck ∧
    ∀ n, (f.ack n).segment? = none →
      (f.ack n).flow = { f with tally := { f.tally with unknownAcks := f.tally.unknownAcks + 1 } } ∨
      (f.ack n).flow = { f with tally := { f.tally with duplicateAcks := f.tally.duplicateAcks + 1 } } := by
  intro f g
  subst hsplit
  obtain ⟨unknown, duplicate, rate, hn, hfg⟩ := (SameButRefusals.refl (start c)).run (admits_of_append h)
  rw [← runInto_fst (start c) take sink, ← runInto_fst (start c) take' sink'] at hfg
  change f = g.overlay _ at hfg
  refine ⟨?_, ?_, fun _ => ack_of_refusal⟩
  · rw [hfg]
    rfl
  · have hu : f.tally.unknownAcks = g.tally.unknownAcks + unknown := by rw [hfg]; rfl
    have hd : f.tally.duplicateAcks = g.tally.duplicateAcks + duplicate := by rw [hfg]; rfl
    omega

/-- A run with events of each kind deleted, in front of a recorder of errors and of none. -/
theorem inert_events_deletable_around_acks :
    let c : Config Float := .standard
    let zero : Float := Scalar.zero
    let edits : List (Edit Float) :=
      [.keep (.sent 0), .keep (.sent 1), .delete (.ack 0 zero zero), .delete (.minRtt zero),
        .keep (.clock (Scalar.ofNat 20)), .restamp 2 zero zero (Scalar.ofNat 9) (Scalar.ofNat 1),
        .delete (.ack 2 zero zero), .delete (.linkRate zero), .keep (.linkRate Scalar.one), .delete .close,
        .delete (.ack 7 zero zero), .keep .timeout]
    let errors : Recorder → Entry Float → Recorder := fun r e => r.record e.line
    let f := ((start c).runInto errors (.empty (some .error)) (edits.map Edit.original)).1
    let g := ((start c).runInto (fun u _ => u) () (edits.filterMap Edit.edited?)).1
    (start c).admits edits = true ∧ edits = edits ++ [] ∧ edits.countP Edit.deletesAck = 3 ∧
      f.tally.unknownAcks + f.tally.duplicateAcks = g.tally.unknownAcks + g.tally.duplicateAcks + 3 ∧
      f = { g with
        linkRate := f.linkRate
        tally := { g.tally with
          unknownAcks := f.tally.unknownAcks
          duplicateAcks := f.tally.duplicateAcks } } := by
  intro c zero edits errors f g
  have hadmits : (start c).admits edits = true := by decide +kernel
  obtain ⟨hsame, hcount, -⟩ := inert_events_deletable c hadmits (List.append_nil edits).symm errors
    (.empty (some .error)) (fun u _ => u) ()
  exact ⟨hadmits, (List.append_nil edits).symm, rfl, hcount, hsame⟩

end Flow

end Pacing

import Mathlib.Data.List.DropRight
import Mathlib.Data.List.Induction
import Pacing.Proofs.Flow.Stages

/-!
# Runs and epochs

A run taken apart into transitions, and the part of it that belongs to the current epoch: what came
after the last `init`, or all of it where there was none. `epoch_induction` carries a property from the
beginning of an epoch through its events, and `epoch_induction_of` one that also depends on when the epoch
began and on what the events are.
-/

namespace Pacing

variable {α : Type}

def Event.isInit : Event α → Bool
  | .init => true
  | _ => false

/-- The event is an ack of `seq`. -/
def Event.acks : Event α → Nat → Bool
  | .ack n _ _, seq => n == seq + 1
  | _, _ => false

/-- An event and the flow that it met. -/
structure Transition (α : Type) where
  before : Flow α
  event : Event α

variable [Scalar α]

/-- The event does not set the clock to anything but a finite number. -/
def Event.finiteClock : Event α → Bool
  | .clock now => Scalar.isFinite now
  | _ => true

namespace Transition

def after (t : Transition α) : Flow α := (t.before.step t.event).1

/-- The clock at an event that does not set it. -/
def time (t : Transition α) : α := t.before.now

/-- The segment that the event resolved: none unless it is an ack, and not refused. -/
def resolved? (t : Transition α) : Option (Segment α) :=
  match t.event with
  | .ack n _ _ => (t.before.ack n).segment?
  | _ => none

end Transition

namespace Flow

def transitions (f : Flow α) : List (Event α) → List (Transition α)
  | [] => []
  | e :: events => ⟨f, e⟩ :: (f.step e).1.transitions events

/-- The flow that a run from the start leads to. -/
def afterRun (c : Config α) (events : List (Event α)) : Flow α := ((start c).run events).1

/-- The transitions of a run from the start that came after its last `init`. -/
def epoch (c : Config α) (events : List (Event α)) : List (Transition α) :=
  ((start c).transitions events).rtakeWhile fun t => !t.event.isInit

/-- When the current epoch began: the clock at the last `init`, or zero. -/
def began (c : Config α) (events : List (Event α)) : α :=
  (((start c).transitions events).reverse.find? fun t => t.event.isInit).elim Scalar.zero Transition.time

/-! ## One more event -/

theorem run_concat (f : Flow α) (events : List (Event α)) (e : Event α) :
    (f.run (events ++ [e])).1 = ((f.run events).1.step e).1 := by
  induction events generalizing f with
  | nil => rfl
  | cons e' events ih => exact ih (f.step e').1

theorem transitions_concat (f : Flow α) (events : List (Event α)) (e : Event α) :
    f.transitions (events ++ [e]) = f.transitions events ++ [⟨(f.run events).1, e⟩] := by
  induction events generalizing f with
  | nil => rfl
  | cons e' events ih =>
      simp only [List.cons_append, transitions, ih]
      rfl

theorem length_transitions (f : Flow α) (events : List (Event α)) :
    (f.transitions events).length = events.length := by
  induction events generalizing f with
  | nil => rfl
  | cons e events ih => simp [transitions, ih]

theorem afterRun_concat (c : Config α) (events : List (Event α)) (e : Event α) :
    afterRun c (events ++ [e]) = ((afterRun c events).step e).1 :=
  run_concat _ events e

theorem afterRun_append (c : Config α) (past events : List (Event α)) :
    afterRun c (past ++ events) = ((afterRun c past).run events).1 := by
  induction events using List.reverseRecOn with
  | nil => rw [List.append_nil]; rfl
  | append_singleton events e ih => rw [← List.append_assoc, afterRun_concat, ih, run_concat]

theorem epoch_concat (c : Config α) (events : List (Event α)) (e : Event α) :
    epoch c (events ++ [e]) =
      if e.isInit then [] else epoch c events ++ [⟨afterRun c events, e⟩] := by
  rw [epoch, transitions_concat, List.rtakeWhile_concat]
  cases e.isInit <;> simp [epoch, afterRun]

theorem began_concat (c : Config α) (events : List (Event α)) (e : Event α) :
    began c (events ++ [e]) = if e.isInit then (afterRun c events).now else began c events := by
  rw [began, transitions_concat, List.reverse_concat, List.find?_cons]
  cases e.isInit <;> rfl

theorem length_epoch_le (c : Config α) (events : List (Event α)) :
    (epoch c events).length ≤ events.length := by
  rw [← length_transitions (start c) events]
  exact (List.rtakeWhile_suffix _ _).length_le

/-! ## Induction -/

theorem config_afterRun (c : Config α) (events : List (Event α)) :
    (afterRun c events).config = c := by
  induction events using List.reverseRecOn with
  | nil => rfl
  | append_singleton events e ih => rw [afterRun_concat, config_step, ih]

/-- What holds when an epoch begins and is kept by every event but `init` holds after every run, of the time
when the epoch began, the epoch and the flow. `Q` is what is known of each event. -/
theorem epoch_induction_of {P : α → List (Transition α) → Flow α → Prop} {Q : Event α → Prop} (c : Config α)
    (start : P Scalar.zero [] (start c))
    (init : ∀ began ts f, f.config = c → P began ts f → P f.now [] f.reset)
    (step : ∀ began ts f e, f.config = c → e.isInit = false → Q e → P began ts f →
      P began (ts ++ [⟨f, e⟩]) (f.step e).1)
    (events : List (Event α)) (h : ∀ e ∈ events, Q e) :
    P (began c events) (epoch c events) (afterRun c events) := by
  induction events using List.reverseRecOn with
  | nil => exact start
  | append_singleton events e ih =>
      have hc := config_afterRun c events
      have ih := ih fun e' he' => h e' (List.mem_append_left _ he')
      have hq : Q e := h e (List.mem_append_right _ (List.mem_singleton_self e))
      rw [afterRun_concat, epoch_concat, began_concat]
      cases hi : e.isInit with
      | true =>
          cases e <;> simp only [Event.isInit, Bool.false_eq_true] at hi
          exact init _ _ _ hc ih
      | false => exact step _ _ _ _ hc hi hq ih

theorem epoch_induction {P : List (Transition α) → Flow α → Prop} (c : Config α)
    (start : P [] (start c)) (init : ∀ f, f.config = c → (∃ ts, P ts f) → P [] f.reset)
    (step : ∀ ts f e, f.config = c → e.isInit = false → P ts f → P (ts ++ [⟨f, e⟩]) (f.step e).1)
    (events : List (Event α)) : P (epoch c events) (afterRun c events) :=
  epoch_induction_of (P := fun _ => P) (Q := fun _ => True) c start
    (fun _ ts f hc h => init f hc ⟨ts, h⟩) (fun _ ts f e hc hi _ h => step ts f e hc hi h) events
    fun _ _ => trivial

end Flow

end Pacing

import Pacing.Flow.Recorder
import Pacing.Proofs.Flow.Entries

/-!
# Diagnostics of a run

The lines of a run are remarks and dumps. There is one dump for each recompute, which shows the flow that the
recompute left, and the lines of a dump are known by the words with which they begin. The errors are the anomalies
that the flow counts and the round-trip times of no use, and a level limit only leaves lines out.
-/

namespace Pacing

/-! ## How lines begin -/

/-- The words with which every message of the kind begins. -/
def Anomaly.heading : Anomaly → String
  | .unknownAck _ | .duplicateAck _ => "ack "
  | .duplicateSend _ | .reorderedDelivery _ => "segment "
  | .timeout => "no ack "

def Notice.heading : Notice Float → String
  | .started .. => "init "
  | .bootstrapRefused _ => "ignoring "
  | .bootstrapped _ => "bootstrap "
  | .anomaly a => a.heading
  | .timeout => Anomaly.timeout.heading
  | .linkRate _ => "link_rate "
  | .phaseChanged .. => "phase "
  | .closed _ => "close "
  | .state .. => "state "
  | .beliefs _ => "beliefs "
  | .historyLen _ => "history len="
  | .sample .. => "sample["

def dumpHeadings : List String := ["state ", "beliefs ", "history len=", "sample["]

def headings : List String :=
  dumpHeadings ++
    ["init ", "ignoring ", "bootstrap ", "ack ", "segment ", "no ack ", "link_rate ", "phase ", "close "]

/-- The line begins as one of a dump does. -/
def Line.ofDump (l : Line) : Bool := dumpHeadings.any (l.message.startsWith ·)

theorem prefix_append {a s t : String} (h : a.toList <+: s.toList) : a.toList <+: (s ++ t).toList := by
  rw [String.toList_append]
  exact h.trans (List.prefix_append ..)

theorem Anomaly.heading_prefix (a : Anomaly) : a.heading.toList <+: a.message.toList := by
  cases a with
  | timeout => decide
  | _ =>
    dsimp only [heading]
    repeat first | decide | apply prefix_append

theorem headings_exclusive : ∀ a ∈ headings, ∀ b ∈ headings, a.toList <+: b.toList → a = b := by
  decide +kernel

namespace Notice

theorem heading_prefix (n : Notice Float) : n.heading.toList <+: n.text.toList := by
  cases n with
  | anomaly a => exact a.heading_prefix
  | timeout => exact Anomaly.timeout.heading_prefix
  | _ =>
    -- A text is put together of pieces, and the heading is at the front of the first one.
    unfold text
    dsimp only [heading]
    repeat first | decide | apply prefix_append

theorem heading_mem (n : Notice Float) : n.heading ∈ headings := by
  cases n with
  | anomaly a => cases a <;> simp [heading, Anomaly.heading, headings]
  | timeout => simp [heading, Anomaly.heading, headings]
  | _ => simp [heading, headings, dumpHeadings]

/-- The text begins with the notice's heading and with no other one. -/
theorem startsWith_text (n : Notice Float) {h : String} (hh : h ∈ headings) :
    n.text.startsWith h = (n.heading == h) := by
  rw [Bool.eq_iff_iff, String.startsWith_string_iff, beq_iff_eq]
  refine ⟨fun hpre => ?_, (· ▸ n.heading_prefix)⟩
  obtain hle | hle := List.prefix_or_prefix_of_prefix n.heading_prefix hpre
  · exact headings_exclusive _ n.heading_mem _ hh hle
  · exact (headings_exclusive _ hh _ n.heading_mem hle).symm

end Notice

theorem Entry.ofDump_line (e : Entry Float) : e.line.ofDump = e.notice.ofDump := by
  have hheadings : e.line.ofDump = dumpHeadings.any (e.notice.heading == ·) := by
    rw [Line.ofDump, Bool.eq_iff_iff, List.any_eq_true, List.any_eq_true]
    refine exists_congr fun h => and_congr_right fun hh => ?_
    rw [← e.notice.startsWith_text (List.mem_append_left _ hh)]
    rfl
  rw [hheadings, dumpHeadings]
  cases e.notice with
  | anomaly a => cases a <;> rfl
  | _ => rfl

/-! ## Dumps -/

namespace Flow

/-- What a dump says: the state, the beliefs and the history, its oldest sample first. -/
def dumpMessages (f : Flow Float) : List String :=
  stateText f.phases.phase f.decision f.window f.counters :: s!"beliefs {f.beliefs.text}" ::
    s!"history len={f.history.size}" :: f.history.toList.mapIdx fun i s => s!"sample[{i}] {s.text}"

theorem dumpMessages_eq (f : Flow Float) : f.dumpMessages = f.dump.map (·.notice.text) := by
  rw [dumpMessages, List.mapIdx_eq_zipIdx_map, dump, List.map_map, List.map_cons, List.map_cons, List.map_cons,
    List.map_map]
  rfl

theorem countP_dumpMessages (f : Flow Float) : f.dumpMessages.countP (·.startsWith "state ") = 1 := by
  have hheading : ((·.startsWith "state ") ∘ fun e : Entry Float => e.notice.text) =
      fun e => e.notice.heading == "state " := funext fun e => e.notice.startsWith_text (by decide)
  rw [dumpMessages_eq, List.countP_map, hheading]
  simp [dump, entry, Notice.heading, List.countP_eq_zero]

end Flow

/-- Lines that hold a dump of each of the flows, in their order, and no other line that begins as one of a dump. -/
inductive Reports : List (Flow Float) → List Line → Prop
  | nil : Reports [] []
  | remark {flows : List (Flow Float)} {l : Line} {lines : List Line} :
    l.ofDump = false → Reports flows lines → Reports flows (l :: lines)
  | dump {f : Flow Float} {flows : List (Flow Float)} {block lines : List Line} :
    block.map (·.message) = f.dumpMessages → Reports flows lines → Reports (f :: flows) (block ++ lines)

namespace Reports

theorem remarks {flows : List (Flow Float)} {lines : List Line} (h : Reports flows lines)
    {entries : List (Entry Float)} (haside : ∀ e ∈ entries, e.notice.ofDump = false) :
    Reports flows (entries.map Entry.line ++ lines) := by
  induction entries with
  | nil => exact h
  | cons e entries ih =>
      obtain ⟨he, haside⟩ := List.forall_mem_cons.mp haside
      exact .remark (e.ofDump_line.trans he) (ih haside)

/-- Each dump has one line for the state. -/
theorem countP_state {flows : List (Flow Float)} {lines : List Line} (h : Reports flows lines) :
    lines.countP (·.message.startsWith "state ") = flows.length := by
  induction h with
  | nil => rfl
  | remark hl _ ih =>
      simp only [Line.ofDump, dumpHeadings, List.any_cons, Bool.or_eq_false_iff] at hl
      simp [ih, hl.1]
  | @dump f flows block lines hb _ ih =>
      have hblock : block.countP (·.message.startsWith "state ") = 1 := by
        rw [← f.countP_dumpMessages, ← hb, List.countP_map]
        rfl
      rw [List.countP_append, hblock, ih, List.length_cons, Nat.add_comm]

end Reports

open Transition

namespace Flow

theorem reports_run (f : Flow Float) (events : List (Event Float)) :
    Reports (((f.transitions events).filter Transition.recomputed).map Transition.after)
      ((f.run events).2.map Entry.line) := by
  induction events generalizing f with
  | nil => exact .nil
  | cons e events ih =>
      obtain ⟨remarks, hentries, haside, -⟩ := entries_eq (⟨f, e⟩ : Transition Float)
      have hrun : (f.run (e :: events)).2 = (⟨f, e⟩ : Transition Float).entries ++ ((f.step e).1.run events).2 := rfl
      rw [hrun, hentries, List.map_append, List.map_append, List.append_assoc, transitions]
      refine .remarks ?_ haside
      cases hr : (⟨f, e⟩ : Transition Float).recomputed with
      | true =>
          rw [List.filter_cons_of_pos hr]
          refine .dump ?_ (ih _)
          rw [if_pos rfl, dumpMessages_eq, List.map_map]
          rfl
      | false =>
          rw [List.filter_cons_of_neg (Bool.eq_false_iff.mp hr)]
          exact ih _

section Counts

variable {α : Type} [Scalar α]

theorem recomputes_run (f : Flow α) (events : List (Event α)) :
    (f.run events).1.tally.recomputes =
      f.tally.recomputes + ((f.transitions events).filter Transition.recomputed).length := by
  induction events generalizing f with
  | nil => rfl
  | cons e events ih =>
      have hstep : (f.step e).1.tally.recomputes =
          f.tally.recomputes + if (⟨f, e⟩ : Transition α).recomputed then 1 else 0 :=
        Transition.recomputes_after ⟨f, e⟩
      rw [transitions, List.filter_cons, run, ih, hstep]
      split
      · rw [List.length_cons]
        omega
      · rfl

theorem errors_run (f : Flow α) (events : List (Event α)) :
    (f.run events).1.tally.errors + events.countP Event.uselessRtt =
      f.tally.errors + (f.run events).2.countP Entry.isError := by
  induction events generalizing f with
  | nil => rfl
  | cons e events ih =>
      have hstep : (f.step e).1.tally.errors + (if e.uselessRtt then 1 else 0) =
          f.tally.errors + (f.step e).2.countP Entry.isError := errors_after ⟨f, e⟩
      have hrest := ih (f.step e).1
      rw [run, List.countP_cons, List.countP_append]
      dsimp only
      omega

end Counts

end Flow

/-! ## What is recorded -/

namespace Recorder

theorem lines_foldl (r : Recorder) (entries : List (Entry Float)) :
    (entries.foldl (fun r e => r.record e.line) r).lines.toList =
      r.lines.toList ++ (entries.map Entry.line).filter (r.keeps ·.level) := by
  induction entries generalizing r with
  | nil => exact (List.append_nil _).symm
  | cons e entries ih =>
      have hkeeps : (r.record e.line).keeps = r.keeps := by
        unfold record
        split <;> rfl
      rw [List.foldl_cons, ih, hkeeps, record, List.map_cons, List.filter_cons]
      split <;> simp

end Recorder

namespace Session

theorem run_eq (s : Session) (events : List (Event Float)) :
    s.run events = s.report (s.flow.run events).1 (s.flow.run events).2 := by
  induction events generalizing s with
  | nil => rfl
  | cons e events ih =>
      rw [run, List.foldl_cons, ← run, ih, report, report]
      rw [Flow.run, List.foldl_append]
      rfl

theorem lines_run (c : Config Float) (max : Option Level) (events : List (Event Float)) :
    ((start c max).run events).recorder.lines.toList =
      (((Flow.start c).run events).2.map Entry.line).filter ((Recorder.empty max).keeps ·.level) := by
  rw [run_eq]
  exact Recorder.lines_foldl _ _

theorem unlimited_lines_run (c : Config Float) (events : List (Event Float)) :
    ((start c none).run events).recorder.lines.toList = ((Flow.start c).run events).2.map Entry.line := by
  rw [lines_run, List.filter_eq_self]
  exact fun _ _ => rfl

/-- A recorder without a limit has the dump of each recompute, begun by a line for the state, and no line of a dump
elsewhere. Its errors are the anomalies of the flow, timeouts apart, and the round-trip times of no use. A recorder
with a limit has the same lines but those beyond it. -/
theorem diagnostics_account (c : Config Float) (events : List (Event Float)) :
    let s := (start c none).run events
    let recomputes := ((Flow.start c).transitions events).filter Transition.recomputed
    let tally := s.flow.tally
    Reports (recomputes.map Transition.after) s.recorder.lines.toList ∧
      recomputes.length = tally.recomputes ∧
      (s.recorder.startingWith "state ").length = tally.recomputes ∧
      s.recorder.count .error =
        tally.unknownAcks + tally.duplicateAcks + tally.duplicateSends + tally.reorderedDeliveries +
          events.countP Event.uselessRtt ∧
      ∀ max, ((start c (some max)).run events).flow = s.flow ∧
        ((start c (some max)).run events).recorder.lines.toList =
          s.recorder.lines.toList.filter (·.level.rank ≤ max.rank) := by
  intro s recomputes tally
  have hflow (max : Option Level) : ((start c max).run events).flow = ((Flow.start c).run events).1 := by
    rw [run_eq]
    rfl
  have hlines : s.recorder.lines.toList = ((Flow.start c).run events).2.map Entry.line := unlimited_lines_run c events
  have hreports : Reports (recomputes.map Transition.after) s.recorder.lines.toList :=
    hlines ▸ Flow.reports_run (Flow.start c) events
  have hcount : recomputes.length = tally.recomputes := by
    have hrun := Flow.recomputes_run (Flow.start c) events
    rw [← hflow none] at hrun
    exact (hrun.trans (Nat.zero_add _)).symm
  refine ⟨hreports, hcount, ?_, ?_, fun max => ⟨?_, ?_⟩⟩
  · rw [Recorder.startingWith, ← List.countP_eq_length_filter, hreports.countP_state, List.length_map, hcount]
  · have hrun := Flow.errors_run (Flow.start c) events
    rw [← hflow none] at hrun
    rw [Recorder.count, ← Array.countP_toList, hlines, List.countP_map]
    exact ((Nat.zero_add _).symm.trans hrun.symm)
  · rw [hflow, ← hflow none]
  · rw [hlines, lines_run]
    rfl

end Session

end Pacing

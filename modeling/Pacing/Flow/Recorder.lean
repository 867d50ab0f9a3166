import Pacing.Flow.Event
import Pacing.Flow.Line

/-!
# Recorded diagnostics

A recorder keeps lines in the order in which they were given, those of little matter left out if it
is told so. A flow does not know its recorder: what is recorded depends on the flow, never the flow
on what is recorded.
-/

namespace Pacing

structure Recorder where
  /-- The level beyond which lines are left out. -/
  maxLevel : Option Level
  lines : Array Line

namespace Recorder

def empty (maxLevel : Option Level) : Recorder := ⟨maxLevel, #[]⟩

def keeps (r : Recorder) (l : Level) : Bool := r.maxLevel.all fun max => l.rank ≤ max.rank

def record (r : Recorder) (l : Line) : Recorder :=
  if r.keeps l.level then { r with lines := r.lines.push l } else r

def count (r : Recorder) (l : Level) : Nat := r.lines.countP (·.level == l)

/-- The lines whose message begins with a text. -/
def startingWith (r : Recorder) (s : String) : List Line :=
  r.lines.toList.filter (·.message.startsWith s)

end Recorder

/-- A flow together with the recorder of its diagnostics. -/
structure Session where
  flow : Flow Float
  recorder : Recorder

namespace Session

def start (c : Config Float) (maxLevel : Option Level) : Session := ⟨.start c, .empty maxLevel⟩

/-- Goes on with a flow that has just reported some entries. -/
def report (s : Session) (flow : Flow Float) (entries : List (Entry Float)) : Session :=
  ⟨flow, entries.foldl (fun r e => r.record e.line) s.recorder⟩

def step (s : Session) (e : Event Float) : Session :=
  let (flow, entries) := s.flow.step e
  s.report flow entries

def run (s : Session) (events : List (Event Float)) : Session := events.foldl step s

end Session

end Pacing

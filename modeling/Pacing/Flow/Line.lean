import Pacing.Decimal.Style
import Pacing.Flow.Notice

/-!
# Diagnostic lines

A flow over doubles is described in lines of text. Times and delays have three decimals, rates and
sizes two, and the one-line summary of a flow fewer.
-/

namespace Pacing

open Decimal (fixed plain pointed)

structure Line where
  level : Level
  now : Float
  message : String

def Line.text (l : Line) : String := s!"[{l.level.label}] {fixed 3 l.now} {l.message}"

/-! ## Texts of the parts of a flow -/

def Beliefs.text (b : Beliefs Float) : String :=
  s!"min_rtt={fixed 3 b.minRtt} min_qdel={fixed 3 b.minQdel} bq1={b.bqBelief1} " ++
    s!"bq2={fixed 2 b.bqBelief2} min_c_lambda={fixed 2 b.minCLambda} min_c={fixed 2 b.minC} " ++
    s!"max_c={fixed 2 b.maxC} minc_since_timeout={fixed 2 b.mincSinceLastTimeout} " ++
    s!"maxc_since_timeout={fixed 2 b.maxcSinceLastTimeout} " ++
    s!"last_timeout_minc={fixed 2 b.lastTimeoutMinc} " ++
    s!"last_timeout_maxc={fixed 2 b.lastTimeoutMaxc}"

def Sample.text (s : Sample Float) : String :=
  s!"ts={fixed 3 s.tstamp} rtt=[{fixed 3 s.minRtt},{fixed 3 s.maxRtt}] sent={s.cumSent} " ++
    s!"delivered={s.cumDelivered} lost={s.cumLost} rate={fixed 2 s.sendingRate} " ++
    s!"delivered_at_send={s.cumDeliveredAtSend} interval_lost={s.segsLost} " ++
    s!"processed={s.processed}"

def Stats.text (s : Stats Float) : String :=
  s!"CC[{s.law.name} {s.phase.name}] window={s.window} rate={fixed 1 s.sendingRate}/s " ++
    s!"min_rtt={fixed 2 s.minRtt}ms inflight={s.inflight} " ++
    s!"c=[{fixed 1 s.minC},{fixed 1 s.maxC}] lambda={fixed 1 s.minCLambda} " ++
    s!"sent={s.cumSent} delivered={s.cumDelivered} lost={s.cumLost}"

/-- The outcome of a recompute in one line. -/
def stateText (p : Phase) (d : Decision Float) (window : UInt32) (n : Counters) : String :=
  s!"state phase={p.name} rate={fixed 3 d.sendingRate} cwnd={fixed 3 d.cwnd} window={window} " ++
    s!"intersend={fixed 3 d.intersendTime} sent={n.sent} delivered={n.delivered} lost={n.lost}"

def Notice.text : Notice Float → String
  | .started law minRtt => s!"init law={law.name} min_rtt={fixed 3 minRtt}"
  | .bootstrapRefused rtt => s!"ignoring bootstrap min_rtt {plain.text rtt}"
  | .bootstrapped rtt => s!"bootstrap min_rtt={fixed 3 rtt}"
  | .anomaly a => a.message
  | .timeout => Anomaly.timeout.message
  | .linkRate rate => s!"link_rate rate={fixed 3 rate}"
  | .phaseChanged old new => s!"phase {old.name} -> {new.name}"
  | .closed stats => s!"close {stats.text}"
  | .state p d window n => stateText p d window n
  | .beliefs b => s!"beliefs {b.text}"
  | .historyLen len => s!"history len={len}"
  | .sample i s => s!"sample[{i}] {s.text}"

def Entry.line (e : Entry Float) : Line := ⟨e.notice.level, e.now, e.notice.text⟩

/-- A short dump of a flow's outputs. -/
def Stats.dump (s : Stats Float) : String :=
  s!"BeliefController \x7b phase: {s.phase.shortName}, window: {s.window}, " ++
    s!"sending_rate: {pointed.text s.sendingRate}, min_rtt: {pointed.text s.minRtt} \x7d"

end Pacing

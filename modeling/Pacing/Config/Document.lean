import Pacing.Config
import Pacing.Toml.Document

/-!
# Configuration documents

A configuration is written as a TOML document. Keys that are missing keep their standard value, keys
that are unknown do not count. Rates, periods and ratios may be given as integers, counts only as
integers that fit.
-/

namespace Pacing.Config

/-! ## Values of keys -/

/-- An empty table or array, as it may stand beside a law's name. -/
def isEmptyNode : Toml.Node → Bool
  | .array items => items.isEmpty
  | .table _ entries => entries.isEmpty
  | _ => false

/-- A law is given by its name, or by a table whose only key is its name and holds nothing. -/
def law? : Toml.Node → Option Law
  | .string s => Law.ofName? (.ofList s)
  | .table _ [(k, v)] => if isEmptyNode v then Law.ofName? (.ofList k) else none
  | _ => none

def real? : Toml.Node → Option Float
  | .float x => some x
  | .integer n =>
    let x : Float := Scalar.ofNat n.natAbs
    some (if n < 0 then -x else x)
  | _ => none

/-- A count below a bound. -/
def count? (bound : Nat) : Toml.Node → Option Nat
  | .integer n => if 0 ≤ n ∧ n < bound then some n.toNat else none
  | _ => none

def size? (v : Toml.Node) : Option Nat := count? UInt64.size v

def word? (v : Toml.Node) : Option UInt32 := (count? UInt32.size v).map UInt32.ofNat

/-! ## Documents -/

/-- The value of a key, the standard one where the key is missing. -/
def valueOf {β : Type} (es : Toml.Entries) (key : String) (standard : β)
    (read : Toml.Node → Option β) : Option β :=
  match es.find? key.toList with
  | none => some standard
  | some v => read v

def ofEntries? (es : Toml.Entries) : Option (Config Float) := do
  let c : Config Float := .standard
  return {
    law := ← valueOf es "control-law" c.law law?
    historySize := ← valueOf es "history-size" c.historySize size?
    minCwnd := ← valueOf es "min-cwnd" c.minCwnd word?
    initMinC := ← valueOf es "init-min-c" c.initMinC real?
    initMaxC := ← valueOf es "init-max-c" c.initMaxC real?
    timeDeltaMax := ← valueOf es "time-delta-max" c.timeDeltaMax real?
    initialWindow := ← valueOf es "initial-window" c.initialWindow word?
    interHistoryTime := ← valueOf es "inter-history-time" c.interHistoryTime real?
    beliefsTimeoutPeriod := ← valueOf es "beliefs-timeout-period" c.beliefsTimeoutPeriod real?
    jitterMultiplier := ← valueOf es "jitter-multiplier" c.jitterMultiplier real?
    measurementIntervalHistory :=
      ← valueOf es "measurement-interval-history" c.measurementIntervalHistory size?
    interRateUpdateTime := ← valueOf es "inter-rate-update-time" c.interRateUpdateTime real?
    significantChange :=
      ← valueOf es "beliefs-changed-significantly-thresh" c.significantChange real?
    timeoutThresh := ← valueOf es "timeout-thresh" c.timeoutThresh real?
    resolvedSeqMemory := ← valueOf es "resolved-seq-memory" c.resolvedSeqMemory size? }

inductive LoadFault
  /-- The document cannot be read, or is no text in UTF-8. -/
  | unreadable
  /-- The document is no TOML, or some value in it is of the wrong kind. -/
  | malformed
  | invalid (f : Fault)
  deriving DecidableEq, Repr

def Fault.report (f : Fault) : String := s!"invalid config: {f.message}"

def checked (c : Config Float) : Except LoadFault (Config Float) :=
  match c.check with
  | .ok c => .ok c
  | .error f => .error (.invalid f)

/-- Reads a configuration from a document and checks it. -/
def ofDocument (text : List Char) : Except LoadFault (Config Float) :=
  match (Toml.ofText? text).bind ofEntries? with
  | none => .error .malformed
  | some c => checked c

/-- The configuration of a file, or the standard one where there is no file, under another law if one
is given. A file that cannot be read is `none` inside. It is checked before and after the change of
the law. -/
def load (file : Option (Option (List Char))) (law : Option Law) :
    Except LoadFault (Config Float) := do
  let c ← match file with
    | none => .ok .standard
    | some none => .error .unreadable
    | some (some text) => ofDocument text
  checked { c with law := law.getD c.law }

end Pacing.Config

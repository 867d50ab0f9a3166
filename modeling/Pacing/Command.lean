import Pacing.Config.Document
import Pacing.Flow.Line
import Pacing.Replay
import Pacing.Trace

/-!
# The replay command

`TRACE [--config FILE] [--law LAW] [--quiet]`: replays a trace and prints what the flow offered
after each record, then the flow's statistics. Options may stand anywhere before `--`, and their
value may follow after `=`. What the command does is a function of its arguments, of one environment
variable and of the files it reads; reading them is left to the caller.
-/

namespace Pacing.Command

/-! ## Arguments -/

structure Options where
  trace : String
  config : Option String
  law : Option Law
  quiet : Bool
  deriving DecidableEq, Repr

structure Draft where
  trace : Option String
  config : Option String
  law : Option Law
  quiet : Bool

def Draft.empty : Draft := ⟨none, none, none, false⟩

/-- A path. It must not be empty. -/
def path? (s : String) : Option String := if s.isEmpty then none else some s

def Draft.withTrace? (d : Draft) (s : String) : Option Draft := do
  if d.trace.isSome then none
  else return { d with trace := some (← path? s) }

def Draft.withConfig? (d : Draft) (s : String) : Option Draft := do
  if d.config.isSome then none
  else return { d with config := some (← path? s) }

def Draft.withLaw? (d : Draft) (s : String) : Option Draft := do
  if d.law.isSome then none
  else return { d with law := some (← Law.ofName? s) }

def Draft.beQuiet? (d : Draft) : Option Draft :=
  if d.quiet then none else some { d with quiet := true }

/-- An argument that begins with a dash is an option. A dash alone is not. -/
def isOption (s : String) : Bool := s.startsWith "-" && s != "-"

/-- An option that takes a value. -/
inductive Valued
  | config
  | law

def Valued.flag : Valued → String
  | config => "--config"
  | law => "--law"

def Draft.withValue? (d : Draft) : Valued → String → Option Draft
  | .config, s => d.withConfig? s
  | .law, s => d.withLaw? s

/-- The option of a flag, with the value after its `=` if there is one. -/
def valued? (s : String) : Option (Valued × Option String) :=
  let (flag, rest) := s.toList.span (· != '=')
  let value := match rest with
    | [] => none
    | _ :: v => some (String.ofList v)
  if .ofList flag == Valued.config.flag then some (.config, value)
  else if .ofList flag == Valued.law.flag then some (.law, value)
  else none

def Draft.positional? (d : Draft) (args : List String) : Option Draft :=
  args.foldlM Draft.withTrace? d

/-- Takes up the arguments. The value of an option may be the next argument, unless that is an option
itself. -/
def Draft.read? (d : Draft) : List String → Option Draft
  | [] => some d
  | "--" :: rest => d.positional? rest
  | arg :: rest =>
    if !isOption arg then (d.withTrace? arg).bind (read? · rest)
    else if arg == "--quiet" then d.beQuiet?.bind (read? · rest)
    else
      match valued? arg, rest with
      | some (o, some v), rest => (d.withValue? o v).bind (read? · rest)
      | some (o, none), v :: rest =>
        if isOption v then none else (d.withValue? o v).bind (read? · rest)
      | _, _ => none

/-- What the arguments ask for. A configuration file named in the environment counts where no
argument names one. -/
def Options.ofArgs? (args : List String) (environment : Option String) : Option Options := do
  let d ← Draft.empty.read? args
  let trace ← d.trace
  let config ← match d.config, environment with
    | some file, _ => some (some file)
    | none, some file => (path? file).map some
    | none, none => some none
  return { trace, config, law := d.law, quiet := d.quiet }

/-! ## Outcome -/

inductive Failure
  | config
  | noTrace (path : String)
  | trace (f : Trace.Fault)
  deriving DecidableEq, Repr

def Failure.message : Failure → String
  | .config => "failed to load controller config"
  | .noTrace path => s!"failed to open trace {path}"
  | .trace f => f.message

inductive File
  | missing
  /-- It can be opened and not read, for the reason given. -/
  | unreadable (reason : String)
  | bytes (content : List UInt8)

def File.text? : File → Option (List Char)
  | .bytes content => Trace.decode? content
  | _ => none

def File.records (path : String) : File → Except Failure (List Trace.Record)
  | .missing => .error (.noTrace path)
  | .unreadable reason => .error (.trace (.unreadable reason))
  | .bytes content =>
    match Trace.ofBytes content with
    | .ok records => .ok records
    | .error f => .error (.trace f)

def report (quiet : Bool) (f : Flow Float) (records : List Trace.Record) : List String :=
  let (last, steps) := Replay.steps f records
  let lines := if quiet then [] else steps.map fun s => String.ofList s.toJson.text
  lines ++ [last.stats.text]

/-- Replays a trace: the configuration comes first, then the trace. -/
def replay (o : Options) (config : Option File) (trace : File) : Except Failure (List String) := do
  let c ← match Config.load (config.map File.text?) o.law with
    | .ok c => .ok c
    | .error _ => .error .config
  let records ← trace.records o.trace
  return report o.quiet (.start c) records

inductive Outcome
  | done (lines : List String)
  | failed (f : Failure)
  | badArguments
  deriving DecidableEq, Repr

def Outcome.exitCode : Outcome → UInt8
  | .done _ => 0
  | .failed _ => 1
  | .badArguments => 2

def Failure.report (f : Failure) : String := s!"Error: {f.message}"

def usage : String := "usage: TRACE [--config FILE] [--law LAW] [--quiet]"

/-- What goes to the standard output and to the standard error, line by line. -/
def Outcome.printed : Outcome → List String × List String
  | .done lines => (lines, [])
  | .failed f => ([], [f.report])
  | .badArguments => ([], [usage])

/-- The files that the arguments name. -/
def filesOf (args : List String) (environment : Option String) : List String :=
  match Options.ofArgs? args environment with
  | none => []
  | some o => o.config.toList ++ [o.trace]

/-- Runs the command on files as `read` finds them. -/
def run (args : List String) (environment : Option String) (read : String → File) : Outcome :=
  match Options.ofArgs? args environment with
  | none => .badArguments
  | some o =>
    match replay o (o.config.map read) (read o.trace) with
    | .ok lines => .done lines
    | .error f => .failed f

/-- The command reads no other files, so it is enough to have read those before. -/
theorem run_congr {args : List String} {environment : Option String} {read read' : String → File}
    (h : ∀ path ∈ filesOf args environment, read path = read' path) :
    run args environment read = run args environment read' := by
  unfold run
  cases ho : Options.ofArgs? args environment with
  | none => rfl
  | some o =>
      simp only [filesOf, ho, List.mem_append, Option.mem_toList, List.mem_singleton] at h
      have htrace : read o.trace = read' o.trace := h o.trace (.inr rfl)
      have hconfig : o.config.map read = o.config.map read' :=
        Option.map_congr fun path hpath => h path (.inl hpath)
      simp only [htrace, hconfig]

end Pacing.Command

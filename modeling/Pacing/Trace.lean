import Pacing.Text
import Pacing.Trace.Record

/-!
# Traces

A trace has one record on a line. Blank lines and comments, which begin with `#`, are skipped. The
first line that cannot be read ends the reading: its number is told, counting all lines from one.
-/

namespace Pacing.Trace

/-- Why a trace cannot be read. -/
inductive Fault
  | notText
  /-- The trace is there, but its bytes are not, for the reason given. -/
  | unreadable (reason : String)
  | badRecord (line : Nat)
  deriving DecidableEq, Repr

def Fault.message : Fault → String
  | .notText => "failed to read trace: stream did not contain valid UTF-8"
  | .unreadable reason => s!"failed to read trace: {reason}"
  | .badRecord line => s!"invalid trace event on line {line}"

/-- A line that holds no record. -/
def isSkipped (line : List Char) : Bool := line.isEmpty || line.head? == some '#'

def readLine (number : Nat) (line : List Char) : Except Fault (Option Record) :=
  let trimmed := Text.trim line
  if isSkipped trimmed then .ok none
  else
    match Record.ofText? trimmed with
    | some r => .ok (some r)
    | none => .error (.badRecord number)

/-- Reads lines, the first of them with the number given. A line that is no text is `none`. -/
def readLines (number : Nat) : List (Option (List Char)) → Except Fault (List Record)
  | [] => .ok []
  | none :: _ => .error .notText
  | some line :: rest => do
    let record ← readLine number line
    let records ← readLines (number + 1) rest
    return record.toList ++ records

def ofText (cs : List Char) : Except Fault (List Record) :=
  readLines 1 ((Text.lines '\n' cs).map fun line => some (Text.dropReturn '\r' line))

/-- The text that some bytes hold. -/
def decode? (bytes : List UInt8) : Option (List Char) :=
  (String.fromUTF8? ⟨bytes.toArray⟩).map String.toList

def ofBytes (bytes : List UInt8) : Except Fault (List Record) :=
  readLines 1 ((Text.lines 10 bytes).map fun line => decode? (Text.dropReturn 13 line))

def text (records : List Record) : List Char := records.flatMap fun r => r.text ++ ['\n']

end Pacing.Trace

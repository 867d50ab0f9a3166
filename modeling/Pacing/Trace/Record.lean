import Pacing.Flow.Event
import Pacing.Json.Reader

/-!
# Records of a trace

A record is one event of a recorded run, with the time at which it came. It is written as a JSON
object with its kind under `event`. A record can also be read from an array: its kind, then its
fields in order.
-/

namespace Pacing.Trace

/-- One event of a recorded run; `t` is its time (ms). -/
inductive Record
  | init (t : Float)
  | sent (t : Float) (seq : Nat)
  | ack (t : Float) (ackSeq : Nat) (receiverTs senderTs : Float)
  | timeout (t : Float)
  | linkRate (t rate : Float)
  /-- A round-trip time from the handshake. It has no time of its own. -/
  | minRtt (rtt : Float)
  | steadyState (t : Float)
  deriving DecidableEq

namespace Record

def time? : Record → Option Float
  | init t | sent t _ | ack t .. | timeout t | linkRate t _ | steadyState t => some t
  | minRtt _ => none

def event : Record → Event Float
  | init _ => .init
  | sent _ seq => .sent seq
  | ack _ ackSeq receiverTs senderTs => .ack ackSeq receiverTs senderTs
  | timeout _ => .timeout
  | linkRate _ rate => .linkRate rate
  | minRtt rtt => .minRtt rtt
  | steadyState _ => .steadyState

/-- The events of a record: the clock is set first. -/
def events (r : Record) : List (Event Float) :=
  match r.time? with
  | some t => [.clock t, r.event]
  | none => [r.event]

/-! ## Kinds and fields -/

inductive Kind
  | init
  | sent
  | ack
  | timeout
  | linkRate
  | minRtt
  | steadyState
  deriving DecidableEq, Repr

namespace Kind

def all : List Kind := [init, sent, ack, timeout, linkRate, minRtt, steadyState]

def name : Kind → String
  | init => "init"
  | sent => "sent"
  | ack => "ack"
  | timeout => "timeout"
  | linkRate => "link_rate"
  | minRtt => "min_rtt"
  | steadyState => "steady_state"

def ofName? (s : List Char) : Option Kind := all.find? (·.name.toList == s)

/-- The names of the fields, in order. -/
def fields : Kind → List String
  | init | timeout | steadyState => ["t"]
  | sent => ["t", "seq"]
  | ack => ["t", "ack", "receiver_ts", "sender_ts"]
  | linkRate => ["t", "rate"]
  | minRtt => ["rtt"]

end Kind

/-- The field that holds a record's kind. -/
def kindField : String := "event"

/-! ## Writing -/

def kind : Record → Kind
  | init _ => .init
  | sent .. => .sent
  | ack .. => .ack
  | timeout _ => .timeout
  | linkRate .. => .linkRate
  | minRtt _ => .minRtt
  | steadyState _ => .steadyState

def values : Record → List Json.Number
  | init t | timeout t | steadyState t => [.real t]
  | sent t seq => [.real t, .natural seq]
  | ack t ackSeq receiverTs senderTs =>
    [.real t, .natural ackSeq, .real receiverTs, .real senderTs]
  | linkRate t rate => [.real t, .real rate]
  | minRtt rtt => [.real rtt]

def toJson (r : Record) : Json :=
  .object ((kindField.toList, .string r.kind.name.toList) ::
    r.kind.fields.zipWith (fun k v => (k.toList, .number v)) r.values)

def text (r : Record) : List Char := r.toJson.text

/-! ## Reading -/

/-- The values of a field, those of repeated fields too. -/
def valuesOf (name : String) (fields : List (List Char × Json)) : List Json :=
  (fields.filter (·.1 == name.toList)).map (·.2)

/-- What a record has in the place of each of its fields, if anything. -/
abbrev Slots := List (Option Json)

/-- Finds each field in an object. Only other fields may be repeated. -/
def slotsOfObject? (names : List String) (fields : List (List Char × Json)) : Option Slots :=
  names.mapM fun name =>
    match valuesOf name fields with
    | [] => some none
    | [v] => some (some v)
    | _ => none

/-- Lines the items of an array up with the fields. There may be fewer, not more. -/
def slotsOfArray? (names : List String) (items : List Json) : Option Slots :=
  if names.length < items.length then none
  else some (items.map some ++ List.replicate (names.length - items.length) none)

/-- The kind and the fields of a record. -/
def parts? : Json → Option (Kind × Slots)
  | .object fields => do
    let [.string name] := valuesOf kindField fields | none
    let kind ← Kind.ofName? name
    return (kind, ← slotsOfObject? kind.fields fields)
  | .array (.string name :: items) => do
    let kind ← Kind.ofName? name
    return (kind, ← slotsOfArray? kind.fields items)
  | _ => none

/-- A field that holds a double. Integers are taken, too. -/
def real? : Option Json → Option Float
  | some (.number n) => some n.toFloat
  | _ => none

/-- A field that may be missing and is zero then. -/
def realOrZero? : Option Json → Option Float
  | none => some 0
  | slot => real? slot

/-- A field that holds an unsigned 64-bit integer. -/
def natural? : Option Json → Option Nat
  | some (.number (.natural n)) => some n
  | _ => none

def ofParts? : Kind → Slots → Option Record
  | .init, [t] => return .init (← real? t)
  | .sent, [t, seq] => return .sent (← real? t) (← natural? seq)
  | .ack, [t, ackSeq, receiverTs, senderTs] =>
    return .ack (← real? t) (← natural? ackSeq) (← realOrZero? receiverTs) (← realOrZero? senderTs)
  | .timeout, [t] => return .timeout (← real? t)
  | .linkRate, [t, rate] => return .linkRate (← real? t) (← real? rate)
  | .minRtt, [rtt] => return .minRtt (← real? rtt)
  | .steadyState, [t] => return .steadyState (← real? t)
  | _, _ => none

def ofJson? (v : Json) : Option Record := do
  let (kind, slots) ← parts? v
  ofParts? kind slots

def ofText? (line : List Char) : Option Record := (Json.ofText? line).bind ofJson?

end Record

end Pacing.Trace

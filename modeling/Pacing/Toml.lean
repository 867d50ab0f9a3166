/-!
# TOML values and tables

A document is a table. What else may be written into a table depends on how it came about, so each
table knows its origin: a table with a header of its own is complete with its section, one that a
header only passed through may still get a header, and one made by dotted keys only grows by dotted
keys of the same section.
-/

namespace Pacing.Toml

abbrev Key := List Char

/-- How a table came about. -/
inductive Origin
  /-- Under a header of its own, or as the whole document. -/
  | header
  /-- On the way to a header further down. -/
  | passed
  /-- By a dotted key. -/
  | dotted
  /-- Between braces. -/
  | inline
  deriving DecidableEq, Repr

inductive Node
  | string (s : List Char)
  | integer (n : Int)
  | float (x : Float)
  | boolean (b : Bool)
  /-- A date, a time or both. Nothing here needs to know which. -/
  | date
  | array (items : List Node)
  | table (origin : Origin) (entries : List (Key × Node))
  /-- Tables under repeated headers, the last of them apart. -/
  | tables (earlier : List (List (Key × Node))) (last : List (Key × Node))

abbrev Entries := List (Key × Node)

namespace Entries

def find? (es : Entries) (k : Key) : Option Node := es.lookup k

def replace (es : Entries) (k : Key) (v : Node) : Entries :=
  es.map fun e => if e.1 == k then (k, v) else e

/-- Adds a key that is not there yet. -/
def add? (es : Entries) (k : Key) (v : Node) : Option Entries :=
  if (es.find? k).isSome then none else some (es ++ [(k, v)])

/-- Changes the table at the end of a path. Tables missing on the way are made with the origin
`made`; one that is there is entered if its origin is one that `may` allows. Repeated tables are
entered at the last one. -/
def within? (made : Origin) (may : Origin → Bool) (change : Origin → Entries → Option Entries) :
    List Key → Origin → Entries → Option Entries
  | [], o, es => change o es
  | k :: path, _, es =>
    match es.find? k with
    | none => do
      let sub ← within? made may change path made []
      return es ++ [(k, .table made sub)]
    | some (.table o sub) =>
      if may o then do
        let sub ← within? made may change path o sub
        return es.replace k (.table o sub)
      else none
    | some (.tables earlier last) => do
      let last ← within? made may change path .header last
      return es.replace k (.tables earlier last)
    | some _ => none

/-! ## Keys with values -/

/-- Writes a value under a dotted key. Its last table must have been made by dotted keys, unless the
key has no dot. -/
def put? (path : List Key) (k : Key) (v : Node) (o : Origin) (es : Entries) : Option Entries :=
  within? .dotted (fun o => o == .dotted || o == .passed)
    (fun o es => if path.isEmpty || o == .dotted then es.add? k v else none) path o es

/-! ## Headers -/

/-- A header may go through any table. -/
def through? (path : List Key) (change : Entries → Option Entries) (es : Entries) :
    Option Entries :=
  within? .passed (fun o => o != .inline) (fun _ => change) path .header es

/-- Opens the table of a header. It must be new, or so far only passed through. -/
def openTable? (path : List Key) (k : Key) (es : Entries) : Option Entries :=
  es.through? path fun es =>
    match es.find? k with
    | none => some (es ++ [(k, .table .header [])])
    | some (.table .passed sub) => some (es.replace k (.table .header sub))
    | some _ => none

/-- Opens the next of the tables of a repeated header. -/
def openNext? (path : List Key) (k : Key) (es : Entries) : Option Entries :=
  es.through? path fun es =>
    match es.find? k with
    | none => some (es ++ [(k, .tables [] [])])
    | some (.tables earlier last) => some (es.replace k (.tables (earlier ++ [last]) []))
    | some _ => none

end Entries

end Pacing.Toml

import Pacing.Toml.Number

/-!
# TOML documents

A document is read line by line into a table: a header says which table the keys after it belong to.
Arrays and inline tables nest less than `maxDepth` deep.
-/

namespace Pacing.Toml

/-! ## Values -/

/-- The items of an array, up to its end. There may be a comma after the last one. -/
def items (value : Scan Node) : Scan (List Node) := do
  Scan.char '['
  Scan.untilEnd do
    gaps
    match ← Scan.peek? with
    | some ']' => Scan.char ']'; return none
    | _ =>
      let v ← value
      gaps
      match ← Scan.peek? with
      | some ',' => Scan.char ','
      | some ']' => pure ()
      | _ => failure
      return some v

def keyValue (value : Scan Node) : Scan (List Key × Node) := do
  let key ← dottedKey
  Scan.char '='
  blanks
  return (key, ← value)

def put (o : Origin) (es : Entries) (kv : List Key × Node) : Option Entries :=
  kv.1.getLast?.bind fun k => es.put? kv.1.dropLast k kv.2 o

/-- The keys and values between braces, on one line and without a comma after the last. -/
def inlinePairs (value : Scan Node) : Scan (List (List Key × Node)) := do
  let pair : Scan (List Key × Node) := do
    let kv ← keyValue value
    blanks
    return kv
  Scan.char '\x7b'
  blanks
  match ← Scan.peek? with
  | some '\x7d' => Scan.char '\x7d'; return []
  | _ =>
    let first ← pair
    let more ← Scan.untilEnd do
      match ← Scan.any with
      | ',' => return some (← pair)
      | '\x7d' => return none
      | _ => failure
    return first :: more

def inlineTable (value : Scan Node) : Scan Node := do
  let pairs ← inlinePairs value
  match pairs.foldlM (put .inline) [] with
  | some es => return .table .inline es
  | none => failure

/-- A value with less than `depth` arrays and inline tables around its parts. -/
def value : Nat → Scan Node
  | 0 => failure
  | depth + 1 => do
    match ← Scan.peek? with
    | none => failure
    | some c =>
      if c == '"' || c == '\'' then return .string (← string)
      else if c == '[' then
        if depth = 0 then failure
        return .array (← items (value depth))
      else if c == '\x7b' then
        if depth = 0 then failure
        inlineTable (value depth)
      else if c == 't' then Scan.chars ['t', 'r', 'u', 'e']; return .boolean true
      else if c == 'f' then Scan.chars ['f', 'a', 'l', 's', 'e']; return .boolean false
      else if c == 'i' || c == 'n' then specialFloat
      else dateOrNumber

/-! ## Sections -/

/-- What has been read of a document, and the table that keys now belong to. -/
structure Draft where
  root : Entries
  current : List Key

/-- A line of a document. -/
inductive Statement
  | pair (key : List Key) (v : Node)
  | table (path : List Key)
  | next (path : List Key)

def Draft.add? (d : Draft) : Statement → Option Draft
  | .pair key v => do
    let root ← Entries.within? .passed (fun _ => true) (fun o es => put o es (key, v))
      d.current .header d.root
    return { d with root }
  | .table path => do
    let k ← path.getLast?
    let root ← d.root.openTable? path.dropLast k
    return ⟨root, path⟩
  | .next path => do
    let k ← path.getLast?
    let root ← d.root.openNext? path.dropLast k
    return ⟨root, path⟩

def header : Scan Statement := do
  match ← Scan.ahead 2 with
  | ['[', '['] =>
    Scan.chars ['[', '[']
    let path ← dottedKey
    Scan.chars [']', ']']
    return .next path
  | _ =>
    Scan.char '['
    let path ← dottedKey
    Scan.char ']'
    return .table path

/-- The next statement of a document, none where only blanks, comments and line ends are left. -/
def statement : Scan (Option Statement) := do
  let _ ← Scan.untilEnd do
    blanks
    match ← Scan.peek? with
    | some '#' => lineEnd; return some ()
    | some '\n' | some '\r' => newline; return some ()
    | _ => return none
  match ← Scan.peek? with
  | none => return none
  | some '[' =>
    let s ← header
    lineEnd
    return some s
  | some _ =>
    let (key, v) ← keyValue (value maxDepth)
    lineEnd
    return some (.pair key v)

/-- Reads a document. A byte order mark before it does not count. -/
def ofText? (cs : List Char) : Option Entries := do
  let cs := if cs.head? == some '\ufeff' then cs.drop 1 else cs
  let (statements, _) ← Scan.untilEnd statement cs
  let d ← statements.foldlM Draft.add? ⟨[], []⟩
  return d.root

end Pacing.Toml

/-!
# Scanning texts

A scan takes characters off the front of a text, or fails. Loops are bounded by the length of what is
left: each round but the last takes a character.
-/

namespace Pacing.Toml

/-- Takes a value off the front of a text. -/
abbrev Scan (β : Type) := StateT (List Char) Option β

namespace Scan

variable {β : Type}

/-- The next character, which stays. -/
def peek? : Scan (Option Char) := fun cs => some (cs.head?, cs)

/-- The next characters, as many as given, which stay. -/
def ahead (n : Nat) : Scan (List Char) := fun cs => some (cs.take n, cs)

def any : Scan Char
  | [] => none
  | c :: cs => some (c, cs)

def satisfying (p : Char → Bool) : Scan Char
  | [] => none
  | c :: cs => if p c then some (c, cs) else none

def char (c : Char) : Scan Unit := do let _ ← satisfying (· == c)

def chars : List Char → Scan Unit
  | [] => pure ()
  | c :: cs => do char c; chars cs

def run (p : Char → Bool) : Scan (List Char) := fun cs =>
  some (cs.takeWhile p, cs.dropWhile p)

def exactly (p : Char → Bool) : Nat → Scan (List Char)
  | 0 => pure []
  | n + 1 => do
    let c ← satisfying p
    let cs ← exactly p n
    return c :: cs

/-- Takes what the scan takes, or nothing if it fails. -/
def optional (s : Scan β) : Scan (Option β) := (some <$> s) <|> pure none

/-- Repeats a scan until it says that it is the end, at most `fuel` times. -/
def rounds (s : Scan (Option β)) : Nat → Scan (List β)
  | 0 => failure
  | fuel + 1 => do
    match ← s with
    | none => return []
    | some x =>
      let xs ← rounds s fuel
      return x :: xs

/-- Repeats a scan until it says that it is the end. -/
def untilEnd (s : Scan (Option β)) : Scan (List β) := fun cs => rounds s (cs.length + 1) cs

end Scan

/-! ## Blanks and comments -/

def isBlank (c : Char) : Bool := c == ' ' || c == '\t'

/-- A character that may stand in a line. -/
def isPlain (c : Char) : Bool := c == '\t' || (' ' ≤ c && c != '\x7f')

def blanks : Scan Unit := do let _ ← Scan.run isBlank

def newline : Scan Unit := Scan.char '\n' <|> Scan.chars ['\r', '\n']

def comment : Scan Unit := do
  Scan.char '#'
  let _ ← Scan.run isPlain

def endOfText : Scan Unit := fun cs => if cs.isEmpty then some ((), []) else none

/-- The rest of a line, on which nothing but a comment may stand. -/
def lineEnd : Scan Unit := do
  blanks
  let _ ← Scan.optional comment
  newline <|> endOfText

/-- Blanks, line ends and comments, as they may stand between the items of an array. -/
def gaps : Scan Unit := do
  let _ ← Scan.untilEnd do
    match ← Scan.peek? with
    | some '#' => comment; newline; return some ()
    | some '\n' | some '\r' => newline; return some ()
    | some ' ' | some '\t' => blanks; return some ()
    | _ => return none

end Pacing.Toml

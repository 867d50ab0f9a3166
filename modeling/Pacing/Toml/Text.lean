import Pacing.Text
import Pacing.Toml.Scan

/-!
# TOML strings and keys

Basic strings have escapes, literal ones none; both can stand on one line or, between three quotes,
on many. A key is a bare word or a string on one line.
-/

namespace Pacing.Toml

/-! ## Escapes -/

def isHex (c : Char) : Bool := (Text.hexDigit? c).isSome

def numberOf (base : Nat) (ds : List Char) : Nat :=
  ds.foldl (fun n c => n * base + (Text.hexDigit? c).getD 0) 0

/-- A character by its code point in `n` hexadecimal digits. Surrogates are no characters. -/
def codePoint (n : Nat) : Scan Char := do
  let v := numberOf 16 (← Scan.exactly isHex n)
  if v < 0xd800 ∨ (0xdfff < v ∧ v ≤ 0x10ffff) then return Char.ofNat v else failure

def escape : Scan Char := do
  match ← Scan.any with
  | 'b' => return '\x08'
  | 't' => return '\t'
  | 'n' => return '\n'
  | 'f' => return '\x0c'
  | 'r' => return '\r'
  | '"' => return '"'
  | '\\' => return '\\'
  | 'u' => codePoint 4
  | 'U' => codePoint 8
  | _ => failure

/-! ## Strings on one line -/

def basicString : Scan (List Char) := do
  Scan.char '"'
  Scan.untilEnd do
    match ← Scan.any with
    | '"' => return none
    | '\\' => return some (← escape)
    | c => if isPlain c then return some c else failure

def literalString : Scan (List Char) := do
  Scan.char '\''
  Scan.untilEnd do
    match ← Scan.any with
    | '\'' => return none
    | c => if isPlain c then return some c else failure

/-! ## Strings on many lines -/

/-- What a round of a string on many lines takes: some of its text, or its end, before which up to
two more quotes may stand. -/
structure Piece where
  text : List Char
  isLast : Bool

/-- A run of quotes. Three of them end the string. -/
def quotes (q : Char) : Scan Piece := do
  let n := (← Scan.run (· == q)).length
  if n < 3 then return ⟨List.replicate n q, false⟩
  else if n ≤ 5 then return ⟨List.replicate (n - 3) q, true⟩
  else failure

/-- A backslash at the end of a line hides the blanks and line ends up to the next character. -/
def hiddenEnd : Scan Unit := do
  blanks
  newline
  let _ ← Scan.untilEnd do
    match ← Scan.peek? with
    | some '\n' | some '\r' => newline; return some ()
    | some ' ' | some '\t' => blanks; return some ()
    | _ => return none

def piece (q : Char) (escapes : Bool) : Scan Piece := do
  match ← Scan.peek? with
  | none => failure
  | some c =>
    if c == q then quotes q
    else if c == '\n' || c == '\r' then newline; return ⟨['\n'], false⟩
    else if escapes && c == '\\' then
      Scan.char '\\'
      match ← Scan.optional hiddenEnd with
      | some _ => return ⟨[], false⟩
      | none => return ⟨[← escape], false⟩
    else if isPlain c then return ⟨[← Scan.any], false⟩
    else failure

def pieces (q : Char) (escapes : Bool) : Nat → Scan (List Char)
  | 0 => failure
  | fuel + 1 => do
    let p ← piece q escapes
    if p.isLast then return p.text
    else
      let rest ← pieces q escapes fuel
      return p.text ++ rest

/-- A string on many lines. A line end right after the opening quotes does not count. -/
def multiline (q : Char) (escapes : Bool) : Scan (List Char) := do
  Scan.chars [q, q, q]
  let _ ← Scan.optional newline
  fun cs => pieces q escapes (cs.length + 1) cs

def string : Scan (List Char) := do
  match ← Scan.ahead 3 with
  | ['"', '"', '"'] => multiline '"' true
  | ['\'', '\'', '\''] => multiline '\'' false
  | '"' :: _ => basicString
  | '\'' :: _ => literalString
  | _ => failure

/-! ## Keys -/

def isBare (c : Char) : Bool := c.isAlphanum || c == '_' || c == '-'

def simpleKey : Scan (List Char) := do
  match ← Scan.peek? with
  | some '"' => basicString
  | some '\'' => literalString
  | _ =>
    let k ← Scan.run isBare
    if k.isEmpty then failure else return k

/-- A key may not have this many parts. -/
def maxDepth : Nat := 80

/-- A key with its parts, blanks around each of them. -/
def dottedKey : Scan (List (List Char)) := do
  let part : Scan (List Char) := do
    blanks
    let k ← simpleKey
    blanks
    return k
  let first ← part
  let more ← Scan.untilEnd do
    match ← Scan.peek? with
    | some '.' => Scan.char '.'; return some (← part)
    | _ => return none
  let key := first :: more
  if key.length < maxDepth then return key else failure

end Pacing.Toml

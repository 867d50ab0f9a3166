import Pacing.Json.Number
import Pacing.Text

/-!
# Tokens of a JSON text

A text is split into tokens before any structure is seen in it. A string token holds its characters
with the escapes resolved.
-/

namespace Pacing.Json

inductive Token
  | objectOpen
  | objectClose
  | arrayOpen
  | arrayClose
  | colon
  | comma
  | null
  | bool (b : Bool)
  | number (n : Number)
  | string (s : List Char)
  deriving DecidableEq

namespace Token

/-! ## Escapes -/

/-- The number in the next four hexadecimal digits. -/
def hex4? : List Char → Option (Nat × List Char)
  | a :: b :: c :: d :: rest => do
    let a ← Text.hexDigit? a
    let b ← Text.hexDigit? b
    let c ← Text.hexDigit? c
    let d ← Text.hexDigit? d
    return (((a * 16 + b) * 16 + c) * 16 + d, rest)
  | _ => none

def isLeading (n : Nat) : Bool := 0xd800 ≤ n && n ≤ 0xdbff

def isTrailing (n : Nat) : Bool := 0xdc00 ≤ n && n ≤ 0xdfff

/-- The second half of a surrogate pair, and the character that the pair stands for. -/
def secondHalf? (n : Nat) : List Char → Option (Char × List Char)
  | '\\' :: 'u' :: cs =>
    match hex4? cs with
    | some (m, rest) =>
      if isTrailing m then
        some (Char.ofNat ((n - 0xd800) * 1024 + (m - 0xdc00) + 0x10000), rest)
      else none
    | none => none
  | _ => none

/-- The character of the escape that a backslash begins. Surrogates must come in pairs. -/
def escape? : List Char → Option (Char × List Char)
  | [] => none
  | e :: cs =>
    if e == 'u' then
      match hex4? cs with
      | some (n, rest) =>
        if isTrailing n then none
        else if isLeading n then secondHalf? n rest
        else some (Char.ofNat n, rest)
      | none => none
    else if e == '"' || e == '\\' || e == '/' then some (e, cs)
    else if e == 'b' then some ('\x08', cs)
    else if e == 'f' then some ('\x0c', cs)
    else if e == 'n' then some ('\n', cs)
    else if e == 'r' then some ('\r', cs)
    else if e == 't' then some ('\t', cs)
    else none

theorem length_of_hex4? {cs rest : List Char} {n : Nat} (h : hex4? cs = some (n, rest)) :
    rest.length < cs.length := by
  unfold hex4? at h
  split at h
  · simp only [bind, Option.bind_eq_some_iff, pure, Option.some.injEq, Prod.mk.injEq] at h
    obtain ⟨_, _, _, _, _, _, _, _, _, rfl⟩ := h
    simp only [List.length_cons]
    omega
  · cases h

theorem length_of_secondHalf? {cs rest : List Char} {n : Nat} {c : Char}
    (h : secondHalf? n cs = some (c, rest)) : rest.length < cs.length := by
  unfold secondHalf? at h
  split at h
  · split at h
    · rename_i hm
      split at h
      · have := length_of_hex4? hm
        simp only [Option.some.injEq, Prod.mk.injEq] at h
        obtain ⟨_, rfl⟩ := h
        simp only [List.length_cons]
        omega
      · cases h
    · cases h
  · cases h

theorem length_of_escape? {cs rest : List Char} {c : Char} (h : escape? cs = some (c, rest)) :
    rest.length < cs.length := by
  unfold escape? at h
  split at h
  · cases h
  · split at h
    · split at h
      · rename_i hn
        have := length_of_hex4? hn
        split at h
        · cases h
        · split at h
          · have := length_of_secondHalf? h
            simp only [List.length_cons]
            omega
          · simp only [Option.some.injEq, Prod.mk.injEq] at h
            obtain ⟨_, rfl⟩ := h
            simp only [List.length_cons]
            omega
      · cases h
    · simp only [List.length_cons]
      repeat' split at h
      all_goals simp_all

/-! ## Strings -/

/-- The characters up to the closing quote, and what follows it. Control characters must be
escaped. -/
def stringBody? : List Char → Option (List Char × List Char)
  | [] => none
  | c :: cs =>
    if c == '"' then some ([], cs)
    else if c == '\\' then
      match h : escape? cs with
      | some (e, rest) =>
        have := length_of_escape? h
        (stringBody? rest).map fun (s, after) => (e :: s, after)
      | none => none
    else if c.toNat < 32 then none
    else (stringBody? cs).map fun (s, after) => (c :: s, after)
  termination_by cs => cs.length

theorem length_of_stringBody? {cs s rest : List Char} (h : stringBody? cs = some (s, rest)) :
    rest.length < cs.length := by
  fun_induction stringBody? cs generalizing s rest with
  | case1 => cases h
  | case2 c cs =>
    simp only [Option.some.injEq, Prod.mk.injEq] at h
    simp [h.2]
  | case3 c cs _ _ e mid he hlt ih =>
    obtain ⟨⟨s', after⟩, hs, heq⟩ := Option.map_eq_some_iff.1 h
    obtain ⟨-, rfl⟩ := Prod.mk.inj heq
    have := ih hs
    simp only [List.length_cons]
    omega
  | case4 => cases h
  | case5 => cases h
  | case6 c cs _ _ _ ih =>
    obtain ⟨⟨s', after⟩, hs, heq⟩ := Option.map_eq_some_iff.1 h
    obtain ⟨-, rfl⟩ := Prod.mk.inj heq
    have := ih hs
    simp only [List.length_cons]
    omega

/-! ## Texts -/

def isSpace (c : Char) : Bool := c == ' ' || c == '\n' || c == '\t' || c == '\r'

def isNumeric (c : Char) : Bool :=
  c.isDigit || c == '-' || c == '+' || c == '.' || c == 'e' || c == 'E'

def ofChar? (c : Char) : Option Token :=
  if c == '\x7b' then some objectOpen
  else if c == '\x7d' then some objectClose
  else if c == '[' then some arrayOpen
  else if c == ']' then some arrayClose
  else if c == ':' then some colon
  else if c == ',' then some comma
  else none

def literal? : List Char → Option (Token × List Char)
  | 'n' :: 'u' :: 'l' :: 'l' :: rest => some (null, rest)
  | 't' :: 'r' :: 'u' :: 'e' :: rest => some (bool true, rest)
  | 'f' :: 'a' :: 'l' :: 's' :: 'e' :: rest => some (bool false, rest)
  | _ => none

def number? (cs : List Char) : Option (Token × List Char) :=
  match cs.takeWhile isNumeric with
  | [] => none
  | ds => (Number.ofText? ds).map fun n => (number n, cs.dropWhile isNumeric)

/-- The first token of a text that does not begin with a blank. -/
def next? : List Char → Option (Token × List Char)
  | [] => none
  | c :: cs =>
    match ofChar? c with
    | some t => some (t, cs)
    | none =>
      if c == '"' then (stringBody? cs).map fun (s, rest) => (string s, rest)
      else if isNumeric c then number? (c :: cs)
      else literal? (c :: cs)

theorem length_of_literal? {cs rest : List Char} {t : Token} (h : literal? cs = some (t, rest)) :
    rest.length < cs.length := by
  unfold literal? at h
  split at h <;> simp only [Option.some.injEq, Prod.mk.injEq, reduceCtorEq] at h
  all_goals
    obtain ⟨_, rfl⟩ := h
    simp only [List.length_cons]
    omega

theorem length_of_number? {cs rest : List Char} {t : Token} (h : number? cs = some (t, rest)) :
    rest.length < cs.length := by
  unfold number? at h
  split at h
  · cases h
  · rename_i hne
    obtain ⟨n, _, heq⟩ := Option.map_eq_some_iff.1 h
    obtain ⟨-, rfl⟩ := Prod.mk.inj heq
    have hlen := congrArg List.length (List.takeWhile_append_dropWhile (p := isNumeric) (l := cs))
    have := List.length_pos_iff.2 hne
    simp only [List.length_append] at hlen
    omega

theorem length_of_next? {cs rest : List Char} {t : Token} (h : next? cs = some (t, rest)) :
    rest.length < cs.length := by
  unfold next? at h
  split at h
  · cases h
  · split at h
    · simp only [Option.some.injEq, Prod.mk.injEq] at h
      simp [h.2]
    · split at h
      · obtain ⟨⟨s, after⟩, hs, heq⟩ := Option.map_eq_some_iff.1 h
        obtain ⟨-, rfl⟩ := Prod.mk.inj heq
        have := length_of_stringBody? hs
        simp only [List.length_cons]
        omega
      · split at h
        · exact length_of_number? h
        · exact length_of_literal? h

def scan? : List Char → Option (List Token)
  | [] => some []
  | c :: cs =>
    if isSpace c then scan? cs
    else
      match h : next? (c :: cs) with
      | some (t, rest) =>
        have := length_of_next? h
        (scan? rest).map (t :: ·)
      | none => none
  termination_by cs => cs.length
  decreasing_by
    · simp
    · exact this

end Token

end Pacing.Json

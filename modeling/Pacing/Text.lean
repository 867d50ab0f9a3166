/-!
# Characters and lines

What the readers of this library share: white space, hexadecimal digits, and the lines of a text.
-/

namespace Pacing.Text

/-! ## White space -/

/-- The ranges of code points with the Unicode property White_Space, in order. -/
def blankRanges : List (Nat × Nat) :=
  [(0x9, 0xd), (0x20, 0x20), (0x85, 0x85), (0xa0, 0xa0), (0x1680, 0x1680), (0x2000, 0x200a),
    (0x2028, 0x2029), (0x202f, 0x202f), (0x205f, 0x205f), (0x3000, 0x3000)]

def isBlank (c : Char) : Bool :=
  blankRanges.any fun r => r.1 ≤ c.toNat && c.toNat ≤ r.2

/-- The text from its first to its last character that is not blank. -/
def trim (cs : List Char) : List Char :=
  ((cs.dropWhile isBlank).reverse.dropWhile isBlank).reverse

/-! ## Hexadecimal digits -/

/-- The value of a digit, in upper or in lower case. -/
def hexDigit? (c : Char) : Option Nat :=
  if c.isDigit then some (c.toNat - '0'.toNat)
  else if 'a' ≤ c ∧ c ≤ 'f' then some (c.toNat - 'a'.toNat + 10)
  else if 'A' ≤ c ∧ c ≤ 'F' then some (c.toNat - 'A'.toNat + 10)
  else none

/-! ## Lines

A line ends at a line feed or where the text ends. A text that ends in a line feed has no line after
it, so the empty text has none.
-/

variable {β : Type}

theorem length_afterLine [BEq β] (feed c : β) (r : List β) :
    (((c :: r).dropWhile (· != feed)).drop 1).length < (c :: r).length := by
  have : ((c :: r).dropWhile (· != feed)).length ≤ (c :: r).length :=
    (List.dropWhile_suffix _).length_le
  simp only [List.length_drop, List.length_cons] at *
  omega

/-- Splits at each line feed. -/
def lines [BEq β] (feed : β) : List β → List (List β)
  | [] => []
  | c :: r =>
    have := length_afterLine feed c r
    (c :: r).takeWhile (· != feed) :: lines feed (((c :: r).dropWhile (· != feed)).drop 1)
  termination_by cs => cs.length
  decreasing_by exact this

theorem lines_nil [BEq β] (feed : β) : lines feed [] = [] := by rw [lines]

theorem lines_append [BEq β] [LawfulBEq β] {feed : β} {line : List β} (h : feed ∉ line)
    (rest : List β) : lines feed (line ++ feed :: rest) = line :: lines feed rest := by
  have ht : (line ++ feed :: rest).takeWhile (· != feed) = line := by
    rw [List.takeWhile_append_of_pos (by simp; intro a ha e; exact h (e ▸ ha))]
    simp
  have hd : (line ++ feed :: rest).dropWhile (· != feed) = feed :: rest := by
    rw [List.dropWhile_append_of_pos (by simp; intro a ha e; exact h (e ▸ ha))]
    simp
  cases hl : line ++ feed :: rest with
  | nil => simp at hl
  | cons c cs =>
    rw [lines, ← hl, ht, hd]
    rfl

theorem lines_of_notMem [BEq β] [LawfulBEq β] {feed : β} {line : List β} (h : feed ∉ line)
    (hne : line ≠ []) : lines feed line = [line] := by
  have hp : ∀ a ∈ line, (a != feed) = true := by
    intro a ha
    simp only [bne_iff_ne, ne_eq]
    exact fun e => h (e ▸ ha)
  have hd : line.dropWhile (· != feed) = [] := by
    rw [← List.append_nil line, List.dropWhile_append_of_pos hp]
    rfl
  have ht : line.takeWhile (· != feed) = line := by
    have := List.takeWhile_append_dropWhile (p := (· != feed)) (l := line)
    rwa [hd, List.append_nil] at this
  obtain ⟨c, cs, rfl⟩ := List.exists_cons_of_ne_nil hne
  rw [lines, ht, hd]
  simp [lines]

/-- A line without the carriage return before its line feed. -/
def dropReturn [BEq β] (ret : β) (line : List β) : List β :=
  if line.getLast?.any (· == ret) then line.dropLast else line

end Pacing.Text

import Mathlib.Data.List.DropRight
import Pacing.Text

/-!
# Texts, their lines and their bytes

Blanks at the ends of a line make no difference to what is trimmed, and a carriage return is one of them. The lines
of a text are the same whether it is split before or after it is encoded, since the bytes of a line feed and of a
carriage return belong to no other character.
-/

namespace Pacing.Text

/-! ## Blanks -/

section

variable {before cs after : List Char}

theorem dropWhile_isBlank (h : ∀ c ∈ cs, isBlank c = true) : cs.dropWhile isBlank = [] := by
  rw [← List.append_nil cs, List.dropWhile_append_of_pos h]
  rfl

theorem trim_append_left (h : ∀ c ∈ before, isBlank c = true) : trim (before ++ cs) = trim cs := by
  rw [trim, List.dropWhile_append_of_pos h, trim]

theorem trim_append_right (h : ∀ c ∈ after, isBlank c = true) : trim (cs ++ after) = trim cs := by
  have hreverse : ∀ c ∈ after.reverse, isBlank c = true := fun c hc => h c (List.mem_reverse.mp hc)
  rw [trim, trim, List.dropWhile_append]
  split
  · rename_i hall
    rw [dropWhile_isBlank h, List.isEmpty_iff.mp hall]
  · rw [List.reverse_append, List.dropWhile_append_of_pos hreverse]

theorem dropReturn_concat {β : Type} [BEq β] (ret : β) (line : List β) (c : β) :
    dropReturn ret (line ++ [c]) = if c == ret then line else line ++ [c] := by
  rw [dropReturn, List.getLast?_concat, List.dropLast_concat, Option.any_some]

theorem trim_dropReturn (line : List Char) : trim (dropReturn '\r' line) = trim line := by
  rcases line.eq_nil_or_concat' with rfl | ⟨line, c, rfl⟩
  · rfl
  · rw [dropReturn_concat]
    split
    · rename_i hc
      obtain rfl := eq_of_beq hc
      rw [trim_append_right (List.forall_mem_singleton.mpr rfl)]
    · rfl

/-- A text that neither begins nor ends with a blank is its own trimmed form. -/
theorem trim_of_ends {first last : Char} {middle : List Char} (hfirst : isBlank first = false)
    (hlast : isBlank last = false) : trim (first :: (middle ++ [last])) = first :: (middle ++ [last]) := by
  rw [trim, List.dropWhile_cons_of_neg (by simp [hfirst]), ← List.cons_append, List.reverse_append,
    List.reverse_singleton, List.singleton_append, List.dropWhile_cons_of_neg (by simp [hlast]),
    List.reverse_cons, List.reverse_reverse]

end

/-! ## Lines -/

section

variable {β : Type} [BEq β] [LawfulBEq β] {feed : β}

/-- A text is empty, a line alone, or a line with a line feed and the rest after it. -/
theorem lines_induction (feed : β) {motive : List β → Prop} (nil : motive [])
    (alone : ∀ line, feed ∉ line → line ≠ [] → motive line)
    (append : ∀ line rest, feed ∉ line → motive rest → motive (line ++ feed :: rest)) (cs : List β) : motive cs := by
  induction hlength : cs.length using Nat.strongRecOn generalizing cs with
  | ind n ih =>
      subst hlength
      by_cases hfeed : feed ∈ cs
      · obtain ⟨line, rest, rfl, hline⟩ := List.eq_append_cons_of_mem hfeed
        refine append line rest hline (ih rest.length ?_ rest rfl)
        rw [List.length_append, List.length_cons]
        omega
      · rcases cs.eq_nil_or_concat with rfl | ⟨_, _, rfl⟩
        · exact nil
        · exact alone _ hfeed (by simp)

theorem lines_flatMap {ls : List (List β)} (h : ∀ l ∈ ls, feed ∉ l) : lines feed (ls.flatMap (· ++ [feed])) = ls := by
  induction ls with
  | nil => exact lines_nil feed
  | cons line ls ih =>
      rw [List.flatMap_cons, List.append_assoc]
      exact (lines_append (h line List.mem_cons_self) _).trans
        (congrArg (line :: ·) (ih fun l hl => h l (List.mem_cons_of_mem _ hl)))

/-- Lines put together with line feeds between them are found again, up to an empty last one. -/
theorem lines_intercalate {ls : List (List β)} (h : ∀ l ∈ ls, feed ∉ l) :
    lines feed ([feed].intercalate ls) = ls ∨ ls = lines feed ([feed].intercalate ls) ++ [[]] := by
  induction ls with
  | nil => exact .inl (lines_nil feed)
  | cons line ls ih =>
      have hline := h line List.mem_cons_self
      cases ls with
      | nil =>
          rw [List.intercalate_singleton]
          by_cases hne : line = []
          · rw [hne, lines_nil]
            exact .inr rfl
          · exact .inl (lines_of_notMem hline hne)
      | cons next ls =>
          have hrest : lines feed ([feed].intercalate (line :: next :: ls)) =
              line :: lines feed ([feed].intercalate (next :: ls)) := by
            rw [List.intercalate_cons_cons, List.append_assoc]
            exact lines_append hline _
          rw [hrest]
          exact (ih fun l hl => h l (List.mem_cons_of_mem _ hl)).imp (congrArg (line :: ·)) (congrArg (line :: ·))

end

/-! ## Bytes -/

/-- The bytes of a text. -/
def utf8 (cs : List Char) : List UInt8 := cs.flatMap String.utf8EncodeChar

theorem utf8_append (cs ds : List Char) : utf8 (cs ++ ds) = utf8 cs ++ utf8 ds := List.flatMap_append

theorem utf8EncodeChar_of_lt {c : Char} (h : c.toNat < 128) : String.utf8EncodeChar c = [UInt8.ofNat c.toNat] :=
  if_pos (Nat.le_of_lt_succ h)

/-- Every byte of a longer form has its eighth bit. -/
theorem le_toNat_of_mem_utf8EncodeChar {c : Char} (h : ¬ c.toNat < 128) {b : UInt8}
    (hb : b ∈ String.utf8EncodeChar c) : 128 ≤ b.toNat := by
  have hlong : ¬ c.val.toNat ≤ 127 := fun hle => h (Nat.lt_succ_of_le hle)
  unfold String.utf8EncodeChar at hb
  dsimp only at hb
  rw [if_neg hlong] at hb
  split at hb
  · simp only [List.mem_cons, List.not_mem_nil, or_false] at hb
    rcases hb with rfl | rfl <;> rw [UInt8.toNat_ofNat'] <;> omega
  · split at hb
    · simp only [List.mem_cons, List.not_mem_nil, or_false] at hb
      rcases hb with rfl | rfl | rfl <;> rw [UInt8.toNat_ofNat'] <;> omega
    · simp only [List.mem_cons, List.not_mem_nil, or_false] at hb
      rcases hb with rfl | rfl | rfl | rfl <;> rw [UInt8.toNat_ofNat'] <;> omega

/-- A byte of seven bits is a character of its own. -/
theorem mem_utf8EncodeChar_iff {a c : Char} (ha : a.toNat < 128) :
    UInt8.ofNat a.toNat ∈ String.utf8EncodeChar c ↔ c = a := by
  constructor
  · intro h
    have hbyte : (UInt8.ofNat a.toNat).toNat = a.toNat := by
      rw [UInt8.toNat_ofNat', Nat.mod_eq_of_lt (Nat.lt_trans ha (by decide))]
    by_cases hc : c.toNat < 128
    · rw [utf8EncodeChar_of_lt hc, List.mem_singleton] at h
      have hsame := congrArg UInt8.toNat h
      rw [hbyte, UInt8.toNat_ofNat', Nat.mod_eq_of_lt (Nat.lt_trans hc (by decide))] at hsame
      exact Char.toNat_inj.mp hsame.symm
    · have hlarge := le_toNat_of_mem_utf8EncodeChar hc h
      omega
  · rintro rfl
    rw [utf8EncodeChar_of_lt ha]
    exact List.mem_singleton_self _

theorem mem_utf8_iff {a : Char} (ha : a.toNat < 128) {cs : List Char} : UInt8.ofNat a.toNat ∈ utf8 cs ↔ a ∈ cs := by
  rw [utf8, List.mem_flatMap]
  constructor
  · rintro ⟨c, hc, hmem⟩
    exact (mem_utf8EncodeChar_iff ha).mp hmem ▸ hc
  · exact fun h => ⟨a, h, (mem_utf8EncodeChar_iff ha).mpr rfl⟩

theorem utf8_ne_nil {cs : List Char} (h : cs ≠ []) : utf8 cs ≠ [] := by
  obtain ⟨c, rest, rfl⟩ := List.exists_cons_of_ne_nil h
  refine List.append_ne_nil_of_left_ne_nil (List.ne_nil_of_length_pos ?_) _
  rw [String.length_utf8EncodeChar]
  exact c.utf8Size_pos

theorem lines_utf8 (cs : List Char) : lines 10 (utf8 cs) = (lines '\n' cs).map utf8 := by
  have hfeed {line : List Char} (h : '\n' ∉ line) : 10 ∉ utf8 line := mt (mem_utf8_iff (a := '\n') (by decide)).mp h
  induction cs using lines_induction '\n' with
  | nil => rw [utf8, List.flatMap_nil, lines_nil, lines_nil, List.map_nil]
  | alone line h hne =>
      rw [lines_of_notMem h hne, lines_of_notMem (hfeed h) (utf8_ne_nil hne), List.map_singleton]
  | append line rest h ih =>
      have hbytes : utf8 (line ++ '\n' :: rest) = utf8 line ++ 10 :: utf8 rest := utf8_append line ('\n' :: rest)
      rw [hbytes, lines_append (hfeed h), lines_append h, ih, List.map_cons]

theorem dropReturn_utf8 (line : List Char) : dropReturn 13 (utf8 line) = utf8 (dropReturn '\r' line) := by
  rcases line.eq_nil_or_concat' with rfl | ⟨line, c, rfl⟩
  · rfl
  rw [utf8_append]
  by_cases hc : c = '\r'
  · have hbyte : utf8 ['\r'] = [13] := rfl
    rw [hc, hbyte, dropReturn_concat, dropReturn_concat]
    rfl
  · obtain ⟨bytes, b, hbytes⟩ := (utf8 [c]).eq_nil_or_concat'.resolve_left (utf8_ne_nil (List.cons_ne_nil c []))
    have hb : b ≠ 13 := by
      rintro rfl
      have hmem : 13 ∈ utf8 [c] := hbytes ▸ List.mem_concat_self
      have hreturn : '\r' ∈ [c] := (mem_utf8_iff (a := '\r') (by decide)).mp hmem
      exact hc (List.mem_singleton.mp hreturn).symm
    rw [dropReturn_concat, if_neg (by simpa using hc), hbytes, ← List.append_assoc, dropReturn_concat,
      if_neg (by simpa using hb), List.append_assoc, ← hbytes, utf8_append]

end Pacing.Text

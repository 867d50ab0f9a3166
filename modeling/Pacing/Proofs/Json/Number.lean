import Pacing.Json.Token

/-!
# JSON numbers read back

What is read as a number consists of the characters of numbers alone, and integers that fit a word are read back from
their digits. Whether a double is read back from its text depends on the double: a text with more digits than a word
holds exactly may be read as a neighbour.
-/

namespace Pacing.Json.Number

/-- The number is read from its own text. -/
def ReadsBack (n : Number) : Prop := ofText? n.text = some n

instance (n : Number) : Decidable n.ReadsBack := inferInstanceAs (Decidable (_ = _))

/-! ## Digits -/

section

variable {cs ds rest : List Char}

/-- A run of characters ends before the first one that is not of its kind. -/
theorem takeWhile_append_of_stop {isPart : Char → Bool} (hds : ∀ c ∈ ds, isPart c = true)
    (hrest : ∀ c ∈ rest.head?, isPart c = false) :
    (ds ++ rest).takeWhile isPart = ds ∧ (ds ++ rest).dropWhile isPart = rest := by
  have hstop : rest.takeWhile isPart = [] ∧ rest.dropWhile isPart = rest := by
    cases rest with
    | nil => exact ⟨rfl, rfl⟩
    | cons c rest =>
        have hc : ¬ isPart c = true := by simpa using hrest c rfl
        exact ⟨List.takeWhile_cons_of_neg hc, List.dropWhile_cons_of_neg hc⟩
  rw [List.takeWhile_append_of_pos hds, List.dropWhile_append_of_pos hds, hstop.1, hstop.2, List.append_nil]
  exact ⟨rfl, rfl⟩

theorem someDigits?_append (hne : ds ≠ []) (hds : ∀ c ∈ ds, c.isDigit = true)
    (hrest : ∀ c ∈ rest.head?, c.isDigit = false) : someDigits? (ds ++ rest) = some (ds, rest) := by
  obtain ⟨htake, hdrop⟩ := takeWhile_append_of_stop hds hrest
  unfold someDigits?
  dsimp only
  rw [htake, hdrop, if_neg (by simpa using hne)]

theorem someDigits?_eq_some (h : someDigits? cs = some (ds, rest)) :
    cs = ds ++ rest ∧ ds ≠ [] ∧ ∀ c ∈ ds, c.isDigit = true := by
  unfold someDigits? at h
  dsimp only at h
  split at h
  · cases h
  · rename_i hne
    obtain ⟨rfl, rfl⟩ := Prod.mk.inj (Option.some.inj h)
    refine ⟨List.takeWhile_append_dropWhile.symm, by simpa using hne, fun c hc => ?_⟩
    exact List.all_eq_true.mp List.all_takeWhile c hc

end

theorem le_ofDigitChars (cs : List Char) (word : Nat) : word ≤ Nat.ofDigitChars 10 cs word := by
  induction cs generalizing word with
  | nil => exact Nat.le_of_eq Nat.ofDigitChars_nil.symm
  | cons c cs ih =>
      rw [Nat.ofDigitChars_cons]
      have hrest := ih (10 * word + (c.toNat - '0'.toNat))
      omega

/-- As long as they fit a word, digits make the number that they stand for. -/
theorem takeDigits_eq {word : Nat} {cs : List Char} (h : Nat.ofDigitChars 10 cs word ≤ maxWord) :
    takeDigits word cs = (Nat.ofDigitChars 10 cs word, 0) := by
  induction cs generalizing word with
  | nil => rw [takeDigits, Nat.ofDigitChars_nil]
  | cons c cs ih =>
      have hlonger : word * 10 + digitValue c = 10 * word + (c.toNat - '0'.toNat) := by
        rw [digitValue, Nat.mul_comm]
      rw [Nat.ofDigitChars_cons] at h ⊢
      have hle := le_ofDigitChars cs (10 * word + (c.toNat - '0'.toNat))
      rw [takeDigits, hlonger, if_neg (by omega), ih h]

theorem isDigit_of_mem_digits {n : Nat} {c : Char} (h : c ∈ Decimal.digits n) : c.isDigit = true :=
  Nat.isDigit_of_mem_toDigits (by decide) (by decide) h

/-- Only zero has a leading zero. -/
theorem head?_digits {n : Nat} (h : 0 < n) : (Decimal.digits n).head? ≠ some '0' := by
  have hdigit : ∀ n < 10, 0 < n → some n.digitChar ≠ some '0' := by decide
  induction n using Nat.strongRecOn with
  | ind n ih =>
      unfold Decimal.digits at ih ⊢
      rw [Nat.toDigits_eq_if (by decide)]
      split
      · rename_i hsmall
        exact hdigit n hsmall h
      · rename_i hlarge
        have hhead := ih (n / 10) (by omega) (by omega)
        obtain ⟨c, cs, hcs⟩ := List.exists_cons_of_ne_nil (Nat.toDigits_ne_nil (n := n / 10) (b := 10))
        rw [hcs] at hhead ⊢
        exact hhead

/-! ## Pieces of a number -/

namespace Pieces

def fractionText : Option (List Char) → List Char
  | none => []
  | some ds => '.' :: ds

def exponentText : Option (Bool × List Char) → List Char
  | none => []
  | some (minus, ds) => 'e' :: (if minus then '-' else '+') :: ds

/-- The text with these pieces. -/
def text (p : Pieces) : List Char :=
  (if p.minus then ['-'] else []) ++ (p.whole ++ (fractionText p.fraction ++ exponentText p.exponent))

/-- The pieces are made of digits, and none is empty. The whole part has no leading zero. -/
structure Regular (p : Pieces) : Prop where
  whole_ne_nil : p.whole ≠ []
  whole : ∀ c ∈ p.whole, c.isDigit = true
  leading : p.whole.head? = some '0' → p.whole = ['0']
  fraction : ∀ ds ∈ p.fraction, ds ≠ [] ∧ ∀ c ∈ ds, c.isDigit = true
  exponent : ∀ e ∈ p.exponent, e.2 ≠ [] ∧ ∀ c ∈ e.2, c.isDigit = true

variable {p : Pieces}

theorem exponent?_text (h : p.Regular) : exponent? (exponentText p.exponent) = some p.exponent := by
  cases he : p.exponent with
  | none => rfl
  | some e =>
      obtain ⟨minus, ds⟩ := e
      obtain ⟨hne, hds⟩ := h.exponent _ he
      have hread : someDigits? (ds ++ []) = some (ds, []) := someDigits?_append hne hds nofun
      rw [List.append_nil] at hread
      cases minus <;> simp [exponentText, exponent?, sign, hread]

theorem fraction?_text (h : p.Regular) :
    fraction? (fractionText p.fraction ++ exponentText p.exponent) = some (p.fraction, exponentText p.exponent) := by
  cases hf : p.fraction with
  | none => cases p.exponent <;> rfl
  | some ds =>
      obtain ⟨hne, hds⟩ := h.fraction ds hf
      have hread : someDigits? (ds ++ exponentText p.exponent) = some (ds, exponentText p.exponent) :=
        someDigits?_append hne hds (by cases p.exponent <;> simp [exponentText])
      simp [fractionText, fraction?, hread]

theorem someDigits?_text (h : p.Regular) :
    someDigits? (p.whole ++ (fractionText p.fraction ++ exponentText p.exponent)) =
      some (p.whole, fractionText p.fraction ++ exponentText p.exponent) := by
  refine someDigits?_append h.whole_ne_nil h.whole ?_
  cases p.fraction <;> cases p.exponent <;> simp [fractionText, exponentText]

theorem ofText?_minus (cs : List Char) : ofText? ('-' :: cs) = unsigned? true cs := rfl

theorem ofText?_of_head? {cs : List Char} (h : cs.head? ≠ some '-') : ofText? cs = unsigned? false cs := by
  unfold ofText?
  split
  · exact absurd rfl h
  · rfl

theorem unsigned?_text (h : p.Regular) :
    unsigned? p.minus (p.whole ++ (fractionText p.fraction ++ exponentText p.exponent)) = some p := by
  have hleading : (p.whole.head? == some '0' && 1 < p.whole.length) = false := by
    cases hzero : p.whole.head? == some '0' with
    | false => rfl
    | true =>
        rw [h.leading (eq_of_beq hzero)]
        rfl
  rw [unsigned?, someDigits?_text h]
  simp only [Option.bind_eq_bind, Option.bind_some, hleading, Bool.false_eq_true, if_false, fraction?_text h,
    exponent?_text h, pure]

theorem ofText?_text (h : p.Regular) : ofText? p.text = some p := by
  have hread := unsigned?_text h
  cases hminus : p.minus with
  | true =>
      rw [hminus] at hread
      rw [text, hminus]
      exact (ofText?_minus _).trans hread
  | false =>
      have hhead : (p.whole ++ (fractionText p.fraction ++ exponentText p.exponent)).head? ≠ some '-' := by
        obtain ⟨c, cs, hcs⟩ := List.exists_cons_of_ne_nil h.whole_ne_nil
        rw [hcs, List.cons_append, List.head?_cons, ne_eq, Option.some.injEq]
        rintro rfl
        exact absurd (h.whole '-' (hcs ▸ List.mem_cons_self)) (by decide)
      rw [hminus] at hread
      rw [text, hminus]
      exact (ofText?_of_head? hhead).trans hread

end Pieces

/-! ## Words -/

theorem readsBack_natural {n : Nat} (h : n ≤ maxWord) : (natural n).ReadsBack := by
  have hvalue : Nat.ofDigitChars 10 (Decimal.digits n) 0 = n := Nat.ofDigitChars_ten_toDigits
  have hword : takeDigits 0 (Decimal.digits n) = (n, 0) := by
    rw [takeDigits_eq (Nat.le_trans (Nat.le_of_eq hvalue) h), hvalue]
  have hregular : Pieces.Regular ⟨false, Decimal.digits n, none, none⟩ := by
    refine ⟨Nat.toDigits_ne_nil, fun c => isDigit_of_mem_digits, fun hzero => ?_, nofun, nofun⟩
    rcases Nat.eq_zero_or_pos n with rfl | hpos
    · rfl
    · exact absurd hzero (head?_digits hpos)
  have hpieces : Pieces.ofText? (Decimal.digits n) = some ⟨false, Decimal.digits n, none, none⟩ := by
    have hread := Pieces.ofText?_text hregular
    unfold Pieces.text at hread
    simpa [Pieces.fractionText, Pieces.exponentText] using hread
  have hinteger : Pieces.integer? ⟨false, Decimal.digits n, none, none⟩ = some (natural n) := by
    simp [Pieces.integer?, hword]
  unfold ReadsBack ofText? text
  rw [hpieces]
  simp [hinteger]

/-! ## Characters of numbers -/

section

variable {cs rest : List Char}

theorem isNumeric_of_isDigit {c : Char} (h : c.isDigit = true) : Token.isNumeric c = true := by
  simp [Token.isNumeric, h]

theorem fraction?_eq_some {f : Option (List Char)} (h : fraction? cs = some (f, rest)) :
    ∃ point, cs = point ++ rest ∧ ∀ c ∈ point, Token.isNumeric c = true := by
  unfold fraction? at h
  split at h
  · rename_i cs
    obtain ⟨⟨ds, rest'⟩, hds, heq⟩ := Option.map_eq_some_iff.mp h
    obtain ⟨rfl, rfl⟩ := Prod.mk.inj heq
    obtain ⟨rfl, -, hdigits⟩ := someDigits?_eq_some hds
    refine ⟨'.' :: ds, rfl, fun c hc => ?_⟩
    rcases List.mem_cons.mp hc with rfl | hc
    · rfl
    · exact isNumeric_of_isDigit (hdigits c hc)
  · obtain ⟨-, rfl⟩ := Prod.mk.inj (Option.some.inj h)
    exact ⟨[], rfl, nofun⟩

theorem sign_eq (cs : List Char) : ∃ mark, cs = mark ++ (sign cs).2 ∧ ∀ c ∈ mark, Token.isNumeric c = true := by
  unfold sign
  split
  · exact ⟨['-'], rfl, List.forall_mem_singleton.mpr rfl⟩
  · exact ⟨['+'], rfl, List.forall_mem_singleton.mpr rfl⟩
  · exact ⟨[], rfl, nofun⟩

theorem isNumeric_of_exponent? {e : Option (Bool × List Char)} (h : exponent? cs = some e) :
    ∀ c ∈ cs, Token.isNumeric c = true := by
  cases cs with
  | nil => nofun
  | cons c cs =>
      by_cases hmark : (c == 'e' || c == 'E') = true
      · rw [exponent?, if_pos hmark] at h
        obtain ⟨mark, hcs, hmarks⟩ := sign_eq cs
        generalize sign cs = signed at h hcs
        split at h
        rename_i minus rest
        split at h
        · rename_i ds hds
          obtain ⟨hrest, -, hdigits⟩ := someDigits?_eq_some hds
          dsimp only at hcs
          rw [hcs, hrest, List.append_nil]
          intro d hd
          rcases List.mem_cons.mp hd with rfl | hd
          · rw [Bool.or_eq_true, beq_iff_eq, beq_iff_eq] at hmark
            rcases hmark with rfl | rfl <;> rfl
          · rcases List.mem_append.mp hd with hd | hd
            · exact hmarks d hd
            · exact isNumeric_of_isDigit (hdigits d hd)
        · cases h
      · rw [exponent?, if_neg hmark] at h
        cases h

/-- A text without other characters, and not the empty one. -/
def Numeric (cs : List Char) : Prop := cs ≠ [] ∧ ∀ c ∈ cs, Token.isNumeric c = true

theorem numeric_of_unsigned? {minus : Bool} {p : Pieces} (h : Pieces.unsigned? minus cs = some p) : Numeric cs := by
  unfold Pieces.unsigned? at h
  obtain ⟨⟨whole, afterWhole⟩, hwhole, hrest⟩ := Option.bind_eq_some_iff.mp h
  obtain ⟨rfl, hne, hdigits⟩ := someDigits?_eq_some hwhole
  dsimp only at hrest
  split at hrest
  · cases hrest
  · obtain ⟨⟨fraction, afterPoint⟩, hfraction, hlast⟩ := Option.bind_eq_some_iff.mp hrest
    obtain ⟨point, rfl, hpoint⟩ := fraction?_eq_some hfraction
    obtain ⟨exponent, hexponent, -⟩ := Option.bind_eq_some_iff.mp hlast
    refine ⟨List.append_ne_nil_of_left_ne_nil hne _, fun c hc => ?_⟩
    rcases List.mem_append.mp hc with hc | hc
    · exact isNumeric_of_isDigit (hdigits c hc)
    · rcases List.mem_append.mp hc with hc | hc
      · exact hpoint c hc
      · exact isNumeric_of_exponent? hexponent c hc

theorem numeric_of_ofText? {n : Number} (h : ofText? cs = some n) : Numeric cs := by
  obtain ⟨p, hp, -⟩ := Option.bind_eq_some_iff.mp h
  by_cases hminus : cs.head? = some '-'
  · obtain ⟨rest, rfl⟩ := List.head?_eq_some_iff.mp hminus
    obtain ⟨-, hrest⟩ := numeric_of_unsigned? hp
    refine ⟨List.cons_ne_nil _ _, fun c hc => ?_⟩
    rcases List.mem_cons.mp hc with rfl | hc
    · rfl
    · exact hrest c hc
  · rw [Pieces.ofText?_of_head? hminus] at hp
    exact numeric_of_unsigned? hp

end

end Pacing.Json.Number

import Pacing.Json.Reader
import Pacing.Proofs.Json.Number

/-!
# Tokens read off their texts

The characters of a string are found again behind their escapes, and a number ends where the next character is none
of a number. So the text of a value is split into the tokens of the value, and it is one line, since no line feed
stands in a string unescaped.
-/

namespace Pacing.Json

namespace Token

/-! ## Strings -/

section

variable {c : Char} {cs rest : List Char}

theorem stringBody?_quote (rest : List Char) : stringBody? ('"' :: rest) = some ([], rest) := by
  rw [stringBody?]
  rfl

theorem stringBody?_escape (h : escape? cs = some (c, rest)) :
    stringBody? ('\\' :: cs) = (stringBody? rest).map fun (s, after) => (c :: s, after) := by
  rw [stringBody?, if_neg (by decide), if_pos (by decide)]
  split
  · rename_i e rest' he
    obtain ⟨rfl, rfl⟩ := Prod.mk.inj (Option.some.inj (h.symm.trans he))
    rfl
  · rename_i he
    rw [h] at he
    cases he

theorem stringBody?_plain (hquote : c ≠ '"') (hslash : c ≠ '\\') (hcontrol : ¬ c.toNat < 32) :
    stringBody? (c :: cs) = (stringBody? cs).map fun (s, after) => (c :: s, after) := by
  rw [stringBody?, if_neg (by simpa using hquote), if_neg (by simpa using hslash), if_neg hcontrol]

theorem hexDigit?_digitChar : ∀ n < 16, Text.hexDigit? (Nat.digitChar n) = some n := by decide

theorem hex4?_hexPair {n : Nat} (h : n < 256) (rest : List Char) :
    hex4? ('0' :: '0' :: (hexPair n ++ rest)) = some (n, rest) := by
  have hzero := hexDigit?_digitChar 0 (by decide)
  have hhigh := hexDigit?_digitChar (n / 16) (by omega)
  have hlow := hexDigit?_digitChar (n % 16) (by omega)
  have hsum : ((0 * 16 + 0) * 16 + n / 16) * 16 + n % 16 = n := by omega
  change hex4? (Nat.digitChar 0 :: Nat.digitChar 0 :: Nat.digitChar (n / 16) :: Nat.digitChar (n % 16) :: rest) = _
  simp only [hex4?, hzero, hhigh, hlow, Option.bind_eq_bind, Option.bind_some, pure, hsum]

theorem escape?_hexPair (h : c.toNat < 32) (rest : List Char) :
    escape? ('u' :: '0' :: '0' :: (hexPair c.toNat ++ rest)) = some (c, rest) := by
  have htrailing : isTrailing c.toNat = false := by
    simp [isTrailing]
    omega
  have hleading : isLeading c.toNat = false := by
    simp [isLeading]
    omega
  rw [escape?, if_pos (by decide), hex4?_hexPair (by omega)]
  simp [htrailing, hleading]

/-- An escape stands for the character that it was made from. -/
theorem stringBody?_escaped (c : Char) (rest : List Char) :
    stringBody? (escaped c ++ rest) = (stringBody? rest).map fun (s, after) => (c :: s, after) := by
  unfold escaped
  split
  · exact stringBody?_escape rfl
  · exact stringBody?_escape rfl
  · exact stringBody?_escape rfl
  · exact stringBody?_escape rfl
  · exact stringBody?_escape rfl
  · rename_i hquote hslash hfeed hreturn htab
    split
    · rename_i hcode
      obtain rfl : c = '\x08' := Char.toNat_inj.mp hcode
      exact stringBody?_escape rfl
    · split
      · rename_i hcode
        obtain rfl : c = '\x0c' := Char.toNat_inj.mp hcode
        exact stringBody?_escape rfl
      · split
        · rename_i hcontrol
          exact stringBody?_escape (escape?_hexPair hcontrol rest)
        · rename_i hcontrol
          exact stringBody?_plain hquote hslash hcontrol

theorem stringBody?_flatMap_escaped (s rest : List Char) :
    stringBody? (s.flatMap escaped ++ '"' :: rest) = some (s, rest) := by
  induction s with
  | nil => exact stringBody?_quote rest
  | cons c s ih => rw [List.flatMap_cons, List.append_assoc, stringBody?_escaped, ih, Option.map_some]

end

/-! ## Texts -/

section

variable {c : Char} {cs rest : List Char} {t : Token}

theorem scan?_cons (hspace : isSpace c = false) (h : next? (c :: cs) = some (t, rest)) :
    scan? (c :: cs) = (scan? rest).map (t :: ·) := by
  rw [scan?, if_neg (by simp [hspace])]
  split
  · rename_i t' rest' hnext
    obtain ⟨rfl, rfl⟩ := Prod.mk.inj (Option.some.inj (h.symm.trans hnext))
    rfl
  · rename_i hnext
    rw [h] at hnext
    cases hnext

theorem scan?_quoted (s rest : List Char) : scan? (quoted s ++ rest) = (scan? rest).map (string s :: ·) := by
  have hbody : stringBody? ((s.flatMap escaped ++ ['"']) ++ rest) = some (s, rest) := by
    rw [List.append_assoc]
    exact stringBody?_flatMap_escaped s rest
  refine scan?_cons rfl ?_
  change Option.map _ (stringBody? ((s.flatMap escaped ++ ['"']) ++ rest)) = _
  rw [hbody]
  rfl

theorem plain_of_isNumeric (h : isNumeric c = true) : isSpace c = false ∧ ofChar? c = none ∧ (c == '"') = false := by
  have hother (d : Char) (hd : isNumeric d = false) : (c == d) = false := by
    rw [beq_eq_false_iff_ne]
    rintro rfl
    rw [h] at hd
    cases hd
  refine ⟨?_, ?_, hother '"' rfl⟩
  · simp (disch := decide) only [isSpace, hother, Bool.or_false]
  · simp (disch := decide) only [ofChar?, hother, Bool.false_eq_true, if_false]

theorem scan?_number {n : Number} (h : n.ReadsBack) (hrest : ∀ c ∈ rest.head?, isNumeric c = false) :
    scan? (n.text ++ rest) = (scan? rest).map (number n :: ·) := by
  obtain ⟨hne, hnumeric⟩ := Number.numeric_of_ofText? h
  obtain ⟨htake, hdrop⟩ := Number.takeWhile_append_of_stop hnumeric hrest
  obtain ⟨c, cs, hcs⟩ := List.exists_cons_of_ne_nil hne
  have hc : isNumeric c = true := hnumeric c (hcs ▸ List.mem_cons_self)
  obtain ⟨hspace, hchar, hquote⟩ := plain_of_isNumeric hc
  have hnumber : number? (n.text ++ rest) = some (number n, rest) := by
    unfold number?
    rw [htake, hdrop]
    split
    · contradiction
    · rw [h]
      rfl
  rw [hcs, List.cons_append] at hnumber ⊢
  refine scan?_cons hspace ?_
  rw [next?, hchar]
  simp [hquote, hc, hnumber]

end

end Token

/-! ## Values -/

mutual

/-- The tokens of a value. -/
def tokens : Json → List Token
  | null => [.null]
  | bool b => [.bool b]
  | number n => [.number n]
  | string s => [.string s]
  | array items => .arrayOpen :: (itemTokens items ++ [.arrayClose])
  | object fields => .objectOpen :: (fieldTokens fields ++ [.objectClose])

def itemTokens : List Json → List Token
  | [] => []
  | [v] => v.tokens
  | v :: w :: vs => v.tokens ++ .comma :: itemTokens (w :: vs)

def fieldTokens : List (List Char × Json) → List Token
  | [] => []
  | [(k, v)] => .string k :: .colon :: v.tokens
  | (k, v) :: f :: fs => .string k :: .colon :: (v.tokens ++ .comma :: fieldTokens (f :: fs))

end

/-- What follows a value does not go on with a number that it ends with. -/
def Delimited (rest : List Char) : Prop := ∀ c ∈ rest.head?, Token.isNumeric c = false

/-- A text of one line that is split into these tokens, whatever follows. -/
structure Spells (cs : List Char) (ts : List Token) : Prop where
  scan : ∀ rest, Delimited rest → Token.scan? (cs ++ rest) = (Token.scan? rest).map (ts ++ ·)
  oneLine : '\n' ∉ cs

theorem feed_notMem_escaped (c : Char) : '\n' ∉ escaped c := by
  have hdigit : ∀ n < 16, Nat.digitChar n ≠ '\n' := by decide
  unfold escaped
  split
  · decide
  · decide
  · decide
  · decide
  · decide
  · rename_i hfeed _ _
    split
    · decide
    · split
      · decide
      · split
        · rename_i hcontrol
          have hhigh := hdigit (c.toNat / 16) (by omega)
          have hlow := hdigit (c.toNat % 16) (by omega)
          simp [hexPair, hhigh.symm, hlow.symm]
        · simpa using Ne.symm hfeed

theorem feed_notMem_quoted (s : List Char) : '\n' ∉ quoted s := by
  have hbody : '\n' ∉ s.flatMap escaped := by
    rw [List.mem_flatMap]
    rintro ⟨c, -, hc⟩
    exact feed_notMem_escaped c hc
  simp [quoted, hbody]

namespace Spells

variable {cs cs' : List Char} {ts ts' : List Token} {c : Char} {t : Token}

theorem nil : Spells [] [] := ⟨fun _ _ => Option.map_id'.symm, List.not_mem_nil⟩

theorem append (h : Spells cs ts) (h' : Spells (c :: cs') ts') (hc : Token.isNumeric c = false) :
    Spells (cs ++ c :: cs') (ts ++ ts') := by
  refine ⟨fun rest hrest => ?_, by simpa [h.oneLine] using h'.oneLine⟩
  rw [List.append_assoc, h.scan _ (by simpa [Delimited] using hc), h'.scan rest hrest, Option.map_map]
  simp only [Function.comp_def, List.append_assoc]

theorem cons (hspace : Token.isSpace c = false) (hchar : Token.ofChar? c = some t) (h : Spells cs ts) :
    Spells (c :: cs) (t :: ts) := by
  refine ⟨fun rest hrest => ?_, fun hmem => ?_⟩
  · have hnext : Token.next? (c :: (cs ++ rest)) = some (t, cs ++ rest) := by rw [Token.next?, hchar]
    rw [List.cons_append, Token.scan?_cons hspace hnext, h.scan rest hrest, Option.map_map]
    rfl
  · rcases List.mem_cons.mp hmem with rfl | hmem
    · cases hspace
    · exact h.oneLine hmem

theorem number {n : Number} (h : n.ReadsBack) : Spells n.text [.number n] := by
  refine ⟨fun rest hrest => Token.scan?_number h hrest, fun hmem => ?_⟩
  have hnumeric := (Number.numeric_of_ofText? h).2 _ hmem
  cases hnumeric

theorem quoted_append (s : List Char) (h : Spells cs ts) : Spells (quoted s ++ cs) (.string s :: ts) := by
  refine ⟨fun rest hrest => ?_, by simp [feed_notMem_quoted, h.oneLine]⟩
  rw [List.append_assoc, Token.scan?_quoted, h.scan rest hrest, Option.map_map]
  rfl

theorem quoted (s : List Char) : Spells (quoted s) [.string s] :=
  ⟨fun rest _ => Token.scan?_quoted s rest, feed_notMem_quoted s⟩

end Spells

mutual

/-- A value's text spells its tokens. -/
theorem spells_text : (v : Json) → (∀ n, .number n ∈ v.tokens → n.ReadsBack) → Spells v.text v.tokens
  | .null, _ => ⟨fun _ _ => Token.scan?_cons rfl rfl, by decide⟩
  | .bool true, _ => ⟨fun _ _ => Token.scan?_cons rfl rfl, by decide⟩
  | .bool false, _ => ⟨fun _ _ => Token.scan?_cons rfl rfl, by decide⟩
  | .number n, h => .number (h n List.mem_cons_self)
  | .string s, _ => .quoted s
  | .array items, h => by
      have hitems : Spells (commaSeparated (itemTexts items)) (itemTokens items) :=
        spells_itemTexts items fun n hn => h n (by simp [tokens, hn])
      exact .cons rfl rfl (hitems.append (.cons rfl rfl .nil) rfl)
  | .object fields, h => by
      have hfields : Spells (commaSeparated (fieldTexts fields)) (fieldTokens fields) :=
        spells_fieldTexts fields fun n hn => h n (by simp [tokens, hn])
      exact .cons rfl rfl (hfields.append (.cons rfl rfl .nil) rfl)

theorem spells_itemTexts : (vs : List Json) → (∀ n, .number n ∈ itemTokens vs → n.ReadsBack) →
    Spells (commaSeparated (itemTexts vs)) (itemTokens vs)
  | [], _ => .nil
  | [v], h => spells_text v h
  | v :: w :: vs, h => by
      have hv : Spells v.text v.tokens := spells_text v fun n hn => h n (by simp [itemTokens, hn])
      have hvs : Spells (commaSeparated (itemTexts (w :: vs))) (itemTokens (w :: vs)) :=
        spells_itemTexts (w :: vs) fun n hn => h n (by simp [itemTokens, hn])
      exact hv.append (.cons rfl rfl hvs) rfl

theorem spells_fieldTexts : (fs : List (List Char × Json)) → (∀ n, .number n ∈ fieldTokens fs → n.ReadsBack) →
    Spells (commaSeparated (fieldTexts fs)) (fieldTokens fs)
  | [], _ => .nil
  | [(k, v)], h => by
      have hv : Spells v.text v.tokens := spells_text v fun n hn => h n (by simp [fieldTokens, hn])
      exact .quoted_append k (.cons rfl rfl hv)
  | (k, v) :: f :: fs, h => by
      have hv : Spells v.text v.tokens := spells_text v fun n hn => h n (by simp [fieldTokens, hn])
      have hfs : Spells (commaSeparated (fieldTexts (f :: fs))) (fieldTokens (f :: fs)) :=
        spells_fieldTexts (f :: fs) fun n hn => h n (by simp [fieldTokens, hn])
      have hmore : Spells (v.text ++ ',' :: commaSeparated (fieldTexts (f :: fs)))
          (v.tokens ++ .comma :: fieldTokens (f :: fs)) := hv.append (.cons rfl rfl hfs) rfl
      have hfield := Spells.quoted_append k (Spells.cons (c := ':') (t := .colon) rfl rfl hmore)
      simpa [fieldTexts, commaSeparated, fieldTokens] using hfield

end

end Pacing.Json

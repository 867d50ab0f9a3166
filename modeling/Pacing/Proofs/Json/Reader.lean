import Pacing.Proofs.Json.Token

/-!
# JSON values read back

A value is read off its own tokens, whatever is open around it, as long as it does not nest too deep. So a text that
was written from a value is read as that value, if its numbers are.
-/

namespace Pacing.Json

/-! ## Depth -/

mutual

/-- How deep arrays and objects are nested in a value. -/
def depth : Json → Nat
  | array items => itemDepth items + 1
  | object fields => fieldDepth fields + 1
  | _ => 0

def itemDepth : List Json → Nat
  | [] => 0
  | v :: vs => max v.depth (itemDepth vs)

def fieldDepth : List (List Char × Json) → Nat
  | [] => 0
  | (_, v) :: fs => max v.depth (fieldDepth fs)

end

/-! ## Tokens -/

/-- The tokens are taken in one by one, and lead on to what is said. -/
def Reads (p : Progress) (ts : List Token) (q : Progress) : Prop := ts.foldlM Progress.step? p = some q

namespace Reads

variable {p q r : Progress} {t : Token} {ts ts' : List Token}

theorem nil (p : Progress) : Reads p [] p := rfl

theorem cons (hstep : p.step? t = some q) (h : Reads q ts r) : Reads p (t :: ts) r := by
  rw [Reads, List.foldlM_cons, hstep]
  exact h

theorem append (h : Reads p ts q) (h' : Reads q ts' r) : Reads p (ts ++ ts') r := by
  rw [Reads, List.foldlM_append, h]
  exact h'

end Reads

/-- The first item of an array is read as any other: no value begins with the end of an array. -/
theorem reads_arrayStart {v : Json} {vs : List Json} {stack : List Frame} {ts : List Token} {q : Progress}
    (h : Reads (.value (.array [] :: stack)) (itemTokens (v :: vs) ++ ts) q) :
    Reads (.arrayStart stack) (itemTokens (v :: vs) ++ ts) q := by
  cases vs <;> cases v <;> exact h

mutual

/-- A value is read off its tokens. -/
theorem reads_tokens : (v : Json) → (stack : List Frame) → stack.length + v.depth ≤ maxDepth →
    Reads (.value stack) v.tokens (.done stack v)
  | .null, _, _ => rfl
  | .bool _, _, _ => rfl
  | .number _, _, _ => rfl
  | .string _, _, _ => rfl
  | .array items, stack, h => by
      have hopen : Progress.step? (.value stack) .arrayOpen = some (.arrayStart stack) :=
        if_pos (by simp only [depth] at h; omega)
      refine .cons hopen ?_
      match items with
      | [] => rfl
      | v :: vs => exact reads_arrayStart (reads_itemTokens (v :: vs) [] stack (List.cons_ne_nil _ _) h)
  | .object fields, stack, h => by
      have hopen : Progress.step? (.value stack) .objectOpen = some (.objectStart stack) :=
        if_pos (by simp only [depth] at h; omega)
      refine .cons hopen ?_
      match fields with
      | [] => rfl
      | f :: fs => exact reads_fieldTokens (f :: fs) [] stack (List.cons_ne_nil _ _) (fun _ => rfl) h

/-- The items of an array are read off their tokens, after those in `before`, the last of which comes first. -/
theorem reads_itemTokens : (vs before : List Json) → (stack : List Frame) → vs ≠ [] →
    stack.length + (itemDepth vs + 1) ≤ maxDepth →
    Reads (.value (.array before :: stack)) (itemTokens vs ++ [.arrayClose])
      (.done stack (.array (before.reverse ++ vs)))
  | [], _, _, hne, _ => absurd rfl hne
  | [v], before, stack, _, h => by
      have hv := reads_tokens v (.array before :: stack) (by simp only [itemDepth, List.length_cons] at h ⊢; omega)
      refine hv.append (.cons rfl ?_)
      rw [List.reverse_cons]
      exact .nil _
  | v :: w :: vs, before, stack, _, h => by
      have hv := reads_tokens v (.array before :: stack) (by simp only [itemDepth, List.length_cons] at h ⊢; omega)
      have hvs := reads_itemTokens (w :: vs) (v :: before) stack (List.cons_ne_nil _ _)
        (by simp only [itemDepth] at h ⊢; omega)
      rw [List.reverse_cons, List.append_assoc] at hvs
      rw [itemTokens, List.append_assoc]
      exact hv.append (.cons rfl hvs)

/-- The fields of an object are read off their tokens wherever a key may come, after those in `before`, the last of
which comes first. -/
theorem reads_fieldTokens : (fs before : List (List Char × Json)) → (stack : List Frame) → {p : Progress} → fs ≠ [] →
    (∀ k, p.step? (.string k) = some (.colon stack before k)) → stack.length + (fieldDepth fs + 1) ≤ maxDepth →
    Reads p (fieldTokens fs ++ [.objectClose]) (.done stack (.object (before.reverse ++ fs)))
  | [], _, _, _, hne, _, _ => absurd rfl hne
  | [(k, v)], before, stack, _, _, hp, h => by
      have hv := reads_tokens v (.object before k :: stack) (by simp only [fieldDepth, List.length_cons] at h ⊢; omega)
      refine .cons (hp k) (.cons rfl (hv.append (.cons rfl ?_)))
      rw [List.reverse_cons]
      exact .nil _
  | (k, v) :: f :: fs, before, stack, _, _, hp, h => by
      have hv := reads_tokens v (.object before k :: stack) (by simp only [fieldDepth, List.length_cons] at h ⊢; omega)
      have hkey (k' : List Char) : Progress.step? (.key stack ((k, v) :: before)) (.string k') =
          some (.colon stack ((k, v) :: before) k') := rfl
      have hfs := reads_fieldTokens (f :: fs) ((k, v) :: before) stack (List.cons_ne_nil _ _) hkey
        (by simp only [fieldDepth] at h ⊢; omega)
      rw [List.reverse_cons, List.append_assoc] at hfs
      have hrest := hv.append (.cons (t := .comma) rfl hfs)
      rw [← List.cons_append, ← List.append_assoc] at hrest
      exact .cons (hp k) (.cons rfl hrest)

end

/-! ## Texts -/

/-- A value is read from its own text, if its numbers are and it does not nest too deep. -/
theorem ofText?_text {v : Json} (hnumbers : ∀ n, .number n ∈ v.tokens → n.ReadsBack) (hdepth : v.depth ≤ maxDepth) :
    ofText? v.text = some v := by
  have hscan : Token.scan? v.text = some v.tokens := by
    have hends := (spells_text v hnumbers).scan [] nofun
    rwa [List.append_nil, Token.scan?, Option.map_some, List.append_nil] at hends
  have hread : v.tokens.foldlM Progress.step? (.value []) = some (.done [] v) :=
    reads_tokens v [] (by rwa [List.length_nil, Nat.zero_add])
  rw [ofText?, hscan, Option.bind_some, ofTokens?, hread]
  rfl

end Pacing.Json

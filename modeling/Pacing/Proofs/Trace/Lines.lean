import Mathlib.Algebra.GroupWithZero.Nat
import Pacing.Proofs.Text
import Pacing.Trace

/-!
# Traces line by line

What a trace comes to is said by its lines, each for itself: the first that cannot be read is told by its number, and
if there is none, the records come in the order of their lines. So lines without a record and blanks around the
others make no difference, but for the numbers of the lines that come after.
-/

namespace Pacing.Trace

open Text

/-! ## Lines for themselves -/

/-- The record that a line holds. -/
def record? (line : List Char) : Option Record :=
  if isSkipped (trim line) then none else Record.ofText? (trim line)

/-- A line that is not skipped and holds no record either. -/
def isUnreadable (line : List Char) : Bool := !isSkipped (trim line) && (Record.ofText? (trim line)).isNone

/-- The number of the first line that cannot be read, counted from one, or the records of all lines. -/
def verdict (lines : List (List Char)) : Except Fault (List Record) :=
  match lines.findIdx? isUnreadable with
  | some i => .error (.badRecord (i + 1))
  | none => .ok (lines.filterMap record?)

theorem readLine_eq (number : Nat) (line : List Char) :
    readLine number line = if isUnreadable line then .error (.badRecord number) else .ok (record? line) := by
  unfold readLine isUnreadable record?
  dsimp only
  cases isSkipped (trim line) with
  | true => rfl
  | false => cases Record.ofText? (trim line) <;> rfl

theorem readLines_cons (number : Nat) (line : List Char) (rest : List (Option (List Char))) :
    readLines number (some line :: rest) =
      if isUnreadable line then .error (.badRecord number)
      else (readLines (number + 1) rest).map ((record? line).toList ++ ·) := by
  rw [readLines, readLine_eq]
  split
  · rfl
  · cases readLines (number + 1) rest <;> rfl

theorem readLines_eq (number : Nat) (lines : List (List Char)) :
    readLines number (lines.map some) =
      match lines.findIdx? isUnreadable with
      | some i => .error (.badRecord (i + number))
      | none => .ok (lines.filterMap record?) := by
  induction lines generalizing number with
  | nil => rfl
  | cons line lines ih =>
      rw [List.map_cons, readLines_cons, ih, List.findIdx?_cons]
      cases hbad : isUnreadable line with
      | true => simp
      | false =>
          cases lines.findIdx? isUnreadable with
          | some i => simp [Except.map, Nat.add_comm, Nat.add_left_comm]
          | none => cases hrecord : record? line <;> simp [Except.map, hrecord]

theorem readLines_one (lines : List (List Char)) : readLines 1 (lines.map some) = verdict lines := readLines_eq 1 lines

theorem readLine_dropReturn (number : Nat) (line : List Char) :
    readLine number (dropReturn '\r' line) = readLine number line := by
  unfold readLine
  rw [trim_dropReturn]

theorem readLines_dropReturn (number : Nat) (lines : List (List Char)) :
    readLines number (lines.map fun line => some (dropReturn '\r' line)) = readLines number (lines.map some) := by
  induction lines generalizing number with
  | nil => rfl
  | cons line lines ih => rw [List.map_cons, List.map_cons, readLines, readLines, readLine_dropReturn, ih]

/-! ## Lines put together -/

/-- Lines as one text, with a line feed between them, and after the last one if it is ended. -/
def joined (lines : List (List Char)) (ended : Bool) : List Char :=
  if ended then lines.flatMap (· ++ ['\n']) else ['\n'].intercalate lines

theorem verdict_concat_nil (lines : List (List Char)) : verdict (lines ++ [[]]) = verdict lines := by
  have hskipped : isUnreadable [] = false ∧ record? [] = none := ⟨rfl, rfl⟩
  unfold verdict
  rw [List.findIdx?_append, List.filterMap_append]
  cases lines.findIdx? isUnreadable <;> simp [List.findIdx?_cons, hskipped]

theorem ofText_eq (cs : List Char) : ofText cs = verdict (Text.lines '\n' cs) := by
  rw [ofText, readLines_dropReturn, readLines_one]

theorem ofText_joined {lines : List (List Char)} (h : ∀ line ∈ lines, '\n' ∉ line) (ended : Bool) :
    ofText (joined lines ended) = verdict lines := by
  rw [ofText_eq]
  cases ended with
  | true => exact congrArg verdict (lines_flatMap h)
  | false =>
      rcases lines_intercalate h with heq | heq
      · exact congrArg verdict heq
      · rw [heq, verdict_concat_nil, ← heq]
        rfl

theorem decode?_utf8 (cs : List Char) : decode? (utf8 cs) = some cs := by
  have hbytes : (⟨(utf8 cs).toArray⟩ : ByteArray) = cs.utf8Encode := ByteArray.ext List.data_toByteArray.symm
  have hvalid : cs.utf8Encode.IsValidUTF8 := ⟨cs, rfl⟩
  rw [decode?, hbytes, String.fromUTF8?, dif_pos hvalid]
  exact congrArg some String.toList_ofList

/-- A trace is read the same from its bytes. -/
theorem ofBytes_utf8 (cs : List Char) : ofBytes (utf8 cs) = ofText cs := by
  rw [ofBytes, ofText, lines_utf8, List.map_map]
  congr 1
  refine List.map_congr_left fun line _ => ?_
  rw [Function.comp_apply, dropReturn_utf8, decode?_utf8]

/-! ## Blanks and lines without a record -/

/-- What can be put around a line without a change to what it holds. -/
structure Padding where
  /-- Lines before it. -/
  skipped : List (List Char)
  left : List Char
  right : List Char
  /-- It ends in a carriage return and a line feed. -/
  returns : Bool

namespace Padding

/-- The lines are blank or comments, and what stands around the line itself is blank. -/
structure Harmless (p : Padding) : Prop where
  skipped : ∀ line ∈ p.skipped, isSkipped (trim line) = true ∧ '\n' ∉ line
  left : ∀ c ∈ p.left, isBlank c = true ∧ c ≠ '\n'
  right : ∀ c ∈ p.right, isBlank c = true ∧ c ≠ '\n'

def around (p : Padding) (line : List Char) : List Char :=
  p.left ++ line ++ (p.right ++ if p.returns then ['\r'] else [])

variable {p : Padding}

theorem trim_around (h : p.Harmless) (line : List Char) : trim (p.around line) = trim line := by
  have hright : ∀ c ∈ p.right ++ (if p.returns then ['\r'] else []), isBlank c = true := by
    intro c hc
    rcases List.mem_append.mp hc with hc | hc
    · exact (h.right c hc).1
    · split at hc
      · obtain rfl := List.mem_singleton.mp hc
        decide
      · exact absurd hc List.not_mem_nil
  rw [around, trim_append_right hright, trim_append_left fun c hc => (h.left c hc).1]

theorem notMem_around (h : p.Harmless) {line : List Char} (hline : '\n' ∉ line) : '\n' ∉ p.around line := by
  have hreturn : '\n' ∉ if p.returns then ['\r'] else [] := by split <;> decide
  simp only [around, List.mem_append, not_or]
  exact ⟨⟨fun hc => (h.left _ hc).2 rfl, hline⟩, fun hc => (h.right _ hc).2 rfl, hreturn⟩

end Padding

/-- Lines with something around each of them. -/
def padded (ps : List (Padding × List Char)) : List (List Char) := ps.flatMap fun p => p.1.skipped ++ [p.1.around p.2]

/-- How many lines are put in before the last of the first `n`. -/
def insertedBefore (ps : List (Padding × List Char)) (n : Nat) : Nat := ((ps.take n).map (·.1.skipped.length)).sum

/-- The fault in terms of the padded lines. -/
def Fault.shift (ps : List (Padding × List Char)) : Fault → Fault
  | .badRecord line => .badRecord (line + insertedBefore ps line)
  | fault => fault

theorem insertedBefore_cons (p : Padding × List Char) (ps : List (Padding × List Char)) (n : Nat) :
    insertedBefore (p :: ps) (n + 1) = p.1.skipped.length + insertedBefore ps n := rfl

section

variable {line : List Char} {lines : List (List Char)}

theorem isUnreadable_of_skipped (h : isSkipped (trim line) = true) : isUnreadable line = false := by
  rw [isUnreadable, h]
  rfl

theorem record?_of_skipped (h : isSkipped (trim line) = true) : record? line = none := if_pos h

theorem findIdx?_append_of_skipped (h : ∀ line ∈ lines, isSkipped (trim line) = true) (rest : List (List Char)) :
    (lines ++ rest).findIdx? isUnreadable = (rest.findIdx? isUnreadable).map (· + lines.length) := by
  have hnone : lines.findIdx? isUnreadable = none :=
    List.findIdx?_eq_none_iff.mpr fun line hline => isUnreadable_of_skipped (h line hline)
  rw [List.findIdx?_append, hnone, Option.none_or]

theorem filterMap_of_skipped (h : ∀ line ∈ lines, isSkipped (trim line) = true) : lines.filterMap record? = [] :=
  List.filterMap_eq_nil_iff.mpr fun line hline => record?_of_skipped (h line hline)

variable {p : Padding}

theorem isUnreadable_around (h : p.Harmless) (line : List Char) : isUnreadable (p.around line) = isUnreadable line := by
  rw [isUnreadable, p.trim_around h, isUnreadable]

theorem record?_around (h : p.Harmless) (line : List Char) : record? (p.around line) = record? line := by
  rw [record?, p.trim_around h, record?]

end

section

variable {ps : List (Padding × List Char)} {tail : List (List Char)} (hps : ∀ p ∈ ps, p.1.Harmless)
  (htail : ∀ line ∈ tail, isSkipped (trim line) = true)

include hps htail

theorem findIdx?_padded :
    (padded ps ++ tail).findIdx? isUnreadable =
      ((ps.map (·.2)).findIdx? isUnreadable).map fun i => i + insertedBefore ps (i + 1) := by
  induction ps with
  | nil =>
      have hend := findIdx?_append_of_skipped htail []
      rwa [List.append_nil] at hend
  | cons p ps ih =>
      have hp := hps p List.mem_cons_self
      have hsplit : padded (p :: ps) ++ tail = p.1.skipped ++ (p.1.around p.2 :: (padded ps ++ tail)) := by
        simp [padded]
      rw [hsplit, findIdx?_append_of_skipped fun line hline => (hp.skipped line hline).1, List.findIdx?_cons,
        isUnreadable_around hp, List.map_cons, List.findIdx?_cons]
      split
      · simp [insertedBefore]
      · rw [ih fun q hq => hps q (List.mem_cons_of_mem _ hq), Option.map_map, Option.map_map, Option.map_map]
        refine Option.map_congr fun i _ => ?_
        simp only [Function.comp_apply, insertedBefore_cons]
        omega

theorem filterMap_padded : (padded ps ++ tail).filterMap record? = (ps.map (·.2)).filterMap record? := by
  induction ps with
  | nil => exact filterMap_of_skipped htail
  | cons p ps ih =>
      have hp := hps p List.mem_cons_self
      have hsplit : padded (p :: ps) ++ tail = p.1.skipped ++ ([p.1.around p.2] ++ (padded ps ++ tail)) := by
        simp [padded]
      rw [hsplit, List.filterMap_append, filterMap_of_skipped fun line hline => (hp.skipped line hline).1,
        List.filterMap_append, ih fun q hq => hps q (List.mem_cons_of_mem _ hq), List.nil_append]
      have hline := record?_around hp p.2
      cases hrecord : record? p.2 <;> simp [hline, hrecord]

theorem verdict_padded : verdict (padded ps ++ tail) = (verdict (ps.map (·.2))).mapError (Fault.shift ps) := by
  unfold verdict
  rw [findIdx?_padded hps htail, filterMap_padded hps htail]
  cases (ps.map (·.2)).findIdx? isUnreadable with
  | none => rfl
  | some i =>
      simp only [Option.map_some, Except.mapError, Fault.shift]
      rw [Nat.add_right_comm]

omit hps htail in
theorem notMem_padded (hlines : ∀ p ∈ ps, '\n' ∉ p.2) (hps : ∀ p ∈ ps, p.1.Harmless) :
    ∀ line ∈ padded ps, '\n' ∉ line := by
  intro line hline
  obtain ⟨p, hp, hline⟩ := List.mem_flatMap.mp hline
  rcases List.mem_append.mp hline with hline | hline
  · exact ((hps p hp).skipped line hline).2
  · rw [List.mem_singleton.mp hline]
    exact p.1.notMem_around (hps p hp) (hlines p hp)

end

/-- A trace comes to what its lines come to one by one. With lines put in that are blank or comments, blanks around
the others and carriage returns before line feeds it comes to the same, except that the number of the line that
cannot be read counts the lines put in before it, too. -/
theorem read_line_by_line (lines : List (List Char)) (ended : Bool) (hlines : ∀ line ∈ lines, '\n' ∉ line) :
    ofBytes (utf8 (joined lines ended)) = verdict lines ∧
      ∀ (ps : List (Padding × List Char)) (tail : List (List Char)) (ended' : Bool), ps.map (·.2) = lines →
        (∀ p ∈ ps, p.1.Harmless) → (∀ line ∈ tail, isSkipped (trim line) = true ∧ '\n' ∉ line) →
        ofBytes (utf8 (joined (padded ps ++ tail) ended')) =
          (ofBytes (utf8 (joined lines ended))).mapError (Fault.shift ps) := by
  have hplain : ofBytes (utf8 (joined lines ended)) = verdict lines := by rw [ofBytes_utf8, ofText_joined hlines]
  refine ⟨hplain, ?_⟩
  rintro ps tail ended' rfl hps htail
  have hfeed : ∀ line ∈ padded ps ++ tail, '\n' ∉ line := by
    intro line hline
    rcases List.mem_append.mp hline with hline | hline
    · exact notMem_padded (fun p hp => hlines p.2 (List.mem_map_of_mem hp)) hps line hline
    · exact (htail line hline).2
  rw [ofBytes_utf8, ofText_joined hfeed, hplain]
  exact verdict_padded hps fun line hline => (htail line hline).1

/-- The second of two lines lacks a field. With a comment and an empty line before the first and a comment before the
second, it is the fifth. -/
theorem read_line_by_line_between_comments :
    let handshake := "\x7b\"event\":\"min_rtt\",\"rtt\":20\x7d".toList
    let partly := "\x7b\"event\":\"sent\",\"t\":0\x7d".toList
    let ps : List (Padding × List Char) :=
      [(⟨["# handshake first".toList, []], [' '], ['\t'], true⟩, handshake),
        (⟨["  #".toList], [], [Char.ofNat 0xa0], false⟩, partly)]
    (∀ line ∈ [handshake, partly], '\n' ∉ line) ∧ (∀ p ∈ ps, p.1.Harmless) ∧
      ofBytes (utf8 (joined [handshake, partly] false)) = .error (.badRecord 2) ∧
      ofBytes (utf8 (joined (padded ps ++ ["  ".toList]) true)) = .error (.badRecord 5) := by
  intro handshake partly ps
  have hlines : ∀ line ∈ [handshake, partly], '\n' ∉ line := by decide
  have hps : ∀ p ∈ ps, p.1.Harmless := by
    intro p hp
    simp only [ps, List.mem_cons, List.not_mem_nil, or_false] at hp
    rcases hp with rfl | rfl
    · exact ⟨by decide, List.forall_mem_singleton.mpr (by decide), List.forall_mem_singleton.mpr (by decide)⟩
    · exact ⟨by decide, nofun, List.forall_mem_singleton.mpr (by decide)⟩
  have hverdict : verdict [handshake, partly] = .error (.badRecord 2) := by decide +kernel
  obtain ⟨hplain, hpadded⟩ := read_line_by_line [handshake, partly] false hlines
  refine ⟨hlines, hps, hplain.trans hverdict, (hpadded ps ["  ".toList] true rfl hps (by decide)).trans ?_⟩
  rw [hplain, hverdict]
  rfl

end Pacing.Trace

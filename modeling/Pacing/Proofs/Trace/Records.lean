import Pacing.Proofs.Json.Reader
import Pacing.Proofs.Trace.Lines

/-!
# Recorded traces read back

No two fields of a record have the same name, so each is found again in the object that the record is written as. The
text of a record is one line without blanks at its ends, and not a comment. So a trace is read as the records that it
was written from, if the doubles in it are read from their texts.
-/

namespace Pacing.Trace

open Text

namespace Record

/-! ## Fields under their names -/

theorem Kind.ofName?_name (k : Kind) : Kind.ofName? k.name.toList = some k := by
  cases k <;> decide +kernel

theorem Kind.nodup_fields (k : Kind) : (kindField :: k.fields).Nodup := by
  cases k <;> decide

def named (ps : List (String × Json)) : List (List Char × Json) := ps.map fun p => (p.1.toList, p.2)

section

variable {p : String × Json} {ps qs : List (String × Json)} {name : String}

theorem valuesOf_cons_self (p : String × Json) (ps : List (String × Json)) :
    valuesOf p.1 (named (p :: ps)) = p.2 :: valuesOf p.1 (named ps) := by
  simp [valuesOf, named]

theorem valuesOf_cons_of_ne (h : p.1 ≠ name) (ps : List (String × Json)) :
    valuesOf name (named (p :: ps)) = valuesOf name (named ps) := by
  have hne : ¬ p.1.toList = name.toList := fun heq => h (String.toList_inj.mp heq)
  simp [valuesOf, named, hne]

theorem valuesOf_of_notMem (h : name ∉ ps.map (·.1)) : valuesOf name (named ps) = [] := by
  induction ps with
  | nil => rfl
  | cons p ps ih =>
      rw [List.map_cons, List.mem_cons, not_or] at h
      rw [valuesOf_cons_of_ne (Ne.symm h.1), ih h.2]

theorem valuesOf_of_mem (hnodup : (ps.map (·.1)).Nodup) (hp : p ∈ ps) : valuesOf p.1 (named ps) = [p.2] := by
  induction ps with
  | nil => cases hp
  | cons q ps ih =>
      rw [List.map_cons, List.nodup_cons] at hnodup
      rcases List.mem_cons.mp hp with rfl | hp
      · rw [valuesOf_cons_self, valuesOf_of_notMem hnodup.1]
      · have hne : q.1 ≠ p.1 := fun heq => hnodup.1 (heq ▸ List.mem_map_of_mem hp)
        rw [valuesOf_cons_of_ne hne, ih hnodup.2 hp]

theorem slotsOfObject?_of_mem (hnodup : (ps.map (·.1)).Nodup) (hqs : ∀ q ∈ qs, q ∈ ps) :
    slotsOfObject? (qs.map (·.1)) (named ps) = some (qs.map fun q => some q.2) := by
  induction qs with
  | nil => rfl
  | cons q qs ih =>
      have hrest := ih fun q hq => hqs q (List.mem_cons_of_mem _ hq)
      unfold slotsOfObject? at hrest ⊢
      rw [List.map_cons, List.mapM_cons, valuesOf_of_mem hnodup (hqs q List.mem_cons_self), hrest]
      rfl

end

/-! ## Records as objects -/

/-- A record's kind and its values, under their names. -/
def entries (r : Record) : List (String × Json) :=
  (kindField, .string r.kind.name.toList) :: r.kind.fields.zip (r.values.map .number)

variable (r : Record)

theorem toJson_eq_entries : r.toJson = .object (named r.entries) := by cases r <;> rfl

theorem length_values : r.values.length = r.kind.fields.length := by cases r <;> rfl

theorem ofParts?_values : ofParts? r.kind (r.values.map fun n => some (.number n)) = some r := by cases r <;> rfl

theorem nodup_entries : (r.entries.map (·.1)).Nodup := by
  have hnames : r.entries.map (·.1) = kindField :: r.kind.fields := by
    rw [entries, List.map_cons, List.map_fst_zip (by rw [List.length_map, length_values])]
  rw [hnames]
  exact r.kind.nodup_fields

theorem parts?_toJson : parts? r.toJson = some (r.kind, r.values.map fun n => some (.number n)) := by
  have hkind : valuesOf kindField (named r.entries) = [.string r.kind.name.toList] :=
    valuesOf_of_mem r.nodup_entries List.mem_cons_self
  have hslots : slotsOfObject? r.kind.fields (named r.entries) = some (r.values.map fun n => some (.number n)) := by
    have hlength : r.kind.fields.length = (r.values.map Json.number).length := by rw [List.length_map, length_values]
    have hslots : (r.kind.fields.zip (r.values.map Json.number)).map (fun q => some q.2) =
        r.values.map fun n => some (.number n) := by
      have hsnd := congrArg (List.map some) (List.map_snd_zip (Nat.le_of_eq hlength.symm))
      rwa [List.map_map, List.map_map] at hsnd
    have hfields := slotsOfObject?_of_mem r.nodup_entries fun q hq => List.mem_cons_of_mem _ hq
    rwa [List.map_fst_zip (Nat.le_of_eq hlength), hslots] at hfields
  rw [toJson_eq_entries, parts?, hkind]
  simp [Kind.ofName?_name, hslots]

theorem ofJson?_toJson : ofJson? r.toJson = some r := by
  rw [ofJson?, parts?_toJson]
  exact r.ofParts?_values

/-- The sequence numbers of a record. -/
def seqs : List Nat :=
  r.values.filterMap fun
    | .natural n => some n
    | _ => none

/-- The doubles of a record. -/
def reals : List Float :=
  r.values.filterMap fun
    | .real x => some x
    | _ => none

theorem mem_values {n : Json.Number} (h : n ∈ r.values) :
    (∃ seq ∈ r.seqs, n = .natural seq) ∨ ∃ x ∈ r.reals, n = .real x := by
  cases n with
  | natural seq => exact .inl ⟨seq, List.mem_filterMap.mpr ⟨_, h, rfl⟩, rfl⟩
  | negative n => cases r <;> simp [values] at h
  | real x => exact .inr ⟨x, List.mem_filterMap.mpr ⟨_, h, rfl⟩, rfl⟩

/-! ## The text of a record -/

theorem depth_toJson : r.toJson.depth = 1 := by cases r <;> rfl

theorem mem_values_of_mem_tokens {n : Json.Number} (h : .number n ∈ r.toJson.tokens) : n ∈ r.values := by
  cases r <;> simpa [toJson, Json.tokens, Json.fieldTokens, kind, Kind.fields, values] using h

/-- A record begins and ends with a brace. -/
theorem text_eq : ∃ middle, r.text = '\x7b' :: (middle ++ ['\x7d']) := ⟨_, by rw [text, toJson, Json.text]⟩

theorem trim_text : trim r.text = r.text := by
  obtain ⟨middle, htext⟩ := r.text_eq
  rw [htext]
  exact trim_of_ends rfl rfl

theorem isSkipped_text : isSkipped r.text = false := by
  obtain ⟨middle, htext⟩ := r.text_eq
  rw [htext]
  rfl

section

variable {r} (hreads : ∀ n ∈ r.values, n.ReadsBack)

include hreads

theorem ofText?_text : ofText? r.text = some r := by
  have hvalue : Json.ofText? r.text = some r.toJson :=
    Json.ofText?_text (fun n hn => hreads n (mem_values_of_mem_tokens r hn)) (by rw [depth_toJson]; decide)
  rw [ofText?, hvalue]
  exact r.ofJson?_toJson

theorem feed_notMem_text : '\n' ∉ r.text :=
  (Json.spells_text _ fun n hn => hreads n (mem_values_of_mem_tokens r hn)).oneLine

theorem record?_text : record? r.text = some r := by
  rw [record?, trim_text, isSkipped_text]
  exact ofText?_text hreads

theorem isUnreadable_text : isUnreadable r.text = false := by
  rw [isUnreadable, trim_text, ofText?_text hreads]
  exact Bool.and_false _

end

end Record

/-! ## Traces -/

theorem text_eq_joined (records : List Record) : text records = joined (records.map Record.text) true := by
  rw [text, joined, if_pos rfl, List.flatMap_map]

theorem verdict_texts {records : List Record} (h : ∀ r ∈ records, ∀ n ∈ r.values, n.ReadsBack) :
    verdict (records.map Record.text) = .ok records := by
  have hnone : (records.map Record.text).findIdx? isUnreadable = none := by
    rw [List.findIdx?_eq_none_iff, List.forall_mem_map]
    exact fun r hr => Record.isUnreadable_text (h r hr)
  have hrecords : (records.map Record.text).filterMap record? = records := by
    have hread : records.filterMap (record? ∘ Record.text) = records.filterMap some :=
      List.filterMap_congr fun r hr => Record.record?_text (h r hr)
    rw [List.filterMap_map, hread, List.filterMap_some]
  rw [verdict, hnone, hrecords]

/-- Records that were written one on a line, with a line feed after the last of them or not, are read back, if their
sequence numbers fit 64 bits, their doubles are finite, and each of these doubles is read from its text as the same
double. -/
theorem records_read_back (records : List Record) (hseqs : ∀ r ∈ records, ∀ n ∈ r.seqs, n < Nat.pow 2 64)
    (hfinite : ∀ r ∈ records, ∀ x ∈ r.reals, x.isFinite = true)
    (hreads : ∀ r ∈ records, ∀ x ∈ r.reals, x.isFinite = true → (Json.Number.real x).ReadsBack) :
    ofBytes (utf8 (text records)) = .ok records ∧
      ofBytes (utf8 (joined (records.map Record.text) false)) = .ok records := by
  have hvalues : ∀ r ∈ records, ∀ n ∈ r.values, n.ReadsBack := by
    intro r hr n hn
    rcases r.mem_values hn with ⟨n, hseq, rfl⟩ | ⟨x, hreal, rfl⟩
    · exact Json.Number.readsBack_natural (Nat.le_sub_one_of_lt (hseqs r hr n hseq))
    · exact hreads r hr x hreal (hfinite r hr x hreal)
  have hfeed : ∀ line ∈ records.map Record.text, '\n' ∉ line := by
    rw [List.forall_mem_map]
    exact fun r hr => Record.feed_notMem_text (hvalues r hr)
  have hread (ended : Bool) : ofBytes (utf8 (joined (records.map Record.text) ended)) = .ok records := by
    rw [ofBytes_utf8, ofText_joined hfeed, verdict_texts hvalues]
  rw [text_eq_joined]
  exact ⟨hread true, hread false⟩

/-- A record of each kind, with the greatest sequence number, minus zero and the least positive double among the
values. -/
theorem records_read_back_of_each_kind :
    let records : List Record :=
      [.minRtt 20, .init (-0.0), .sent 0.1 18446744073709551615, .ack 21.75 0 1e-7 1e23,
        .linkRate 1754000000123.456 5e-324, .timeout 30.5, .steadyState 40]
    (∀ r ∈ records, ∀ n ∈ r.seqs, n < Nat.pow 2 64) ∧ (∀ r ∈ records, ∀ x ∈ r.reals, x.isFinite = true) ∧
      (∀ r ∈ records, ∀ x ∈ r.reals, x.isFinite = true → (Json.Number.real x).ReadsBack) ∧
      ofBytes (utf8 (text records)) = .ok records := by
  intro records
  have hseqs : ∀ r ∈ records, ∀ n ∈ r.seqs, n < Nat.pow 2 64 := by decide +kernel
  have hfinite : ∀ r ∈ records, ∀ x ∈ r.reals, x.isFinite = true := by decide +kernel
  have hreads : ∀ r ∈ records, ∀ x ∈ r.reals, x.isFinite = true → (Json.Number.real x).ReadsBack := by decide +kernel
  exact ⟨hseqs, hfinite, hreads, (records_read_back records hseqs hfinite hreads).1⟩

/-- Not every double is read back: with the zero after the point, this one has more digits than are read exactly. -/
example : ¬ (Json.Number.real 9007199254740991).ReadsBack := by decide +kernel

end Pacing.Trace

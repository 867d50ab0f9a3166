import Pacing.Datagram

/-!
# The wire form of headers

A header is read back from its wire form, whatever comes after it. The wire form of a header that was read is
what it was read from, with the padding inside it cleared. A datagram is written whole or not at all, and no byte
after it changes.
-/

namespace Pacing.Datagram

/-! ## Words in bytes -/

theorem wordAt_append_zero (n count : Nat) (rest : List UInt8) :
    wordAt (littleEndian n count ++ rest) 0 count = n % Nat.pow 256 count := by
  have htake : (littleEndian n count ++ rest).take count = littleEndian n count :=
    List.take_left' (length_littleEndian n count)
  rw [wordAt, List.drop_zero, htake, ofLittleEndian_littleEndian]

/-- A word further on is found without the words before it. -/
theorem wordAt_append_of_le {width start : Nat} (h : width ≤ start) (n count : Nat) (rest : List UInt8) :
    wordAt (littleEndian n width ++ rest) start count = wordAt rest (start - width) count := by
  have hdrop : (littleEndian n width ++ rest).drop start = rest.drop (start - width) := by
    rw [List.drop_append, length_littleEndian, List.drop_eq_nil_of_le (by rwa [length_littleEndian]),
      List.nil_append]
  rw [wordAt, hdrop, wordAt]

section inBounds

variable {bytes : List UInt8} {start count : Nat} (h : start + count ≤ bytes.length)

include h

theorem length_slice : ((bytes.drop start).take count).length = count := by
  rw [List.length_take, List.length_drop]
  omega

theorem wordAt_lt : wordAt bytes start count < Nat.pow 256 count := by
  have hlt := ofLittleEndian_lt ((bytes.drop start).take count)
  rwa [length_slice h] at hlt

theorem littleEndian_wordAt : littleEndian (wordAt bytes start count) count = (bytes.drop start).take count := by
  have hback := littleEndian_ofLittleEndian ((bytes.drop start).take count)
  rwa [length_slice h] at hback

end inBounds

/-! ## Headers -/

namespace Header

theorem toInt32_ofNat_toNat (n : Int32) : (UInt32.ofNat (n.toUInt32.toNat % Nat.pow 256 4)).toInt32 = n := by
  rw [Nat.mod_eq_of_lt n.toUInt32.toNat_lt, UInt32.ofNat_toNat, Int32.toInt32_toUInt32]

theorem ofNat_toNat_mod (n : UInt64) : UInt64.ofNat (n.toNat % Nat.pow 256 8) = n := by
  rw [Nat.mod_eq_of_lt n.toNat_lt, UInt64.ofNat_toNat]

theorem decode_encode_append (h : Header) (rest : List UInt8) : decode (h.encode ++ rest) = .ok h := by
  have hlong : ¬ (h.encode ++ rest).length < headerSize := by
    rw [List.length_append, length_encode]
    omega
  rw [decode, if_neg hlong]
  simp (disch := decide) only [encode, List.append_assoc, wordAt_append_zero, wordAt_append_of_le, Nat.reduceSub,
    Nat.sub_self, toInt32_ofNat_toNat, ofNat_toNat_mod]

theorem encode_injective {h h' : Header} (heq : h.encode = h'.encode) : h = h' := by
  have hback := decode_encode_append h []
  rw [heq, decode_encode_append] at hback
  exact (Except.ok.inj hback).symm

/-- The bytes of a field that was read are those that it was read from. -/
theorem littleEndian_int32 {bytes : List UInt8} {start : Nat} (h : start + 4 ≤ bytes.length) :
    littleEndian (UInt32.ofNat (wordAt bytes start 4)).toInt32.toUInt32.toNat 4 =
      (bytes.drop start).take 4 := by
  rw [UInt32.toUInt32_toInt32, UInt32.toNat_ofNat', Nat.mod_eq_of_lt (wordAt_lt h),
    littleEndian_wordAt h]

theorem littleEndian_uint64 {bytes : List UInt8} {start : Nat} (h : start + 8 ≤ bytes.length) :
    littleEndian (UInt64.ofNat (wordAt bytes start 8)).toNat 8 = (bytes.drop start).take 8 := by
  rw [UInt64.toNat_ofNat', Nat.mod_eq_of_lt (wordAt_lt h), littleEndian_wordAt h]

/-- Where bytes are read, the header has them as its wire form, but the padding after the source holds zeros. -/
theorem encode_of_decode {bytes : List UInt8} (hlong : headerSize ≤ bytes.length) :
    ∃ h, decode bytes = .ok h ∧
      h.encode = bytes.take 12 ++ List.replicate 4 0 ++ (bytes.take headerSize).drop 16 := by
  unfold headerSize at hlong
  refine ⟨_, if_neg (Nat.not_lt.mpr hlong), ?_⟩
  have hids : bytes.take 12 = bytes.take 4 ++ (bytes.drop 4).take 4 ++ (bytes.drop 8).take 4 := by
    rw [List.take_add (i := 8) (j := 4), List.take_add (i := 4) (j := 4)]
  have htimes : (bytes.take headerSize).drop 16 = (bytes.drop 16).take 8 ++ (bytes.drop 24).take 8 := by
    rw [List.drop_take, headerSize, List.take_add (i := 8) (j := 8), List.drop_drop]
  have hpadding : littleEndian 0 4 = List.replicate 4 0 := rfl
  rw [encode, hids, htimes, hpadding, littleEndian_int32 (by omega), littleEndian_int32 (by omega),
    littleEndian_int32 (by omega), littleEndian_uint64 (by omega), littleEndian_uint64 (by omega),
    List.drop_zero, List.append_assoc]

/-- A header is read back from its wire form, no two headers have the same one, and bytes are refused only where
they are fewer than a header has. What is read from others has their wire form but for the padding. -/
theorem wire_form_faithful (h h' : Header) (rest bytes : List UInt8) :
    (h.encode.length = headerSize ∧ decode h.encode = .ok h ∧ decode (h.encode ++ rest) = .ok h) ∧
      (h.encode = h'.encode ↔ h = h') ∧
      (bytes.length < headerSize ∧ decode bytes = .error (.truncated bytes.length) ∨
        headerSize ≤ bytes.length ∧ ∃ g, decode bytes = .ok g ∧
          g.encode = bytes.take 12 ++ List.replicate 4 0 ++ (bytes.take headerSize).drop 16) := by
  refine ⟨⟨h.length_encode, ?_, h.decode_encode_append rest⟩, ⟨encode_injective, congrArg encode⟩, ?_⟩
  · simpa using h.decode_encode_append []
  · rcases Nat.lt_or_ge bytes.length headerSize with hshort | hlong
    · exact .inl ⟨hshort, if_pos hshort⟩
    · exact .inr ⟨hlong, encode_of_decode hlong⟩

/-! ## Whole datagrams -/

/-- A byte of the buffer belongs to the header, to the padding or to neither. -/
theorem getElem?_write (h : Header) {buffer : List UInt8} (hlong : packetSize ≤ buffer.length) (i : Nat) :
    (h.write buffer).2[i]? =
      if i < headerSize then h.encode[i]? else if i < packetSize then some padding else buffer[i]? := by
  rw [write, dif_neg (Nat.not_lt.mpr hlong), getElem?_overwrite, List.length_replicate, getElem?_overwrite,
    length_encode]
  unfold headerSize dataSize packetSize headerSize at *
  by_cases hheader : i < 32
  · rw [if_neg (by omega), if_pos (by omega), if_pos hheader, Nat.sub_zero]
  · by_cases hpadding : i < 1472
    · rw [if_pos (by omega), if_neg hheader, if_pos hpadding, List.getElem?_replicate, if_pos (by omega)]
    · rw [if_neg (by omega), if_neg (by omega), if_neg hheader, if_neg hpadding]

theorem take_write (h : Header) {buffer : List UInt8} (hlong : packetSize ≤ buffer.length) :
    (h.write buffer).2.take headerSize = h.encode := by
  refine List.ext_getElem? fun i => ?_
  rw [List.getElem?_take, getElem?_write h hlong]
  by_cases hheader : i < headerSize
  · rw [if_pos hheader, if_pos hheader]
  · rw [if_neg hheader, List.getElem?_eq_none (by rw [length_encode]; omega)]

theorem padding_write (h : Header) {buffer : List UInt8} (hlong : packetSize ≤ buffer.length) :
    ((h.write buffer).2.drop headerSize).take dataSize = List.replicate dataSize padding := by
  have hsize : headerSize + dataSize = packetSize := rfl
  refine List.ext_getElem? fun i => ?_
  rw [List.getElem?_take, List.getElem?_replicate]
  by_cases hpadding : i < dataSize
  · rw [if_pos hpadding, if_pos hpadding, List.getElem?_drop, getElem?_write h hlong, if_neg (by omega),
      if_pos (by omega)]
  · rw [if_neg hpadding, if_neg hpadding]

theorem drop_write (h : Header) {buffer : List UInt8} (hlong : packetSize ≤ buffer.length) :
    (h.write buffer).2.drop packetSize = buffer.drop packetSize := by
  have hsize : headerSize ≤ packetSize := by decide
  refine List.ext_getElem? fun i => ?_
  rw [List.getElem?_drop, getElem?_write h hlong, if_neg (by omega), if_neg (by omega), List.getElem?_drop]

/-- Writing starts with the wire form, so what is read from the buffer is the header. -/
theorem decode_write (h : Header) {buffer : List UInt8} (hlong : packetSize ≤ buffer.length) :
    decode (h.write buffer).2 = .ok h := by
  rw [← List.take_append_drop headerSize (h.write buffer).2, take_write h hlong, decode_encode_append]

/-- A buffer with room for a datagram gets one: the wire form of the header, then padding up to the size of a
datagram, with every byte after it as it was. A smaller buffer is refused with its length and stays as it was. -/
theorem written_whole_or_not (h : Header) (buffer : List UInt8) :
    (buffer.length < packetSize ∧ h.write buffer = (.error (.bufferTooSmall buffer.length), buffer)) ∨
      (packetSize ≤ buffer.length ∧ ∃ after, h.write buffer = (.ok packetSize, after) ∧
        after.length = buffer.length ∧
        after.take headerSize = h.encode ∧
        (after.drop headerSize).take (packetSize - headerSize) = List.replicate (packetSize - headerSize) padding ∧
        after.drop packetSize = buffer.drop packetSize ∧
        decode after = .ok h) := by
  rcases Nat.lt_or_ge buffer.length packetSize with hshort | hlong
  · exact .inl ⟨hshort, dif_pos hshort⟩
  · have hresult : (h.write buffer).1 = .ok packetSize := by rw [write, dif_neg (Nat.not_lt.mpr hlong)]
    have hlength : (h.write buffer).2.length = buffer.length := by
      rw [write, dif_neg (Nat.not_lt.mpr hlong), length_overwrite, length_overwrite]
    exact .inr ⟨hlong, (h.write buffer).2, Prod.ext hresult rfl, hlength, take_write h hlong,
      padding_write h hlong, drop_write h hlong, decode_write h hlong⟩

end Header

end Pacing.Datagram

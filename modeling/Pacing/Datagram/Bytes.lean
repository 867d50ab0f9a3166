/-!
# Little-endian words

The bytes of a word, least significant first. Writing a number in as many bytes as it was read from
gives these bytes back. Bytes are written over a buffer only where it has room for them.
-/

namespace Pacing.Datagram

/-- The lowest `count` bytes of a number. -/
def littleEndian (n : Nat) : Nat → List UInt8
  | 0 => []
  | count + 1 => UInt8.ofNat n :: littleEndian (n / 256) count

/-- The number that some bytes stand for. -/
def ofLittleEndian : List UInt8 → Nat
  | [] => 0
  | b :: bs => b.toNat + 256 * ofLittleEndian bs

/-- The number in the `count` bytes from `start` on. -/
def wordAt (bytes : List UInt8) (start count : Nat) : Nat :=
  ofLittleEndian ((bytes.drop start).take count)

/-- The buffer with some bytes from `start` on in place of its own. -/
def overwrite (buffer : List UInt8) (start : Nat) (bytes : List UInt8)
    (_fits : start + bytes.length ≤ buffer.length) : List UInt8 :=
  buffer.take start ++ bytes ++ buffer.drop (start + bytes.length)

/-! ## The two directions -/

@[simp] theorem length_littleEndian (n count : Nat) : (littleEndian n count).length = count := by
  induction count generalizing n with
  | zero => rfl
  | succ count ih => rw [littleEndian, List.length_cons, ih]

theorem pow_256_succ (n : Nat) : Nat.pow 256 (n + 1) = 256 * Nat.pow 256 n := Nat.mul_comm _ _

theorem ofLittleEndian_littleEndian (n count : Nat) :
    ofLittleEndian (littleEndian n count) = n % Nat.pow 256 count := by
  induction count generalizing n with
  | zero => rw [littleEndian, ofLittleEndian, Nat.pow, Nat.mod_one]
  | succ count ih =>
    rw [littleEndian, ofLittleEndian, ih, pow_256_succ, Nat.mod_mul, UInt8.toNat_ofNat']

theorem ofLittleEndian_lt (bytes : List UInt8) : ofLittleEndian bytes < Nat.pow 256 bytes.length := by
  induction bytes with
  | nil => exact Nat.one_pos
  | cons b bytes ih =>
    have := b.toNat_lt
    rw [ofLittleEndian, List.length_cons, pow_256_succ]
    omega

theorem littleEndian_ofLittleEndian (bytes : List UInt8) :
    littleEndian (ofLittleEndian bytes) bytes.length = bytes := by
  induction bytes with
  | nil => rfl
  | cons b bytes ih =>
    have := b.toNat_lt
    rw [ofLittleEndian, List.length_cons, littleEndian, Nat.add_mul_div_left _ _ (by decide),
      Nat.div_eq_of_lt (by omega), Nat.zero_add, ih]
    congr 1
    apply UInt8.toNat_inj.1
    rw [UInt8.toNat_ofNat']
    omega

/-! ## Buffers -/

section overwrite

variable {buffer bytes : List UInt8} {start : Nat} (fits : start + bytes.length ≤ buffer.length)

theorem getElem?_overwrite (i : Nat) :
    (overwrite buffer start bytes fits)[i]? =
      if start ≤ i ∧ i < start + bytes.length then bytes[i - start]? else buffer[i]? := by
  have htake : (buffer.take start).length = start := List.length_take_of_le (by omega)
  rw [overwrite, List.append_assoc, List.getElem?_append, List.getElem?_append, htake]
  by_cases hlow : i < start
  · rw [if_pos hlow, if_neg (by omega), List.getElem?_take_of_lt hlow]
  · rw [if_neg hlow]
    by_cases hhigh : i - start < bytes.length
    · rw [if_pos hhigh, if_pos (by omega)]
    · rw [if_neg hhigh, if_neg (by omega), List.getElem?_drop]
      congr 1
      omega

@[simp] theorem length_overwrite : (overwrite buffer start bytes fits).length = buffer.length := by
  simp only [overwrite, List.length_append, List.length_take, List.length_drop]
  omega

end overwrite

end Pacing.Datagram

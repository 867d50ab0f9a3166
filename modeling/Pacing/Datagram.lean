import Pacing.Datagram.Bytes

/-!
# Datagrams

A data datagram is a header of 32 bytes and padding, so that it is as long as a TCP segment on
ethernet. Acks echo the header. Times in a header are kept by their bit pattern: a header passes
through unchanged even where its times are no numbers.
-/

namespace Pacing.Datagram

/-- The size of a header, 4 bytes of padding after the source included. -/
def headerSize : Nat := 32

/-- The size of a datagram: with UDP and IP headers 1500 bytes on ethernet. -/
def packetSize : Nat := 1472

/-- The payload that a segment counts for. -/
def segmentSize : Nat := 1448

/-- The payload after the header. -/
def dataSize : Nat := packetSize - headerSize

/-- The byte `-`. -/
def padding : UInt8 := 45

inductive Fault
  | truncated (len : Nat)
  | bufferTooSmall (len : Nat)
  | negativeSeq (seqNum : Int32)
  deriving DecidableEq

def Fault.message : Fault → String
  | .truncated len => s!"datagram too short: {len} bytes, header needs {headerSize}"
  | .bufferTooSmall len => s!"buffer too small: {len} bytes, datagram needs {packetSize}"
  | .negativeSeq n => s!"negative sequence number {n.toInt} in data header"

structure Header where
  seqNum : Int32
  flowId : Int32
  srcId : Int32
  /-- When it was sent (bits of a double, ms). -/
  senderTimestamp : UInt64
  /-- When it was received (bits of a double, ms). -/
  receiverTimestamp : UInt64
  deriving DecidableEq

namespace Header

/-- The header of data that has not been received yet. -/
def data (seqNum flowId srcId : Int32) (senderTimestamp : UInt64) : Header :=
  ⟨seqNum, flowId, srcId, senderTimestamp, 0⟩

/-- The bits of -1. -/
def minusOneBits : UInt64 := 0xbff0000000000000

/-- The header exchanged to measure the first round-trip time. -/
def handshake : Header := ⟨-1, -1, -1, minusOneBits, minusOneBits⟩

/-- Whether the header answers a handshake. The peer may have stamped it, so the time of receipt
does not matter. -/
def isHandshake (h : Header) : Bool :=
  h.seqNum == -1 && h.flowId == -1 && h.srcId == -1 &&
    Float.ofBits h.senderTimestamp == Float.ofBits minusOneBits

/-- The sequence number of the segment that the header belongs to. -/
def segment (h : Header) : Except Fault Nat :=
  if h.seqNum < 0 then .error (.negativeSeq h.seqNum) else .ok h.seqNum.toInt.toNat

/-! ## Wire form -/

def encode (h : Header) : List UInt8 :=
  littleEndian h.seqNum.toUInt32.toNat 4 ++ littleEndian h.flowId.toUInt32.toNat 4 ++
    littleEndian h.srcId.toUInt32.toNat 4 ++ littleEndian 0 4 ++
    littleEndian h.senderTimestamp.toNat 8 ++ littleEndian h.receiverTimestamp.toNat 8

@[simp] theorem length_encode (h : Header) : h.encode.length = headerSize := by
  simp [encode, headerSize]

/-- Reads the header at the start of some bytes. The padding inside it may hold anything. -/
def decode (bytes : List UInt8) : Except Fault Header :=
  if bytes.length < headerSize then .error (.truncated bytes.length)
  else .ok
    { seqNum := (UInt32.ofNat (wordAt bytes 0 4)).toInt32
      flowId := (UInt32.ofNat (wordAt bytes 4 4)).toInt32
      srcId := (UInt32.ofNat (wordAt bytes 8 4)).toInt32
      senderTimestamp := UInt64.ofNat (wordAt bytes 16 8)
      receiverTimestamp := UInt64.ofNat (wordAt bytes 24 8) }

/-- The header comes first. -/
theorem fits_header {buffer : List UInt8} (h : Header) (hlong : ¬ buffer.length < packetSize) :
    0 + h.encode.length ≤ buffer.length := by
  rw [length_encode]
  simp only [headerSize, packetSize] at *
  omega

/-- The padding fills what the header leaves of a datagram. -/
theorem fits_padding {buffer : List UInt8} (hlong : ¬ buffer.length < packetSize) :
    headerSize + (List.replicate dataSize padding).length ≤ buffer.length := by
  rw [List.length_replicate]
  simp only [dataSize, headerSize, packetSize] at *
  omega

/-- Writes a whole datagram at the start of a buffer: the header first, then the padding. A buffer
that is too small stays as it is. -/
def write (h : Header) (buffer : List UInt8) : Except Fault Nat × List UInt8 :=
  if hlong : buffer.length < packetSize then (.error (.bufferTooSmall buffer.length), buffer)
  else
    let headed := overwrite buffer 0 h.encode (fits_header h hlong)
    (.ok packetSize,
      overwrite headed headerSize (List.replicate dataSize padding)
        (fits_padding (by rwa [length_overwrite])))

end Header

/-- The segment that an ack number delivers: the one before it. -/
def ackedSegment? : Nat → Option Nat
  | 0 => none
  | seq + 1 => some seq

end Pacing.Datagram

import Mathlib

/-!
# The ZDT wire layer: sequence numbers, datagram headers, message records

The value types and pure functions of `zdt_wire.h`.  Sequence numbers go on the
wire truncated to 16 bits (`WireSeq`) but are tracked in full (the source's
`SequenceId`, a `uint64_t` no run can exhaust, is a `Nat` here), so the layer
rests on two pieces of modular arithmetic: `seqGreater` and `seqLess` compare
truncated numbers, and `reconstructSeq` rebuilds a full one.
-/

namespace Znet
namespace Zdt

/-- A sequence number as it travels: truncated to 16 bits. -/
abbrev WireSeq := BitVec 16

instance : Std.TransOrd WireSeq := inferInstanceAs (Std.TransOrd (BitVec 16))

/-- One period of the wire numbers. -/
def kPeriod : Nat := 65536

/-! ## Constants of the format -/

/-- How far back the receiver remembers which packets arrived. -/
def kZDTAckHistoryBits : Nat := 1024

def kZDTAckHistoryWords : Nat := kZDTAckHistoryBits / 64

/-- Ack blocks per datagram. -/
def kZDTMaxAckBlocks : Nat := 24

def kZDTAckBlockSize : Nat := 2

def kZDTAckBlocksReserved : Nat := 4

def kZDTHeaderSize : Nat := 6

def kZDTCidSize : Nat := 8

def kZDTRecordHeaderSize : Nat := 6

def kZDTFragRecordHeaderSize : Nat := 8

def kZDTRelayHeaderSize : Nat := 4

/-- What a data datagram sets aside for its header and a few ack blocks. -/
def kZDTHeaderReserve : Nat :=
  kZDTHeaderSize + kZDTCidSize + kZDTAckBlocksReserved * kZDTAckBlockSize

def kZDTMaxDatagramsInFlight : Nat := kZDTAckHistoryBits

def kFlagFin : BitVec 8 := 0x01
def kFlagPing : BitVec 8 := 0x02
def kFlagPong : BitVec 8 := 0x04
def kFlagHasCid : BitVec 8 := 0x08
def kFlagOnline : BitVec 8 := 0x80

def kRecReliable : BitVec 8 := 0x01
def kRecOrdered : BitVec 8 := 0x02
def kRecFragment : BitVec 8 := 0x04

/-- The C++ test `flags & mask`, used as a condition. -/
def hasFlag (flags mask : BitVec 8) : Bool := flags &&& mask != 0

/-! ## Headers and records -/

/-- A run of received packets and the run of missing ones just older. -/
structure ZDTAckBlock where
  numAck : BitVec 8 := 0
  numNack : BitVec 8 := 0
  deriving DecidableEq, Repr

/-- The header of a datagram.  The source keeps the blocks in an array of 24 and
counts the live ones in `block_count`; here the live ones are the list. -/
structure ZDTHeader where
  flags : BitVec 8 := kFlagOnline
  cid : BitVec 64 := 0
  packetSeq : WireSeq := 0
  ack : WireSeq := 0
  blocks : List ZDTAckBlock := []
  deriving DecidableEq, Repr

/-- The header of one message, or of one fragment of a message. -/
structure ZDTRecord where
  flags : BitVec 8 := 0
  channel : BitVec 8 := 0
  messageSeq : WireSeq := 0
  fragIndex : BitVec 8 := 0
  fragCount : BitVec 8 := 1
  length : BitVec 16 := 0
  deriving DecidableEq, Repr

/-- Bytes a record occupies on the wire, header plus payload. -/
def zdtRecordSize (fragment : Bool) (payloadLen : Nat) : Nat :=
  (if fragment then kZDTFragRecordHeaderSize else kZDTRecordHeaderSize) + payloadLen

/-! ## Wrapping comparison -/

/-- `static_cast<int16_t>(a - b) > 0`. -/
def seqGreater (a b : WireSeq) : Bool := decide (0 < (a - b).toInt)

/-- `static_cast<int16_t>(a - b) < 0`. -/
def seqLess (a b : WireSeq) : Bool := decide ((a - b).toInt < 0)

theorem toInt_sub_ofNat {a b : Nat} (h₁ : a ≤ b + 32767) (h₂ : b ≤ a + 32767) :
    (BitVec.ofNat 16 a - BitVec.ofNat 16 b).toInt = (a : Int) - b := by
  rw [BitVec.toInt_eq_toNat_cond, BitVec.toNat_sub, BitVec.toNat_ofNat, BitVec.toNat_ofNat]
  omega

/-- For numbers less than half a period apart the wire comparison is the true
one. -/
theorem seqGreater_ofNat {a b : Nat} (h₁ : a ≤ b + 32767) (h₂ : b ≤ a + 32767) :
    seqGreater (BitVec.ofNat 16 a) (BitVec.ofNat 16 b) = decide (b < a) := by
  rw [seqGreater, toInt_sub_ofNat h₁ h₂]
  exact decide_eq_decide.2 (by omega)

theorem seqLess_ofNat {a b : Nat} (h₁ : a ≤ b + 32767) (h₂ : b ≤ a + 32767) :
    seqLess (BitVec.ofNat 16 a) (BitVec.ofNat 16 b) = decide (a < b) := by
  rw [seqLess, toInt_sub_ofNat h₁ h₂]
  exact decide_eq_decide.2 (by omega)

theorem ofNat_sub_ofNat {a b : Nat} (h : b ≤ a) :
    BitVec.ofNat 16 a - BitVec.ofNat 16 b = BitVec.ofNat 16 (a - b) := by
  apply BitVec.eq_of_toNat_eq
  rw [BitVec.toNat_sub, BitVec.toNat_ofNat, BitVec.toNat_ofNat, BitVec.toNat_ofNat]
  omega

/-- Numbers a period apart look alike on the wire. -/
theorem ofNat_add_period (a : Nat) : BitVec.ofNat 16 (a + 65536) = BitVec.ofNat 16 a := by
  apply BitVec.eq_of_toNat_eq
  rw [BitVec.toNat_ofNat, BitVec.toNat_ofNat]
  omega

/-! ## Reconstruction -/

/-- The full number a wire value stands for: the candidate in the period of
`expected`, moved by one period when that brings it nearer.  The source takes
the base with `expected & ~(kPeriod - 1)`, which is `expected - expected % kPeriod`. -/
def reconstructSeq (truncated : WireSeq) (expected : Nat) : Nat :=
  let candidate := expected - expected % kPeriod + truncated.toNat
  if candidate + kPeriod / 2 < expected then candidate + kPeriod
  else if expected + kPeriod / 2 ≤ candidate ∧ kPeriod ≤ candidate then candidate - kPeriod
  else candidate

/-- The number reconstructed from a wire value truncates to that value. -/
theorem reconstructSeq_mod (t : WireSeq) (expected : Nat) :
    BitVec.ofNat 16 (reconstructSeq t expected) = t := by
  have ht := t.isLt
  apply BitVec.eq_of_toNat_eq
  rw [BitVec.toNat_ofNat]
  unfold reconstructSeq kPeriod
  dsimp only
  split
  · omega
  · split <;> omega

/-- **When reconstruction is right.**  A number `m` comes back from its
truncation exactly when it is at most half a period behind what is expected and
less than half a period ahead of it; in the very first period, where there is
no earlier period to fall back to, any distance ahead is fine. -/
theorem reconstructSeq_eq_iff (m expected : Nat) :
    reconstructSeq (BitVec.ofNat 16 m) expected = m ↔
      expected ≤ m + 32768 ∧ (m < expected + 32768 ∨ (m < 65536 ∧ expected < 65536)) := by
  unfold reconstructSeq kPeriod
  rw [BitVec.toNat_ofNat]
  dsimp only
  split
  · omega
  · split <;> omega

theorem reconstructSeq_of_window {m expected : Nat} (h₁ : expected ≤ m + 32768)
    (h₂ : m < expected + 32768) : reconstructSeq (BitVec.ofNat 16 m) expected = m :=
  (reconstructSeq_eq_iff m expected).2 ⟨h₁, Or.inl h₂⟩

end Zdt
end Znet

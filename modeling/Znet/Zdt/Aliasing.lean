import Znet.Zdt.Integrity
import Znet.Zdt.LateCopy

/-!
# Fragments of two messages

An unreliable unordered message leaves no trace in the channel it arrives on, so the number its
fragments are filed under is always the one in their sixteen bits.  65536 messages later another
message is filed under the same number; a fragment of the first that is still waiting for its
rest then gets that of the other.

The sender here sends nothing but such messages, of two fragments each, and the network loses
all of them but a fragment of the first and one of the last.
-/

namespace Znet
namespace Zdt

open Transport

/-! ## The messages -/

/-- Room for three bytes of a fragment. -/
def narrow : Config := { mtu := 33 }

/-- The `n`-th message; only the first is of ones. -/
def burst (n : Nat) : QueuedOut where
  payload := List.replicate 6 (if n = 0 then 1 else 2)
  reliable := false
  ordered := false

def burstPiece (n i : Nat) : PendingRecord := fragmentRecord narrow (burst n) 0 n 2 i

/-- The number of the `k`-th packet, which skips the sentinel. -/
def packetNumber (k : Nat) : WireSeq := BitVec.ofNat 16 (k % 65535 + 1)

theorem followingSeq_packetNumber (k : Nat) :
    followingSeq (packetNumber k) = packetNumber (k + 1) := by
  have hlt : k % 65535 < 65535 := Nat.mod_lt _ (by decide)
  have hnext : (packetNumber k + 1).toNat = (k % 65535 + 2) % 65536 := by
    simp [packetNumber, BitVec.toNat_add]
  unfold followingSeq
  by_cases hlast : k % 65535 = 65534
  · have hzero : packetNumber k + 1 = 0 := by
      apply BitVec.eq_of_toNat_eq
      rw [hnext, hlast]
      rfl
    have hmod : (k + 1) % 65535 = 0 := by omega
    rw [if_pos hzero, packetNumber, hmod]
    rfl
  · have hne : packetNumber k + 1 ≠ 0 := by
      intro hzero
      rw [hzero] at hnext
      simp at hnext
      omega
    have hmod : (k + 1) % 65535 = k % 65535 + 1 := by omega
    rw [if_neg hne]
    apply BitVec.eq_of_toNat_eq
    rw [hnext, packetNumber, hmod, BitVec.toNat_ofNat]

/-- The datagram a fragment goes out in. -/
def burstDatagram (n i : Nat) : Datagram where
  header := { packetSeq := packetNumber (2 * n + i) }
  records := [burstPiece n i]

/-- What the first `n` messages put on the wire. -/
def burstWire (n : Nat) : List Datagram :=
  (List.range n).flatMap fun m => [burstDatagram m 0, burstDatagram m 1]

variable (n : Nat)

theorem burstWire_succ :
    burstWire (n + 1) = burstWire n ++ [burstDatagram n 0] ++ [burstDatagram n 1] := by
  simp [burstWire, List.range_succ]

theorem length_burstWire : (burstWire n).length = 2 * n := by
  induction n with
  | zero => rfl
  | succ n ih =>
    rw [burstWire_succ]
    simp [ih]
    omega

/-- The second fragment of the last message is the last datagram. -/
theorem getElem?_burstWire_last : (burstWire (n + 1))[2 * n + 1]? = some (burstDatagram n 1) := by
  have hlength : (burstWire n ++ [burstDatagram n 0]).length = 2 * n + 1 := by
    simp [length_burstWire]
  rw [burstWire_succ, List.getElem?_append_right hlength.le, hlength, Nat.sub_self]
  rfl

theorem getElem?_burstWire_first : (burstWire (n + 1))[0]? = some (burstDatagram 0 0) := by
  induction n with
  | zero => rfl
  | succ n ih =>
    rw [burstWire_succ, List.append_assoc, List.getElem?_append_left]
    · exact ih
    · rw [length_burstWire]
      omega

/-! ## The sender -/

/-- A sender with nothing to send, before its `n`-th message. -/
structure Bursting (t : Transport) (n : Nat) : Prop extends Rested t where
  config : t.config = narrow
  ackHistory : t.ackHistory = {}
  unrelSend : (t.channels 0).unrelSend = n
  nextPacketSeq : t.nextPacketSeq = packetNumber (2 * n)
  wire : t.wire = burstWire n

variable {t : Transport} {n : Nat} {queued : QueuedOut}

theorem batchHeader_burst (hconfig : t.config = narrow) (hhistory : t.ackHistory = {})
    (batch : List PendingRecord) : t.batchHeader 0 batch = { packetSeq := t.nextPacketSeq } := by
  unfold batchHeader
  rw [hconfig, hhistory]
  rfl

/-- One fragment. -/
theorem sendFragment_burst (hconfig : t.config = narrow) (hhistory : t.ackHistory = {}) {i : Nat}
    (hseq : t.nextPacketSeq = packetNumber (2 * n + i)) :
    ∃ sent flight, sendFragment calm (burst n) 0 n 2 t i =
      { t with
        nextPacketSeq := packetNumber (2 * n + i + 1)
        sentPackets := sent
        wire := t.wire ++ [burstDatagram n i]
        needsAck := false
        inFlightDatagrams := flight } := by
  obtain ⟨sent, flight, heq⟩ := sendBatch_eq t 0 0 [burstPiece n i]
  refine ⟨sent, flight, ?_⟩
  rw [batchHeader_burst hconfig hhistory, hseq, followingSeq_packetNumber] at heq
  have hsend : sendFragment calm (burst n) 0 n 2 t i = (t.sendBatch 0 0 [burstPiece n i]).1 := by
    unfold sendFragment
    rw [hconfig]
    rfl
  exact hsend.trans heq

theorem packMessage_burst (hconfig : t.config = narrow) (hsend : (t.channels 0).unrelSend = n) :
    packMessage calm { t := t } (burst n) 0 =
      { t := sendFragment calm (burst n) 0 n 2
          (sendFragment calm (burst n) 0 n 2 (t.takeSeq 0 false).1 0) 1 } := by
  have hseq : (t.takeSeq 0 (burst n).reliable).2 = n := hsend
  have htaken : (t.takeSeq 0 (burst n).reliable).1.config = narrow := hconfig
  have hlength : (burst n).payload.length = 6 := List.length_replicate
  have hbig : ¬ 6 ≤ unfragCapacity narrow := by decide
  have hcount : fragmentCount narrow 6 = 2 := by decide
  unfold packMessage
  dsimp only
  rw [htaken, hseq, hlength, if_neg hbig, hcount, if_neg (by decide)]
  rfl

/-- **One message.** -/
theorem Bursting.round (h : Bursting t n) :
    Bursting ((t.send (burst n)).1.flushOutbound calm) (n + 1) := by
  have hflush : (t.send (burst n)).1.flushOutbound calm =
      sendFragment calm (burst n) 0 n 2
        (sendFragment calm (burst n) 0 n 2 ((t.lined []).takeSeq 0 false).1 0) 1 := by
    have hserved : (burst n).reliable = true → (t.lined [burst n]).refused calm 0 = false := by
      intro hrel
      cases hrel
    rw [flush_single h.toRested rfl calm hserved,
      packMessage_burst (t := t.lined []) h.config h.unrelSend]
    rfl
  obtain ⟨sent, flight, hfirst⟩ := sendFragment_burst (t := ((t.lined []).takeSeq 0 false).1)
    h.config h.ackHistory (i := 0) h.nextPacketSeq
  rw [hfirst] at hflush
  generalize hmid : ({ ((t.lined []).takeSeq 0 false).1 with
    nextPacketSeq := packetNumber (2 * n + 0 + 1)
    sentPackets := sent
    wire := ((t.lined []).takeSeq 0 false).1.wire ++ [burstDatagram n 0]
    needsAck := false
    inFlightDatagrams := flight } : Transport) = u at hflush
  obtain ⟨sent', flight', hsecond⟩ := sendFragment_burst (t := u) (n := n) (i := 1)
    (hmid ▸ h.config) (hmid ▸ h.ackHistory) (hmid ▸ rfl)
  rw [hflush, hsecond, ← hmid]
  exact
    { isClosed := h.isClosed
      capacity := h.capacity
      outbound := rfl
      staged := .inr rfl
      stagedCount := rfl
      stagedCursor := h.stagedCursor
      config := h.config
      ackHistory := h.ackHistory
      unrelSend := by
        show (Function.update t.channels 0 _ 0).unrelSend = n + 1
        rw [Function.update_self]
        exact congrArg (· + 1) h.unrelSend
      nextPacketSeq := rfl
      wire := by
        show t.wire ++ [burstDatagram n 0] ++ [burstDatagram n 1] = _
        rw [h.wire, burstWire_succ] }

/-! ## The run -/

/-- A message is sent. -/
def burstRound (n : Nat) : List LinkEvent :=
  [.work .left (.send (burst n)), .work .left (.flush calm)]

def burstRounds (n : Nat) : List LinkEvent := (List.range n).flatMap burstRound

theorem handle_of_open (hopen : t.isClosed = false) (pace : Pace) :
    t.handle (.flush pace) = t.flushOutbound pace := by
  unfold handle
  rw [hopen, if_neg (by decide)]

/-- **Any number of messages**, while the other endpoint hears nothing. -/
theorem bursting_rounds (n : Nat) :
    ∃ l, link.exec (freshLink fun _ => narrow) (burstRounds n) = some l ∧ Bursting (l .left) n ∧
      l .right = { config := narrow } := by
  induction n with
  | zero =>
    refine ⟨_, rfl, ?_, rfl⟩
    exact
      { isClosed := rfl, capacity := by decide, outbound := rfl, staged := .inl rfl
        stagedCount := rfl, stagedCursor := rfl, config := rfl, ackHistory := rfl
        unrelSend := rfl, nextPacketSeq := rfl, wire := rfl }
  | succ n ih =>
    obtain ⟨l, hexec, hleft, hright⟩ := ih
    have hsend : (l .left).handle (.send (burst n)) = ((l .left).send (burst n)).1 := by
      unfold handle
      rw [hleft.isClosed, if_neg (by decide)]
    have hopen : ((l .left).send (burst n)).1.isClosed = false := by
      rw [send_rested hleft.toRested]
      exact hleft.isClosed
    have h₁ := link_work l .left (e := .send (burst n)) rfl
    rw [hsend] at h₁
    have h₂ := link_work (Function.update l .left ((l .left).send (burst n)).1) .left
      (e := .flush calm) rfl
    rw [Function.update_self, handle_of_open hopen, Function.update_idem] at h₂
    have hround := (link.exec_cons h₁ _).trans (link.exec_cons h₂ [])
    rw [link.exec_nil] at hround
    refine ⟨Function.update l .left (((l .left).send (burst n)).1.flushOutbound calm), ?_, ?_, ?_⟩
    · rw [burstRounds, List.range_succ, List.flatMap_append, List.flatMap_singleton, ← burstRounds,
        link.exec_append hexec]
      exact hround
    · rw [Function.update_self]
      exact hleft.round
    · rw [Function.update_of_ne (by decide)]
      exact hright

/-- Everything that was accepted was sent in the run. -/
theorem send_of_accepted {s : Side} {l : Link} {es : List LinkEvent}
    (h : queued ∈ accepted s l es) :
    LinkEvent.work s (.send queued) ∈ es := by
  induction es generalizing l with
  | nil => cases h
  | cons e es ih =>
    unfold accepted at h
    rcases List.mem_append.1 h with hnow | hlater
    · unfold accepting at hnow
      split at hnow
      · next s' sent =>
        split at hnow
        · next htaken =>
          rw [List.mem_singleton.1 hnow, htaken.1]
          exact List.mem_cons_self
        · cases hnow
      · cases hnow
    · split at hlater
      · exact List.mem_cons_of_mem _ (ih hlater)
      · cases hlater

/-- The messages, and then a fragment of the first and one of the last. -/
def mixingRun : List LinkEvent :=
  burstRounds 65537 ++ [.deliver .right 0 calm, .deliver .right 131073 calm]

/-- The two fragments that arrive. -/
theorem receive_fragments :
    ((({ config := narrow } : Transport).receive
      (.datagram calm (burstDatagram 0 0).arrival)).receive
      (.datagram calm (burstDatagram 65536 1).arrival)).ready = [[1, 1, 1, 2, 2, 2]] := by
  decide +kernel

theorem payload_of_send (h : LinkEvent.work .left (.send queued) ∈ mixingRun) :
    ∃ n, queued = burst n := by
  rcases List.mem_append.1 h with hround | hlast
  · obtain ⟨n, -, hn⟩ := List.mem_flatMap.1 hround
    simp [burstRound] at hn
    exact ⟨n, hn⟩
  · simp at hlast

/-- **Fragments of two messages are delivered as one.**  After 65537 unreliable unordered
messages of two fragments, of which the network keeps back all but the first fragment of the
first and the second fragment of the last, the receiver delivers three bytes of one and three
of the other; no message that was accepted has this payload. -/
theorem fragments_mixed :
    ∃ l, link.exec (freshLink fun _ => narrow) mixingRun = some l ∧
      (l .right).ready = [[1, 1, 1, 2, 2, 2]] ∧
      ∀ queued ∈ accepted .left (freshLink fun _ => narrow) mixingRun,
        queued.payload ≠ [1, 1, 1, 2, 2, 2] := by
  obtain ⟨l, hexec, hleft, hright⟩ := bursting_rounds 65537
  have hfirst : (l (Side.peer .right)).wire[0]? = some (burstDatagram 0 0) := by
    rw [Side.peer, hleft.wire]
    exact getElem?_burstWire_first 65536
  have h₁ := link_deliver hfirst calm
  have hlast : (Function.update l .right ((l .right).receive
      (.datagram calm (burstDatagram 0 0).arrival)) (Side.peer .right)).wire[131073]? =
      some (burstDatagram 65536 1) := by
    rw [Side.peer, Function.update_of_ne (by decide), hleft.wire]
    exact getElem?_burstWire_last 65536
  have h₂ := link_deliver hlast calm
  rw [Function.update_self, Function.update_idem] at h₂
  have hend := (link.exec_cons h₁ _).trans (link.exec_cons h₂ [])
  rw [link.exec_nil] at hend
  refine ⟨Function.update l .right (((l .right).receive
    (.datagram calm (burstDatagram 0 0).arrival)).receive
    (.datagram calm (burstDatagram 65536 1).arrival)), ?_, ?_, ?_⟩
  · rw [mixingRun, link.exec_append hexec]
    exact hend
  · rw [Function.update_self, hright]
    exact receive_fragments
  · intro queued hqueued hpayload
    obtain ⟨n, rfl⟩ := payload_of_send (send_of_accepted hqueued)
    by_cases hn : n = 0 <;> simp [burst, hn] at hpayload

end Zdt
end Znet

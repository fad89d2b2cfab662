import Znet.Zdt.Link

/-!
# A copy that comes too late

`FlushOutbound` stalls a channel whose newest message is half a wire period ahead of its
oldest unacknowledged one, "so a late retransmit can never reconstruct onto a live message".
The copies of an acknowledged message are not bounded by that: one of them may still be in the
network when the receiver is more than half a period further on.

The run here is as plain as it can be.  One endpoint sends a message, the other acknowledges
it, 32769 times (`lateRounds`); then the first datagram arrives once more.
-/

namespace Znet
namespace Zdt

open Transport

/-! ## The sender -/

/-- The message that is sent in every round. -/
def note : QueuedOut := { payload := [0], reliable := true, ordered := true, channel := 0 }

/-- The first datagram carried message 0, and nothing else. -/
def FirstOut (t : Transport) : Prop :=
  ∃ d, t.wire[0]? = some d ∧ d.records = [wholeRecord note 0 0] ∧
    d.header.flags = kFlagOnline ∧ d.header.packetSeq = 1

/-- A sender with nothing to send and nothing in flight, before its `n`-th message. -/
structure Idle (t : Transport) (n : Nat) : Prop where
  config : t.config = {}
  isClosed : t.isClosed = false
  outbound : t.outbound = []
  staged : t.staged = [] ∨ t.staged = [⟨0, []⟩]
  stagedCount : t.stagedCount = 0
  stagedCursor : t.stagedCursor = 0
  relSend : (t.channels 0).relSend = n
  unacked : t.unacked = ∅
  sentPackets : t.sentPackets = ∅
  inFlight : t.inFlightDatagrams = 0
  nextPacketSeq : t.nextPacketSeq = BitVec.ofNat 16 (n + 1)
  wire : t.wire.length = n
  first : 0 < n → FirstOut t

variable {t : Transport} {n m : Nat} {d : Inbound}

theorem refused_of_empty (hc : t.config = {}) (hu : t.unacked = ∅) (hf : t.inFlightDatagrams = 0)
    (c : BitVec 8) : t.refused calm c = false := by
  have ho : t.oldestUnacked c = none := by
    unfold oldestUnacked
    rw [hu]
    rfl
  unfold refused
  rw [ho, hc, hu, hf]
  rfl

/-- The transport once the message has left the queues. -/
def taken (t : Transport) : Transport :=
  { t with outbound := [], staged := [⟨0, []⟩], stagedCount := 0 }

/-- The message is tracked and in the batch. -/
def packed (t : Transport) (n : Nat) : Packing where
  t := ((taken t).takeSeq 0 true).1.trackReliable calm (wholeRecord note 0 n) 0 {}
  batch := [wholeRecord note 0 n]
  batchBytes := kZDTHeaderReserve + zdtRecordSize false 1

theorem packMessage_note (h : Idle t n) :
    packMessage calm { t := taken t } note 0 = packed t n := by
  have hseq : ((taken t).takeSeq 0 true).2 = n := h.relSend
  have hconfig : ((taken t).takeSeq 0 true).1.config = {} := h.config
  have hfits : note.payload.length ≤ unfragCapacity {} := by decide
  have hroom : ¬ (packMtu {} < kZDTHeaderReserve + zdtRecordSize false note.payload.length ∨
      kMaxKeys ≤ ([] : List PendingRecord).length) := by decide
  unfold packMessage
  dsimp only
  rw [show note.reliable = true from rfl, hconfig, hseq, if_pos hfits, if_neg hroom]
  rfl

/-- The message is in its lane. -/
def waiting (t : Transport) : Transport :=
  { t with outbound := [], staged := [⟨0, [note]⟩], stagedCount := 1 }

theorem flush_note (h : Idle t n) :
    (t.send note).1.flushOutbound calm = (flushBatch calm (packed t n)).t := by
  have hrested : Rested t :=
    { h with capacity := by rw [h.config]; decide }
  have hserved : (waiting t).refused calm 0 = false :=
    refused_of_empty h.config h.unacked h.inFlight 0
  rw [flush_single hrested rfl calm fun _ => hserved, ← packMessage_note h]
  rfl

/-- The key of message `n`. -/
def noteKey (n : Nat) : MsgKey := { channel := 0, reliable := true, messageSeq := n }

/-- The message is out, and nothing else is. -/
structure Awaiting (t : Transport) (n : Nat) : Prop where
  config : t.config = {}
  isClosed : t.isClosed = false
  outbound : t.outbound = []
  staged : t.staged = [⟨0, []⟩]
  stagedCount : t.stagedCount = 0
  stagedCursor : t.stagedCursor = 0
  relSend : (t.channels 0).relSend = n + 1
  unacked : ∃ msg : OutReliable,
    (∀ k : MsgKey, t.unacked[k]? = if k = noteKey n then some msg else none) ∧
    msg.packets.entries = [BitVec.ofNat 16 (n + 1)]
  sentPackets : ∃ info : SentInfo, (∀ q : WireSeq, t.sentPackets[q]? =
    if q = BitVec.ofNat 16 (n + 1) then some info else none) ∧ info.keys = [noteKey n]
  inFlight : t.inFlightDatagrams = 1
  nextPacketSeq : t.nextPacketSeq = BitVec.ofNat 16 (n + 2)
  wire : t.wire.length = n + 1
  first : FirstOut t

theorem retireSentPacket_of_none {seq : WireSeq} (h : t.sentPackets[seq]? = none) :
    t.retireSentPacket seq = t := by
  unfold retireSentPacket
  rw [h]

theorem followingSeq_ofNat (h : n + 1 < 65536) :
    followingSeq (BitVec.ofNat 16 n) = BitVec.ofNat 16 (n + 1) := by
  have hne : BitVec.ofNat 16 n + 1 ≠ 0 := by
    intro h0
    have := congrArg BitVec.toNat h0
    simp at this
    omega
  unfold followingSeq
  rw [if_neg hne]
  apply BitVec.eq_of_toNat_eq
  simp

theorem flags_batchHeader (hconfig : t.config = {}) (batch : List PendingRecord) :
    (t.batchHeader 0 batch).flags = kFlagOnline ∧
      (t.batchHeader 0 batch).packetSeq = t.nextPacketSeq := by
  unfold batchHeader
  rw [ZDTAckHistory.fill_flags, ZDTAckHistory.fill_packetSeq, hconfig]
  exact ⟨rfl, rfl⟩

/-- The datagram of message `n`. -/
def noteDatagram (t : Transport) (n : Nat) : Datagram :=
  ⟨t.batchHeader 0 [wholeRecord note 0 n], [wholeRecord note 0 n]⟩

/-- What is tracked of message `n`. -/
def noteEntry (n : Nat) (log : TransmissionLog) : OutReliable :=
  { message := [0], offset := 0, length := 1, channel := 0, messageSeq := BitVec.ofNat 16 n,
    fragIndex := 0, fragCount := 1, dataFlags := recordFlags true true, lastSend := 0,
    sendCount := 1, packets := log }

theorem sendBatch_of_fresh (h : t.sentPackets[t.nextPacketSeq]? = none) (now : TimePoint)
    (flags : BitVec 8) (batch : List PendingRecord) :
    (t.sendBatch now flags batch).1 =
      { t with
        nextPacketSeq := followingSeq t.nextPacketSeq
        sentPackets := t.sentPackets.insert t.nextPacketSeq (batchKeys batch { sendTime := now })
        wire := t.wire ++ [⟨t.batchHeader flags batch, batch⟩]
        needsAck := false
        inFlightDatagrams :=
          if 0 < (batchKeys batch { sendTime := now }).keys.length then t.inFlightDatagrams + 1
          else t.inFlightDatagrams } := by
  unfold sendBatch
  dsimp only
  rw [retireSentPacket_of_none (by exact h)]

/-- The sender with message `n` out. -/
def sentNote (t : Transport) (n : Nat) : Transport :=
  { (packed t n).t with
    nextPacketSeq := followingSeq t.nextPacketSeq
    sentPackets := t.sentPackets.insert t.nextPacketSeq { keys := [noteKey n] }
    wire := t.wire ++ [noteDatagram t n]
    needsAck := false
    inFlightDatagrams := t.inFlightDatagrams + 1
    unacked := (t.unacked.insert (noteKey n) (noteEntry n {})).insert (noteKey n)
      (noteEntry n (makeLog t.nextPacketSeq)) }

theorem flushBatch_note (h : Idle t n) :
    (flushBatch calm (packed t n)).t = sentNote t n := by
  have hfresh : (packed t n).t.sentPackets[(packed t n).t.nextPacketSeq]? = none := by
    show t.sentPackets[t.nextPacketSeq]? = none
    rw [h.sentPackets]
    simp
  have htracked : ((packed t n).t.sendBatch 0 0 [wholeRecord note 0 n]).1.unacked[noteKey n]? =
      some (noteEntry n {}) := by
    rw [unacked_sendBatch]
    show (t.unacked.insert (noteKey n) (noteEntry n {}))[noteKey n]? = _
    rw [Keyed.getElem?_insert_eq, if_pos rfl]
  have hflush : (flushBatch calm (packed t n)).t =
      ((packed t n).t.sendBatch 0 0 [wholeRecord note 0 n]).1.logPacket (noteKey n)
        t.nextPacketSeq :=
    rfl
  rw [hflush]
  unfold logPacket
  rw [htracked, sendBatch_of_fresh hfresh]
  rfl

/-- **The message goes out.** -/
theorem awaiting_sentNote (h : Idle t n) (hn : n + 2 < 65536) :
    Awaiting (sentNote t n) n where
  config := h.config
  isClosed := h.isClosed
  outbound := rfl
  staged := rfl
  stagedCount := rfl
  stagedCursor := h.stagedCursor
  relSend := by
    show (Function.update t.channels 0 _ 0).relSend = n + 1
    rw [Function.update_self]
    exact congrArg (· + 1) h.relSend
  unacked := by
    refine ⟨noteEntry n (makeLog t.nextPacketSeq), fun k => ?_, ?_⟩
    · show ((t.unacked.insert (noteKey n) _).insert (noteKey n) _)[k]? = _
      rw [Keyed.getElem?_insert_eq, Keyed.getElem?_insert_eq, h.unacked]
      split <;> simp
    · rw [h.nextPacketSeq]
      rfl
  sentPackets := by
    refine ⟨{ keys := [noteKey n] }, fun q => ?_, rfl⟩
    show (t.sentPackets.insert t.nextPacketSeq _)[q]? = _
    rw [Std.ExtTreeMap.getElem?_insert, h.sentPackets, h.nextPacketSeq]
    by_cases hq : q = BitVec.ofNat 16 (n + 1)
    · simp [hq]
    · simp [hq, Ne.symm hq]
  inFlight := congrArg (· + 1) h.inFlight
  nextPacketSeq := by
    show followingSeq t.nextPacketSeq = _
    rw [h.nextPacketSeq, followingSeq_ofNat hn]
  wire := by
    show (t.wire ++ [noteDatagram t n]).length = n + 1
    rw [List.length_append, h.wire]
    rfl
  first := by
    show ∃ d, (t.wire ++ [noteDatagram t n])[0]? = some d ∧ _
    rcases Nat.eq_zero_or_pos n with rfl | hpos
    · obtain ⟨hflags, hseq⟩ := flags_batchHeader h.config [wholeRecord note 0 0]
      exact ⟨noteDatagram t 0, by simp [List.length_eq_zero_iff.1 h.wire], rfl, hflags,
        hseq.trans h.nextPacketSeq⟩
    · obtain ⟨d, hd, hrest⟩ := h.first hpos
      exact ⟨d, by rw [List.getElem?_append_left (by rw [h.wire]; exact hpos)]; exact hd, hrest⟩

/-! ## Acknowledgements -/

/-- What a header cannot change. -/
structure Undisturbed (t t' : Transport) : Prop extends SameWaiting t t' where
  nextPacketSeq : t'.nextPacketSeq = t.nextPacketSeq := by rfl
  ackHistory : t'.ackHistory = t.ackHistory := by rfl
  channels : t'.channels = t.channels := by rfl
  wire : t'.wire = t.wire := by rfl

theorem Undisturbed.trans {t' t'' : Transport} (h : Undisturbed t t') (h' : Undisturbed t' t'') :
    Undisturbed t t'' where
  toSameWaiting := h.toSameWaiting.trans h'.toSameWaiting
  nextPacketSeq := h'.nextPacketSeq.trans h.nextPacketSeq
  ackHistory := h'.ackHistory.trans h.ackHistory
  channels := h'.channels.trans h.channels
  wire := h'.wire.trans h.wire

theorem undisturbed_steady (t : Transport) : Zdt.Transport.Steady (Undisturbed t) where
  same h hs := h.trans { hs with }
  update _ _ h := h.trans {}
  retireSentPacket seq h := by
    unfold Transport.retireSentPacket
    split
    · exact h
    · exact h.trans {}
  settle _ h := h.trans {}

theorem undisturbed_afterAcks (t : Transport) (pace : Pace) (header : ZDTHeader) :
    Undisturbed t (t.afterAcks pace header) := by
  unfold Transport.afterAcks
  split
  · exact {}
  · exact (undisturbed_steady t).processAcks pace header {}

/-- A datagram all of whose records are taken. -/
theorem receive_taken (hopen : t.isClosed = false) (pace : Pace)
    (hflags : d.header.flags = kFlagOnline) (hseq : d.header.packetSeq ≠ 0)
    (htaken : (d.records.foldl (takeRecord pace.now)
      { t := t.afterAcks pace d.header }).acceptedAll = true) :
    t.receive (.datagram pace d) =
      (let s := d.records.foldl (takeRecord pace.now) { t := t.afterAcks pace d.header }
       { s.t with ackHistory := s.t.ackHistory.record d.header.packetSeq }) := by
  have hfin : hasFlag d.header.flags kFlagFin = false := by rw [hflags]; rfl
  have hping : hasFlag d.header.flags kFlagPing = false := by rw [hflags]; rfl
  unfold Transport.receive
  rw [hopen, if_neg (by decide)]
  show t.processDatagram pace d = _
  unfold Transport.processDatagram
  rw [← Transport.afterAcks]
  dsimp only
  rw [hfin, hping, if_neg (by decide), if_neg (by decide), if_pos ⟨hseq, htaken⟩]

/-- With nothing tracked the walk does nothing. -/
theorem walk_of_empty (ack : WireSeq) (entries : List (Nat × Bool)) (s : Transport × Nat)
    (h : s.1.sentPackets = ∅) : (entries.foldl (walkStep ack) s).1 = s.1 := by
  refine List.foldlRecOn (motive := fun s' : Transport × Nat => s'.1 = s.1) _ _ rfl
    fun s' hs' entry _ => ?_
  have hnone : ∀ q : WireSeq, s'.1.sentPackets[q]? = none := by
    rw [hs', h]
    simp
  unfold walkStep ackPacket onNak
  dsimp only
  rw [hnone]
  dsimp only
  repeat' split
  all_goals exact hs'

theorem ofNat_ne_zero (hpos : 0 < n) (hn : n < 65536) : BitVec.ofNat 16 n ≠ 0 := by
  intro h
  have := congrArg BitVec.toNat h
  simp at this
  omega

/-- The packet of message `n` is acknowledged. -/
theorem Awaiting.ackPacket (h : Awaiting t n) (hn : n + 2 < 65536) :
    (t.ackPacket (BitVec.ofNat 16 (n + 1))).1.unacked = ∅ ∧
      (t.ackPacket (BitVec.ofNat 16 (n + 1))).1.sentPackets = ∅ ∧
      (t.ackPacket (BitVec.ofNat 16 (n + 1))).1.inFlightDatagrams = 0 := by
  obtain ⟨msg, hunacked, hentries⟩ := h.unacked
  obtain ⟨info, hsent, hkeys⟩ := h.sentPackets
  have hmsg : t.unacked[noteKey n]? = some msg := by rw [hunacked, if_pos rfl]
  have hinfo : t.sentPackets[BitVec.ofNat 16 (n + 1)]? = some info := by rw [hsent, if_pos rfl]
  have hretire : Transport.retireMessage (BitVec.ofNat 16 (n + 1)) t (noteKey n) =
      { t with unacked := t.unacked.erase (noteKey n), acked := t.acked ++ [noteKey n] } := by
    rw [retireMessage_of_some _ hmsg, hentries]
    simp [retireOthers]
  have hack : (t.ackPacket (BitVec.ofNat 16 (n + 1))).1 =
      { t with
        unacked := t.unacked.erase (noteKey n)
        acked := t.acked ++ [noteKey n]
        inFlightDatagrams := 0
        sentPackets := t.sentPackets.erase (BitVec.ofNat 16 (n + 1)) } := by
    unfold Transport.ackPacket
    rw [if_neg (ofNat_ne_zero (Nat.succ_pos n) (by omega)), hinfo]
    dsimp only
    rw [hkeys, List.foldl_cons, List.foldl_nil, hretire]
    unfold Transport.retireSentPacket
    dsimp only
    rw [hinfo]
    simp [hkeys, h.inFlight]
  rw [hack]
  refine ⟨?_, ?_, rfl⟩
  · refine Std.ExtTreeMap.ext_getElem? fun k => ?_
    show (t.unacked.erase (noteKey n))[k]? = _
    rw [Keyed.getElem?_erase_eq, hunacked]
    split <;> simp_all
  · refine Std.ExtTreeMap.ext_getElem? fun q => ?_
    show (t.sentPackets.erase (BitVec.ofNat 16 (n + 1)))[q]? = _
    rw [Std.ExtTreeMap.getElem?_erase, hsent]
    by_cases hq : q = BitVec.ofNat 16 (n + 1)
    · simp [hq]
    · simp [hq]

/-- **The acknowledgement comes in.** -/
theorem Awaiting.settled (h : Awaiting t n) (hn : n + 2 < 65536) (hrecords : d.records = [])
    (hflags : d.header.flags = kFlagOnline) (hseq : d.header.packetSeq ≠ 0)
    (hack : d.header.ack = BitVec.ofNat 16 (n + 1)) {rest : List (Nat × Bool)}
    (hwalk : ackWalk d.header = (0, true) :: rest) :
    Idle (t.receive (.datagram calm d)) (n + 1) := by
  obtain ⟨hunacked, hsent, hflight⟩ := h.ackPacket hn
  have hwalked : ((ackWalk d.header).foldl (walkStep d.header.ack) (t, 0)).1 =
      (t.ackPacket (BitVec.ofNat 16 (n + 1))).1 := by
    have hfirst : (walkStep d.header.ack (t, 0) (0, true)).1 =
        (t.ackPacket (BitVec.ofNat 16 (n + 1))).1 := by
      simp [walkStep, hack]
    rw [hwalk, List.foldl_cons, walk_of_empty _ _ _ (by rw [hfirst]; exact hsent), hfirst]
  have hacks : (t.afterAcks calm d.header).unacked = ∅ ∧
      (t.afterAcks calm d.header).sentPackets = ∅ ∧
      (t.afterAcks calm d.header).inFlightDatagrams = 0 := by
    unfold Transport.afterAcks Transport.processAcks
    rw [if_neg hseq]
    dsimp only
    split <;> exact ⟨hwalked ▸ hunacked, hwalked ▸ hsent, hwalked ▸ hflight⟩
  have hsame := undisturbed_afterAcks t calm d.header
  have hreceive : t.receive (.datagram calm d) =
      { t.afterAcks calm d.header with
        ackHistory := (t.afterAcks calm d.header).ackHistory.record d.header.packetSeq } := by
    rw [receive_taken h.isClosed calm hflags hseq (by rw [hrecords]; rfl), hrecords]
    rfl
  rw [hreceive]
  exact
    { config := hsame.config.trans h.config
      isClosed := hsame.isClosed.trans h.isClosed
      outbound := hsame.outbound.trans h.outbound
      staged := .inr (hsame.staged.trans h.staged)
      stagedCount := hsame.stagedCount.trans h.stagedCount
      stagedCursor := hsame.stagedCursor.trans h.stagedCursor
      relSend := (congrArg (fun c => (c 0).relSend) hsame.channels).trans h.relSend
      unacked := hacks.1
      sentPackets := hacks.2.1
      inFlight := hacks.2.2
      nextPacketSeq := hsame.nextPacketSeq.trans h.nextPacketSeq
      wire := (congrArg List.length hsame.wire).trans h.wire
      first := fun _ => by
        obtain ⟨d, hd, hrest⟩ := h.first
        exact ⟨d, (congrArg (·[0]?) hsame.wire).trans hd, hrest⟩ }

/-! ## The receiver -/

/-- A receiver that has taken the messages before the `n`-th, and nothing else. -/
structure CaughtUp (t : Transport) (n : Nat) : Prop where
  config : t.config = {}
  isClosed : t.isClosed = false
  relExpected : (t.channels 0).relExpected = n
  relReorder : (t.channels 0).relReorder = ∅
  history : n = 0 ∧ t.ackHistory = {} ∨ ∃ seen, Tracks t.ackHistory 1 n seen
  nextPacketSeq : t.nextPacketSeq ≠ 0
  wire : t.wire.length = n

theorem tracks_record {h : ZDTAckHistory} (hh : n = 0 ∧ h = {} ∨ ∃ seen, Tracks h 1 n seen) :
    ∃ seen, Tracks (h.record (BitVec.ofNat 16 (n + 1))) 1 (n + 1) seen := by
  rcases hh with ⟨rfl, rfl⟩ | ⟨seen, hseen⟩
  · exact ⟨_, record_first 1⟩
  · exact ⟨_, record_ahead hseen (Nat.lt_succ_self n) (by omega)⟩

/-- A record that is a whole message is handed on at once. -/
theorem takeRecord_whole (now : TimePoint) (t : Transport) {record : ZDTRecord}
    (h : hasFlag record.flags kRecFragment = false) (data : List UInt8) :
    takeRecord now { t := t } (record, data) =
      { t := { t with needsAck := true }.deliver record data } := by
  unfold takeRecord onRecord
  dsimp only
  rw [h, if_neg (by decide)]
  rfl

theorem whole_note (n : Nat) :
    hasFlag (wholeRecord note 0 n).record.flags kRecFragment = false := by
  show hasFlag (recordFlags true true) kRecFragment = false
  decide

theorem reliable_note (n : Nat) :
    hasFlag (wholeRecord note 0 n).record.flags kRecReliable = true :=
  hasFlag_recordFlags_reliable true true

theorem ordered_note (n : Nat) :
    hasFlag (wholeRecord note 0 n).record.flags kRecOrdered = true := by
  show hasFlag (recordFlags true true) kRecOrdered = true
  decide

theorem reconstructSeqFor_note {α : Type} (ch : ChannelState α) (n : Nat) :
    reconstructSeqFor ch (wholeRecord note 0 n).record =
      reconstructSeq (BitVec.ofNat 16 n) ch.relExpected :=
  if_pos (reliable_note n)

/-- A message of a round is rebuilt and handed on. -/
theorem deliver_note (hexpected : (t.channels 0).relExpected = n)
    (hreorder : (t.channels 0).relReorder = ∅) (payload : List UInt8) :
    ((t.deliver (wholeRecord note 0 n).record payload).channels 0).relExpected = n + 1 ∧
      ((t.deliver (wholeRecord note 0 n).record payload).channels 0).relReorder = ∅ := by
  have hseq : reconstructSeqFor (t.channels 0) (wholeRecord note 0 n).record = n := by
    rw [reconstructSeqFor_note, hexpected]
    exact reconstructSeq_of_window (by omega) (by omega)
  have hdeliver : deliverMessage ⟨t.channels 0, t.ready⟩ (wholeRecord note 0 n).record payload =
      ⟨{ t.channels 0 with relExpected := n + 1 }, t.ready ++ [payload]⟩ := by
    unfold deliverMessage
    dsimp only
    rw [hseq, reliable_note, ordered_note, hexpected]
    have hempty : (t.channels 0).relReorder.size = 0 := by
      rw [hreorder]
      rfl
    rw [hempty]
    simp [drainReorder]
  have hchannels : (t.deliver (wholeRecord note 0 n).record payload).channels 0 =
      { t.channels 0 with relExpected := n + 1 } := by
    show Function.update t.channels 0 (deliverMessage ⟨t.channels 0, t.ready⟩
      (wholeRecord note 0 n).record payload).channel 0 = _
    rw [Function.update_self, hdeliver]
  rw [hchannels]
  exact ⟨rfl, hreorder⟩

/-- The receiver has taken message `n` as well, and has not acknowledged it. -/
structure Owing (t : Transport) (n : Nat) : Prop where
  config : t.config = {}
  isClosed : t.isClosed = false
  relExpected : (t.channels 0).relExpected = n + 1
  relReorder : (t.channels 0).relReorder = ∅
  history : ∃ seen, Tracks t.ackHistory 1 (n + 1) seen
  nextPacketSeq : t.nextPacketSeq ≠ 0
  wire : t.wire.length = n

/-- A datagram with one message of a round. -/
theorem receive_note (hopen : t.isClosed = false) {d : Datagram}
    (hrecords : d.records = [wholeRecord note 0 m]) (hflags : d.header.flags = kFlagOnline)
    (hne : d.header.packetSeq ≠ 0) :
    t.receive (.datagram calm d.arrival) =
      (let u := { t.afterAcks calm d.header with needsAck := true }.deliver
        (wholeRecord note 0 m).record [0]
       { u with ackHistory := u.ackHistory.record d.header.packetSeq }) := by
  have hintake : d.arrival.records.foldl (takeRecord calm.now)
      { t := t.afterAcks calm d.arrival.header } =
      { t := { t.afterAcks calm d.header with needsAck := true }.deliver
          (wholeRecord note 0 m).record [0] } := by
    have hread : d.arrival.records = [((wholeRecord note 0 m).record, [0])] := by
      show d.records.map _ = _
      rw [hrecords]
      rfl
    rw [hread, List.foldl_cons, List.foldl_nil]
    exact takeRecord_whole _ _ (whole_note m) _
  rw [receive_taken hopen calm hflags hne (by rw [hintake]), hintake]
  rfl

/-- **The message comes in.** -/
theorem CaughtUp.owing (h : CaughtUp t n) (hn : n + 2 < 65536) {d : Datagram}
    (hrecords : d.records = [wholeRecord note 0 n]) (hflags : d.header.flags = kFlagOnline)
    (hseq : d.header.packetSeq = BitVec.ofNat 16 (n + 1)) :
    Owing (t.receive (.datagram calm d.arrival)) n := by
  have hne : d.header.packetSeq ≠ 0 := by
    rw [hseq]
    exact ofNat_ne_zero (Nat.succ_pos n) (by omega)
  have hsame := undisturbed_afterAcks t calm d.header
  obtain ⟨hexpected, hreorder⟩ := deliver_note
    (t := { t.afterAcks calm d.header with needsAck := true }) (n := n)
    ((congrArg (fun c => (c 0).relExpected) hsame.channels).trans h.relExpected)
    ((congrArg (fun c => (c 0).relReorder) hsame.channels).trans h.relReorder) [0]
  have hhistory := tracks_record h.history
  rw [← hsame.ackHistory, ← hseq] at hhistory
  rw [receive_note h.isClosed hrecords hflags hne]
  exact ⟨hsame.config.trans h.config, hsame.isClosed.trans h.isClosed, hexpected, hreorder,
    hhistory, fun h0 => h.nextPacketSeq (hsame.nextPacketSeq.symm.trans h0),
    (congrArg List.length hsame.wire).trans h.wire⟩

/-- **The acknowledgement goes out**, and reports the message first. -/
theorem Owing.acknowledged (h : Owing t n) :
    CaughtUp (t.handle (.control 0 0)) (n + 1) ∧
      ∃ d, (t.handle (.control 0 0)).wire[n]? = some d ∧ d.records = [] ∧
        d.header.flags = kFlagOnline ∧ d.header.packetSeq ≠ 0 ∧
        d.header.ack = BitVec.ofNat 16 (n + 1) ∧
        ∃ rest, ackWalk d.header = (0, true) :: rest := by
  obtain ⟨seen, hseen⟩ := h.history
  have hhandle : t.handle (.control 0 0) = (t.sendBatch 0 0 []).1 := by
    unfold Transport.handle
    rw [h.isClosed, if_neg (by decide)]
    rfl
  have hwire := wire_sendBatch t 0 0 []
  obtain ⟨hflags, hpacket⟩ := flags_batchHeader h.config []
  have hsent : (t.sendBatch 0 0 []).1.config = {} ∧ (t.sendBatch 0 0 []).1.isClosed = false ∧
      (t.sendBatch 0 0 []).1.channels = t.channels ∧
      (t.sendBatch 0 0 []).1.ackHistory = t.ackHistory ∧
      (t.sendBatch 0 0 []).1.nextPacketSeq ≠ 0 := by
    have hret := undisturbed_steady { t with nextPacketSeq := followingSeq t.nextPacketSeq }
      |>.retireSentPacket t.nextPacketSeq {}
    exact ⟨hret.config.trans h.config, hret.isClosed.trans h.isClosed, hret.channels,
      hret.ackHistory, fun h0 => followingSeq_ne_zero _ (hret.nextPacketSeq.symm.trans h0)⟩
  obtain ⟨hconfig, hopen, hchannels, hhistory, hnext⟩ := hsent
  rw [hhandle]
  refine ⟨⟨hconfig, hopen, ?_, ?_, .inr ⟨seen, ?_⟩, hnext, ?_⟩,
    ⟨t.batchHeader 0 [], []⟩, ?_, rfl, hflags, ?_, ?_, ?_⟩
  · rw [hchannels, h.relExpected]
  · rw [hchannels, h.relReorder]
  · rw [hhistory]
    exact hseen
  · rw [hwire, List.length_append, h.wire]
    rfl
  · rw [hwire, List.getElem?_append_right h.wire.le, h.wire, Nat.sub_self]
    rfl
  · rw [hpacket]
    exact h.nextPacketSeq
  · show (t.ackHistory.fill _ _ _).ack = _
    rw [ZDTAckHistory.fill_ack, hseen.highest]
  · exact ZDTAckHistory.ackWalk_fill_head hseen _ (by rw [h.config]; decide)
      (Nat.succ_pos _)

/-! ## Rounds -/

/-- A message is sent, taken and acknowledged. -/
def noteRound (n : Nat) : List LinkEvent :=
  [.work .left (.send note), .work .left (.flush calm), .deliver .right n calm,
    .work .right (.control 0 0), .deliver .left n calm]

/-- The first `n` rounds. -/
def lateRounds (n : Nat) : List LinkEvent := (List.range n).flatMap noteRound

/-- The link between two rounds. -/
structure Steady (l : Link) (n : Nat) : Prop where
  sender : Idle (l .left) n
  receiver : CaughtUp (l .right) n

/-- **One round.** -/
theorem steady_round {l : Link} (h : Steady l n) (hn : n + 2 < 65536) :
    ∃ l', link.exec l (noteRound n) = some l' ∧ Steady l' (n + 1) := by
  have hsend : (l .left).handle (.send note) = ((l .left).send note).1 := by
    unfold Transport.handle
    rw [h.sender.isClosed, if_neg (by decide)]
  have hflush : (((l .left).send note).1).handle (.flush calm) = sentNote (l .left) n := by
    have hopen : ((l .left).send note).1.isClosed = false := by
      unfold Transport.send
      repeat' split
      all_goals exact h.sender.isClosed
    unfold Transport.handle
    rw [hopen, if_neg (by decide)]
    exact (flush_note h.sender).trans (flushBatch_note h.sender)
  have hout := awaiting_sentNote h.sender hn
  have hdata : (sentNote (l .left) n).wire[n]? = some (noteDatagram (l .left) n) := by
    show ((l .left).wire ++ [noteDatagram (l .left) n])[n]? = _
    rw [List.getElem?_append_right h.sender.wire.le, h.sender.wire, Nat.sub_self]
    rfl
  obtain ⟨hflags, hpacket⟩ := flags_batchHeader h.sender.config [wholeRecord note 0 n]
  have howing := h.receiver.owing hn (d := noteDatagram (l .left) n) rfl hflags
    (hpacket.trans h.sender.nextPacketSeq)
  obtain ⟨hcaught, d, hd, hrecords, hflags', hseq, hack, rest, hwalk⟩ := howing.acknowledged
  have hidle := hout.settled hn (d := d.arrival) (by rw [Datagram.arrival, hrecords]; rfl)
    hflags' hseq hack hwalk
  -- the five states, with the endpoint that moved
  have h₁ := link_work l .left (e := .send note) rfl
  rw [hsend] at h₁
  have h₂ := link_work (Function.update l .left ((l .left).send note).1) .left
    (e := .flush calm) rfl
  rw [Function.update_self, hflush, Function.update_idem] at h₂
  have hdata' : (Function.update l .left (sentNote (l .left) n) (Side.peer .right)).wire[n]? =
      some (noteDatagram (l .left) n) := by
    rw [Side.peer, Function.update_self]
    exact hdata
  have h₃ := link_deliver hdata' calm
  rw [Function.update_of_ne (by decide)] at h₃
  have h₄ := link_work (Function.update (Function.update l .left (sentNote (l .left) n)) .right
    ((l .right).receive (.datagram calm (noteDatagram (l .left) n).arrival))) .right
    (e := .control 0 0) rfl
  rw [Function.update_self, Function.update_idem] at h₄
  have hd' : (Function.update (Function.update l .left (sentNote (l .left) n)) .right
      (((l .right).receive (.datagram calm (noteDatagram (l .left) n).arrival)).handle
        (.control 0 0)) (Side.peer .left)).wire[n]? = some d := by
    rw [Side.peer, Function.update_self]
    exact hd
  have h₅ := link_deliver hd' calm
  rw [Function.update_of_ne (by decide), Function.update_self] at h₅
  have hround := (link.exec_cons h₁ _).trans ((link.exec_cons h₂ _).trans
    ((link.exec_cons h₃ _).trans ((link.exec_cons h₄ _).trans (link.exec_cons h₅ []))))
  rw [link.exec_nil] at hround
  refine ⟨_, hround, ?_, ?_⟩
  · rw [Function.update_self]
    exact hidle
  · rw [Function.update_of_ne (by decide), Function.update_self]
    exact hcaught

theorem steady_fresh : Steady (freshLink fun _ => {}) 0 where
  sender :=
    { config := rfl, isClosed := rfl, outbound := rfl, staged := .inl rfl, stagedCount := rfl
      stagedCursor := rfl, relSend := rfl, unacked := rfl, sentPackets := rfl, inFlight := rfl
      nextPacketSeq := rfl, wire := rfl, first := fun h => absurd h (Nat.lt_irrefl 0) }
  receiver :=
    { config := rfl, isClosed := rfl, relExpected := rfl, relReorder := rfl
      history := .inl ⟨rfl, rfl⟩, nextPacketSeq := show (1 : WireSeq) ≠ 0 by decide, wire := rfl }

/-- **Any number of rounds**, until packet numbers wrap. -/
theorem steady_rounds (n : Nat) (hn : n + 1 < 65536) :
    ∃ l, link.exec (freshLink fun _ => {}) (lateRounds n) = some l ∧ Steady l n := by
  induction n with
  | zero => exact ⟨_, rfl, steady_fresh⟩
  | succ n ih =>
    obtain ⟨l, hexec, hsteady⟩ := ih (by omega)
    obtain ⟨l', hround, hsteady'⟩ := steady_round hsteady (by omega)
    refine ⟨l', ?_, hsteady'⟩
    rw [lateRounds, List.range_succ, List.flatMap_append, List.flatMap_singleton, ← lateRounds,
      link.exec_append hexec, hround]

/-! ## The copy -/

/-- A message whose number is rebuilt past the one expected is held back under that number. -/
theorem deliver_note_ahead {q : Nat}
    (hq : reconstructSeqFor (t.channels 0) (wholeRecord note 0 m).record = q)
    (hahead : (t.channels 0).relExpected < q) (hreorder : (t.channels 0).relReorder = ∅)
    (payload : List UInt8) :
    ((t.deliver (wholeRecord note 0 m).record payload).channels 0).relReorder[q]? =
      some payload := by
  have hdeliver : (deliverMessage ⟨t.channels 0, t.ready⟩ (wholeRecord note 0 m).record
      payload).channel.relReorder = (t.channels 0).relReorder.insertIfNew q payload := by
    unfold deliverMessage
    dsimp only
    rw [hq, reliable_note, ordered_note, if_neg (by decide), if_neg (by decide),
      if_neg (by decide), if_neg (Nat.not_lt.2 hahead.le), if_neg hahead.ne']
  show (Function.update t.channels 0 (deliverMessage ⟨t.channels 0, t.ready⟩
    (wholeRecord note 0 m).record payload).channel 0).relReorder[q]? = _
  rw [Function.update_self, hdeliver, hreorder, Std.ExtTreeMap.getElem?_insertIfNew,
    if_pos ⟨by simp, by simp⟩]

/-- **A late copy is misnumbered.**  All 32769 messages so far were acknowledged, nothing is in
flight, and the sender's stall has nothing to hold back.  The first datagram arrives a second
time: its only record was sent under the number 0, is taken for message 65536, and is held back
until that one is due. -/
theorem late_copy_misnumbered :
    ∃ (l : Link) (d : Datagram) (p : PendingRecord),
      link.exec (freshLink fun _ => {}) (lateRounds 32769) = some l ∧
      (l .left).unacked = ∅ ∧ (l .left).wire[0]? = some d ∧ d.records = [p] ∧
      p.reliable = true ∧ p.key.messageSeq = 0 ∧
      reconstructSeqFor (((l .right).reading calm d.header []).channels p.record.channel)
        (deliveredAs p.record) = 65536 ∧
      (((l .right).receive (.datagram calm d.arrival)).channels 0).relReorder[65536]? =
        some [0] := by
  obtain ⟨l, hexec, hsteady⟩ := steady_rounds 32769 (by decide)
  obtain ⟨d, hd, hrecords, hflags, hpacket⟩ := hsteady.sender.first (by decide)
  have hsame := undisturbed_afterAcks (l .right) calm d.header
  have hexpected : (((l .right).afterAcks calm d.header).channels 0).relExpected = 32769 :=
    (congrArg (fun c => (c 0).relExpected) hsame.channels).trans hsteady.receiver.relExpected
  have hreorder : (((l .right).afterAcks calm d.header).channels 0).relReorder = ∅ :=
    (congrArg (fun c => (c 0).relReorder) hsame.channels).trans hsteady.receiver.relReorder
  have hseq : reconstructSeqFor (((l .right).afterAcks calm d.header).channels 0)
      (wholeRecord note 0 0).record = 65536 := by
    rw [reconstructSeqFor_note, hexpected]
    decide
  refine ⟨l, d, wholeRecord note 0 0, hexec, hsteady.sender.unacked, hd, hrecords, rfl, rfl,
    (reconstructSeqFor_deliveredAs _ _).trans hseq, ?_⟩
  rw [receive_note hsteady.receiver.isClosed hrecords hflags (by rw [hpacket]; decide)]
  exact deliver_note_ahead (t := { (l .right).afterAcks calm d.header with needsAck := true })
    hseq (by rw [hexpected]; decide) hreorder [0]

end Zdt
end Znet

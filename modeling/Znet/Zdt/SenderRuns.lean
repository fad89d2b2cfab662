import Znet.Lib.Machine
import Znet.Zdt.Acks

/-!
# Runs of a sender

Every function of the send path is made of a few changes to the transport: a datagram is
sent, a record is tracked, logged, marked or retired, a sequence number is taken.  An
invariant that each of these keeps is kept by every function, and so by every run.
-/

namespace Znet
namespace Zdt
namespace Transport

/-- Two transports that agree on what the send path tracks, on what is being received and on
the histories. -/
structure SameCore (t t' : Transport) : Prop where
  config : t'.config = t.config := by rfl
  nextPacketSeq : t'.nextPacketSeq = t.nextPacketSeq := by rfl
  isClosed : t'.isClosed = t.isClosed := by rfl
  sentPackets : t'.sentPackets = t.sentPackets := by rfl
  inFlightDatagrams : t'.inFlightDatagrams = t.inFlightDatagrams := by rfl
  unacked : t'.unacked = t.unacked := by rfl
  ackHistory : t'.ackHistory = t.ackHistory := by rfl
  channels : t'.channels = t.channels := by rfl
  ready : t'.ready = t.ready := by rfl
  wire : t'.wire = t.wire := by rfl
  acked : t'.acked = t.acked := by rfl
  reassembly : t'.reassembly = t.reassembly := by rfl
  handed : t'.handed = t.handed := by rfl

/-- They also agree on what waits to be sent. -/
structure SameQueues (t t' : Transport) : Prop extends SameCore t t' where
  outbound : t'.outbound = t.outbound := by rfl
  staged : t'.staged = t.staged := by rfl
  stagedCount : t'.stagedCount = t.stagedCount := by rfl
  stagedCursor : t'.stagedCursor = t.stagedCursor := by rfl

/-- Two states of a tracked record, which send the same. -/
structure SameRecord (msg msg' : OutReliable) : Prop where
  message : msg'.message = msg.message := by rfl
  offset : msg'.offset = msg.offset := by rfl
  length : msg'.length = msg.length := by rfl
  channel : msg'.channel = msg.channel := by rfl
  messageSeq : msg'.messageSeq = msg.messageSeq := by rfl
  fragIndex : msg'.fragIndex = msg.fragIndex := by rfl
  fragCount : msg'.fragCount = msg.fragCount := by rfl
  dataFlags : msg'.dataFlags = msg.dataFlags := by rfl

variable {a b : OutReliable} {t : Transport} {entry : MsgKey × OutReliable} {queued : QueuedOut}
  {lane : StagedLane} {accepts : QueuedOut → Prop}

theorem SameRecord.trans {c : OutReliable} (h : SameRecord a b) (h' : SameRecord b c) :
    SameRecord a c where
  message := h'.message.trans h.message
  offset := h'.offset.trans h.offset
  length := h'.length.trans h.length
  channel := h'.channel.trans h.channel
  messageSeq := h'.messageSeq.trans h.messageSeq
  fragIndex := h'.fragIndex.trans h.fragIndex
  fragCount := h'.fragCount.trans h.fragCount
  dataFlags := h'.dataFlags.trans h.dataFlags

theorem SameRecord.symm (h : SameRecord a b) : SameRecord b a where
  message := h.message.symm
  offset := h.offset.symm
  length := h.length.symm
  channel := h.channel.symm
  messageSeq := h.messageSeq.symm
  fragIndex := h.fragIndex.symm
  fragCount := h.fragCount.symm
  dataFlags := h.dataFlags.symm

/-- A record sends the same again. -/
theorem SameRecord.resentRecord {msg msg' : OutReliable} (h : SameRecord msg msg') (key : MsgKey) :
    resentRecord key msg' = resentRecord key msg := by
  simp only [Transport.resentRecord, h.message, h.offset, h.length, h.channel, h.fragIndex,
    h.fragCount, h.dataFlags]

/-- The changes acknowledgements make keep `I`. -/
structure Steady (I : Transport → Prop) : Prop where
  same : ∀ {t t'}, I t → SameQueues t t' → I t'
  /-- A tracked record gets another send time or a longer log. -/
  update : ∀ {t : Transport} {key : MsgKey} {msg msg' : OutReliable}, t.unacked[key]? = some msg →
    SameRecord msg msg' → I t → I { t with unacked := t.unacked.insert key msg' }
  retireSentPacket : ∀ {t} seq, I t → I (t.retireSentPacket seq)
  /-- A message is acknowledged. -/
  settle : ∀ {t} key, I t → I { t with unacked := t.unacked.erase key, acked := t.acked ++ [key] }

/-- So do those that send again. -/
structure Resends (I : Transport → Prop) : Prop extends Steady I where
  close : ∀ {t}, I t → I t.close
  resend : ∀ {t : Transport} {key : MsgKey} {msg : OutReliable} (now : TimePoint), I t →
    t.unacked[key]? = some msg → I (t.sendBatch now 0 [resentRecord key msg]).1

/-- The changes of `FlushOutbound` keep `P`. -/
structure Flushes (P : Packing → Prop) : Prop where
  stage : ∀ {s : Packing}, P s → P { s with t := s.t.stageOutbound.1 }
  rotate : ∀ {s : Packing}, P s → P { s with t := s.t.rotate }
  /-- A lane's first message is packed. -/
  pack : ∀ {s : Packing} {i : Nat} {lane : StagedLane} {queued : QueuedOut} {rest : List QueuedOut}
    (pace : Pace), P s → s.t.staged[i]? = some lane → lane.messages = queued :: rest →
    P (packMessage pace { s with t := { s.t with
      staged := s.t.staged.set i { lane with messages := rest }
      stagedCount := s.t.stagedCount - 1 } } queued lane.channel)
  flush : ∀ {s : Packing} (pace : Pace), P s → P { t := (flushBatch pace s).t }

/-- The changes of the main loop of `FlushOutbound` keep `P`, where each is made only as the loop
makes it: the ring is drained when no lane holds a message, and a reliable message is packed
when the window does not refuse it. -/
structure Serves (pace : Pace) (P : Packing → Prop) : Prop where
  refill : ∀ {s : Packing}, P s → s.t.stagedCount = 0 → P { s with t := s.t.stageOutbound.1 }
  rotate : ∀ {s : Packing}, P s → P { s with t := s.t.rotate }
  pack : ∀ {s : Packing} {i : Nat} {lane : StagedLane} {queued : QueuedOut} {rest : List QueuedOut},
    P s → s.t.staged[i]? = some lane → lane.messages = queued :: rest →
    (queued.reliable && s.t.refused pace lane.channel) = false →
    P (packMessage pace { s with t := { s.t with
      staged := s.t.staged.set i { lane with messages := rest }
      stagedCount := s.t.stagedCount - 1 } } queued lane.channel)

/-- The changes that take no message from the queues keep `I`; `good` is what is known of every
record that is sent. -/
structure Tended (good : PendingRecord → Prop) (I : Transport → Prop) : Prop extends
    Steady I where
  close : ∀ {t}, I t → I t.close
  sendBatch : ∀ {t} now flags batch, (∀ p ∈ batch, good p) → I t →
    I (t.sendBatch now flags batch).1
  trackReliable : ∀ {t} pace pending offset log, good pending → pending.reliable = true → I t →
    I (t.trackReliable pace pending offset log)
  /-- A tracked record makes a good one again. -/
  resent : ∀ {t : Transport} {key : MsgKey} {msg : OutReliable}, I t →
    t.unacked[key]? = some msg → good (resentRecord key msg)

/-- So do those that take one, with its sequence number; new records are good. -/
structure Kept (good : PendingRecord → Prop) (I : Transport → Prop) : Prop extends
    Tended good I where
  requeue : ∀ {t t'}, I t → SameCore t t' → I t'
  takeSeq : ∀ {t} channel reliable, I t → I (t.takeSeq channel reliable).1
  whole : ∀ queued channel seq, good (wholeRecord queued channel seq)
  fragment : ∀ config queued channel seq count i,
    good (fragmentRecord config queued channel seq count i)

/-! ## Acknowledgements -/

section Steady

variable {I : Transport → Prop} (h : Steady I)
include h

variable {t : Transport}

theorem Steady.rearmTailProbe (pace : Pace) (ht : I t) : I (t.rearmTailProbe pace) :=
  h.same ht {}

variable (seq : WireSeq) (key : MsgKey)

theorem Steady.logPacket (packet : WireSeq) (ht : I t) : I (t.logPacket key packet) := by
  unfold Transport.logPacket
  split
  · exact ht
  · next hmsg => exact h.update hmsg {} ht

theorem Steady.retireMessage (packetSeq : WireSeq) (key : MsgKey) (ht : I t) :
    I (Transport.retireMessage packetSeq t key) := by
  unfold Transport.retireMessage
  split
  · exact ht
  · refine h.settle key (List.foldlRecOn _ _ ht fun t ht seq _ => ?_)
    split
    · exact ht
    · exact h.retireSentPacket seq ht

theorem Steady.markLost (ht : I t) : I (t.markLost key) := by
  unfold Transport.markLost
  split
  · exact ht
  · next msg hmsg =>
    have hsame : SameRecord msg { msg with lastSend := 0 } := {}
    exact h.same (h.update hmsg hsame ht) {}

theorem Steady.ackPacket (ht : I t) : I (t.ackPacket seq).1 := by
  unfold Transport.ackPacket
  split
  · exact ht
  · split
    · exact ht
    · exact h.retireSentPacket _
        (List.foldlRecOn _ _ ht fun _ ht key _ => h.retireMessage seq key ht)

theorem Steady.onNak (ht : I t) : I (t.onNak seq) := by
  unfold Transport.onNak
  split
  · exact ht
  · exact h.retireSentPacket _ (List.foldlRecOn _ _ ht fun _ ht key _ => h.markLost key ht)

theorem Steady.processAcks (pace : Pace) (header : ZDTHeader) (ht : I t) :
    I (t.processAcks pace header) := by
  have hwalk : I ((ackWalk header).foldl (walkStep header.ack) (t, 0)).1 := by
    refine List.foldlRecOn (motive := fun s : Transport × Nat => I s.1) _ _ ht
      fun s hs entry _ => ?_
    unfold walkStep
    split
    · exact h.ackPacket _ hs
    · exact h.onNak _ hs
  unfold Transport.processAcks
  dsimp only
  split
  · exact h.rearmTailProbe pace hwalk
  · exact hwalk

/-- What is sent of a batch is logged with each of its records. -/
theorem Steady.flushBatch {s : Packing} (pace : Pace) (hempty : s.batch = [] → I s.t)
    (hsend : s.batch ≠ [] → I (s.t.sendBatch pace.now 0 s.batch).1) : I (flushBatch pace s).t := by
  unfold Transport.flushBatch
  split
  · next hnil => exact hempty (by simpa using hnil)
  · next hnil =>
    refine List.foldlRecOn _ _ (hsend (by simpa using hnil)) fun t ht p _ => ?_
    split
    · exact h.logPacket _ _ ht
    · exact ht

theorem Steady.pruneSentPackets (now : TimePoint) (ht : I t) :
    I (t.pruneSentPackets now) := by
  refine List.foldlRecOn _ _ ht fun t ht entry _ => ?_
  split
  · exact h.retireSentPacket _ ht
  · exact ht

end Steady

/-! ## Retransmission -/

/-- What `SendBatch` does, but for its bookkeeping. -/
theorem sendBatch_eq (t : Transport) (now : TimePoint) (flags : BitVec 8)
    (batch : List PendingRecord) : ∃ sent flight, (t.sendBatch now flags batch).1 =
      { t with
        nextPacketSeq := followingSeq t.nextPacketSeq
        sentPackets := sent
        wire := t.wire ++ [⟨t.batchHeader flags batch, batch⟩]
        needsAck := false
        inFlightDatagrams := flight } := by
  unfold sendBatch retireSentPacket
  dsimp only
  split <;> exact ⟨_, _, rfl⟩

@[simp] theorem unacked_sendBatch (t : Transport) (now : TimePoint) (flags : BitVec 8)
    (batch : List PendingRecord) : (t.sendBatch now flags batch).1.unacked = t.unacked := by
  simp [Transport.sendBatch]

theorem wire_sendBatch (t : Transport) (now : TimePoint) (flags : BitVec 8)
    (batch : List PendingRecord) :
    (t.sendBatch now flags batch).1.wire = t.wire ++ [⟨t.batchHeader flags batch, batch⟩] := by
  obtain ⟨sent, flight, heq⟩ := sendBatch_eq t now flags batch
  rw [heq]

theorem config_sendBatch (t : Transport) (now : TimePoint) (flags : BitVec 8)
    (batch : List PendingRecord) : (t.sendBatch now flags batch).1.config = t.config := by
  obtain ⟨sent, flight, heq⟩ := sendBatch_eq t now flags batch
  rw [heq]

theorem unacked_resendReliable (t : Transport) (now : TimePoint) (key : MsgKey)
    (msg : OutReliable) : (t.resendReliable now key msg).1.unacked = t.unacked :=
  unacked_sendBatch _ _ _ _

/-- The entries of a scan are tracked, and send what they sent when it began. -/
def InScan (t : Transport) (entries : List (MsgKey × OutReliable)) : Prop :=
  ∀ entry ∈ entries, ∃ old : OutReliable, t.unacked[entry.1]? = some old ∧ SameRecord old entry.2

theorem unacked_of_mem_toList (hentry : entry ∈ t.unacked.toList) :
    t.unacked[entry.1]? = some entry.2 :=
  Std.ExtTreeMap.mem_toList_iff_getElem?_eq_some.1 hentry

theorem newestEntry_mem {entries : List (MsgKey × OutReliable)}
    (hentry : newestEntry entries = some entry) : entry ∈ entries := by
  cases entries with
  | nil => cases hentry
  | cons first rest =>
    cases hentry
    refine List.foldlRecOn (motive := (· ∈ first :: rest)) _ _ List.mem_cons_self
      fun newest hnewest e he => ?_
    split
    · exact List.mem_cons_of_mem _ he
    · exact hnewest

section Resends

variable {I : Transport → Prop} (h : Resends I)
include h

variable {t : Transport}

/-- A tracked record is sent again, and its entry brought up to date. -/
theorem Resends.resendReliable (now : TimePoint) {key : MsgKey} {old msg msg' : OutReliable}
    (hold : t.unacked[key]? = some old) (hsame : SameRecord old msg) (hsame' : SameRecord old msg')
    (ht : I t) :
    I { (t.resendReliable now key msg).1 with
      unacked := (t.resendReliable now key msg).1.unacked.insert key msg' } := by
  have htracked : (t.resendReliable now key msg).1.unacked[key]? = some old := by
    rw [unacked_resendReliable]
    exact hold
  have hsent : I (t.resendReliable now key msg).1 := by
    show I (t.sendBatch now 0 [resentRecord key msg]).1
    rw [hsame.resentRecord key]
    exact h.resend now ht hold
  exact h.update htracked hsame' hsent

theorem Resends.retransmitScan (pace : Pace) (entries : List (MsgKey × OutReliable))
    (earliest : TimePoint) (hlisted : InScan t entries) (ht : I t) :
    I (retransmitScan pace entries t earliest) := by
  induction entries generalizing t earliest with
  | nil => exact h.same ht {}
  | cons entry rest ih =>
    obtain ⟨key, msg⟩ := entry
    obtain ⟨old, hold, hsame⟩ := hlisted (key, msg) List.mem_cons_self
    have hrest : InScan t rest := fun entry hentry => hlisted entry (List.mem_cons_of_mem _ hentry)
    unfold Transport.retransmitScan
    dsimp only
    split
    · exact ih _ hrest ht
    · split
      · exact h.close ht
      · have hsame' : SameRecord old { (t.resendReliable pace.now key msg).2 with
            lastSend := pace.now, sendCount := msg.sendCount + 1 } := hsame.trans {}
        refine ih _ (fun entry hentry => ?_)
          (h.same (h.resendReliable pace.now hold hsame hsame' ht) {})
        obtain ⟨old', hold', hentry'⟩ := hrest entry hentry
        by_cases hkey : entry.1 = key
        · obtain rfl : old' = old := Option.some.inj (by rw [← hold', hkey, hold])
          refine ⟨_, ?_, hsame'.symm.trans hentry'⟩
          rw [Keyed.getElem?_insert_eq, if_pos hkey]
          rfl
        · refine ⟨old', ?_, hentry'⟩
          rw [Keyed.getElem?_insert_eq, if_neg hkey, unacked_resendReliable]
          exact hold'

theorem Resends.retransmitUnacked (pace : Pace) (ht : I t) :
    I (t.retransmitUnacked pace) := by
  unfold Transport.retransmitUnacked
  split
  · exact ht
  · exact h.retransmitScan pace _ _ (fun _ hentry => ⟨_, unacked_of_mem_toList hentry, {}⟩) ht

theorem Resends.maybeTailProbe (pace : Pace) (ht : I t) :
    I (t.maybeTailProbe pace) := by
  unfold Transport.maybeTailProbe
  split
  · exact ht
  · split
    · exact ht
    · next key msg hnewest =>
      have hmsg := unacked_of_mem_toList (newestEntry_mem hnewest)
      have hsame : SameRecord msg (t.resendReliable pace.now key msg).2 := {}
      exact h.same (h.resendReliable pace.now hmsg {} hsame ht) {}

end Resends

/-! ## Flushing -/

section Serves

variable {pace : Pace} {P : Packing → Prop} (h : Serves pace P)
include h

theorem Serves.serveLane {s : Packing × Bool} (i : Nat) (hs : P s.1) :
    P (serveLane pace s i).1 := by
  unfold Transport.serveLane
  split
  · exact hs
  · next lane hlane =>
    split
    · exact hs
    · next queued rest hmessages =>
      split
      · exact hs
      · next hserved => exact h.pack hs hlane hmessages (by simpa using hserved)

variable {s : Packing}

theorem Serves.refilled (hs : P s) : P { s with t := s.t.refill } := by
  unfold Transport.refill
  split
  · next hempty => exact h.refill hs hempty
  · exact hs

theorem Serves.servePass (hs : P s) : P (servePass pace s).1 :=
  List.foldlRecOn (motive := fun acc : Packing × Bool => P acc.1) _ _ hs
    fun _ hacc _ _ => h.serveLane _ hacc

theorem Serves.flushLoop (fuel : Nat) (hs : P s) :
    P (flushLoop pace fuel s) := by
  induction fuel generalizing s with
  | zero => exact hs
  | succ fuel ih =>
    have hrefill := h.refilled hs
    have hpass := h.servePass hrefill
    unfold Transport.flushLoop
    dsimp only
    split
    · exact hrefill
    · split
      · exact ih (h.rotate hpass)
      · exact hpass

end Serves

section Flushes

variable {P : Packing → Prop} (h : Flushes P)
include h

theorem Flushes.serves (pace : Pace) : Serves pace P where
  refill hs _ := h.stage hs
  rotate := h.rotate
  pack hs hlane hmessages _ := h.pack pace hs hlane hmessages

theorem Flushes.flushOutbound {t : Transport} (pace : Pace) (ht : P { t := t }) :
    P { t := t.flushOutbound pace } := by
  unfold Transport.flushOutbound
  refine h.flush pace ((h.serves pace).flushLoop _ ?_)
  split
  · exact h.stage ht
  · exact ht

end Flushes

/-! ## What waits to be sent -/

/-- Every message that is queued or staged was accepted. -/
structure Waits (accepts : QueuedOut → Prop) (t : Transport) : Prop where
  outbound : ∀ queued ∈ t.outbound, accepts queued
  staged : ∀ lane ∈ t.staged, ∀ queued ∈ lane.messages, accepts queued

theorem mem_stageInto {lanes : List StagedLane} (h : lane ∈ stageInto queued lanes) {q : QueuedOut}
    (hq : q ∈ lane.messages) :
    q = queued ∨ ∃ l ∈ lanes, q ∈ l.messages := by
  induction lanes with
  | nil =>
    obtain rfl : lane = { channel := queued.channel, messages := [queued] } := by
      simpa [stageInto] using h
    exact .inl (by simpa using hq)
  | cons first rest ih =>
    rw [stageInto] at h
    split at h
    · rcases List.mem_cons.1 h with rfl | h
      · rcases List.mem_append.1 hq with hq | hq
        · exact .inr ⟨first, List.mem_cons_self, hq⟩
        · exact .inl (by simpa using hq)
      · exact .inr ⟨lane, List.mem_cons_of_mem _ h, hq⟩
    · rcases List.mem_cons.1 h with rfl | h
      · exact .inr ⟨lane, List.mem_cons_self, hq⟩
      · exact (ih h).imp id fun ⟨l, hl, hmem⟩ => ⟨l, List.mem_cons_of_mem _ hl, hmem⟩

theorem Waits.stageOutbound (h : Waits accepts t) :
    Waits accepts t.stageOutbound.1 where
  outbound := by simp [Transport.stageOutbound]
  staged := by
    refine List.foldlRecOn (motive := fun lanes : List StagedLane => ∀ lane ∈ lanes,
      ∀ queued ∈ lane.messages, accepts queued) _ _ h.staged ?_
    intro lanes hlanes queued hqueued lane hlane q hq
    rcases mem_stageInto hlane hq with rfl | ⟨l, hl, hmem⟩
    · exact h.outbound q hqueued
    · exact hlanes l hl q hmem

/-- A lane's first message is taken out. -/
theorem Waits.serve (h : Waits accepts t) {i : Nat} {rest : List QueuedOut}
    (hlane : t.staged[i]? = some lane) (hmessages : lane.messages = queued :: rest) :
    accepts queued ∧ Waits accepts { t with
      staged := t.staged.set i { lane with messages := rest }
      stagedCount := t.stagedCount - 1 } := by
  have hall := h.staged lane (List.mem_of_getElem? hlane)
  rw [hmessages] at hall
  refine ⟨hall queued List.mem_cons_self, h.outbound, fun l hl q hq => ?_⟩
  rcases List.mem_or_eq_of_mem_set hl with hl | rfl
  · exact h.staged l hl q hq
  · exact hall q (List.mem_cons_of_mem _ hq)

theorem Waits.accept (h : Waits accepts t) (hqueued : accepts queued) :
    Waits accepts { t with outbound := t.outbound ++ [queued] } where
  outbound := List.forall_mem_append.2 ⟨h.outbound, List.forall_mem_singleton.2 hqueued⟩
  staged := h.staged

/-! ## Flushing one message -/

/-- Two transports with the same queues, both open or both closed. -/
structure SameWaiting (t t' : Transport) : Prop where
  config : t'.config = t.config := by rfl
  isClosed : t'.isClosed = t.isClosed := by rfl
  outbound : t'.outbound = t.outbound := by rfl
  staged : t'.staged = t.staged := by rfl
  stagedCount : t'.stagedCount = t.stagedCount := by rfl
  stagedCursor : t'.stagedCursor = t.stagedCursor := by rfl

theorem SameWaiting.trans {a b c : Transport} (h : SameWaiting a b) (h' : SameWaiting b c) :
    SameWaiting a c where
  config := h'.config.trans h.config
  isClosed := h'.isClosed.trans h.isClosed
  outbound := h'.outbound.trans h.outbound
  staged := h'.staged.trans h.staged
  stagedCount := h'.stagedCount.trans h.stagedCount
  stagedCursor := h'.stagedCursor.trans h.stagedCursor

theorem sameWaiting_sendBatch (t : Transport) (now : TimePoint) (flags : BitVec 8)
    (batch : List PendingRecord) : SameWaiting t (t.sendBatch now flags batch).1 := by
  obtain ⟨sent, flight, heq⟩ := sendBatch_eq t now flags batch
  rw [heq]
  exact {}

theorem sameWaiting_steady (t : Transport) : Steady (SameWaiting t) where
  same h hsame := h.trans { hsame with }
  update _ _ h := h.trans {}
  retireSentPacket seq h := by
    unfold Transport.retireSentPacket
    split
    · exact h
    · exact h.trans {}
  settle _ h := h.trans {}

theorem sameWaiting_flushBatch (pace : Pace) (s : Packing) :
    SameWaiting s.t (flushBatch pace s).t := by
  apply (sameWaiting_steady s.t).flushBatch pace
  · intro _
    exact {}
  · intro _
    exact sameWaiting_sendBatch _ _ _ _

theorem sameWaiting_sendFragment (pace : Pace) (queued : QueuedOut) (channel : BitVec 8)
    (seq count : Nat) (t : Transport) (i : Nat) :
    SameWaiting t (sendFragment pace queued channel seq count t i) := by
  have hsent := sameWaiting_sendBatch t pace.now 0
    [fragmentRecord t.config queued channel seq count i]
  unfold sendFragment
  dsimp only
  split
  · exact hsent.trans {}
  · exact hsent

/-- **What `pack_message` does**, once the message's number is taken.  A message that fits goes
behind the batch, which is sent first when it has no room; of another the batch is sent and then
`n` fragments, all of them or, if they are too many, none. -/
theorem packMessage_of {P : Packing → Prop} {s s₀ : Packing} {seq : Nat} (pace : Pace)
    (queued : QueuedOut) (channel : BitVec 8)
    (hs₀ : { s with t := (s.t.takeSeq channel queued.reliable).1 } = s₀)
    (hseq : (s.t.takeSeq channel queued.reliable).2 = seq)
    (hwhole : queued.payload.length ≤ unfragCapacity s.t.config → ∀ s' : Packing,
      s' = flushBatch pace s₀ ∨ s' = s₀ ∧ ¬ (packMtu s.t.config <
        s.batchBytes + zdtRecordSize false queued.payload.length ∨ kMaxKeys ≤ s.batch.length) →
      P { t := if queued.reliable then
            s'.t.trackReliable pace (wholeRecord queued channel seq) 0 {} else s'.t
          batch := s'.batch ++ [wholeRecord queued channel seq]
          batchBytes := s'.batchBytes + zdtRecordSize false queued.payload.length })
    (hsplit : ¬ queued.payload.length ≤ unfragCapacity s.t.config → ∀ n,
      n = (if 255 < fragmentCount s.t.config queued.payload.length then 0
        else fragmentCount s.t.config queued.payload.length) →
      P { flushBatch pace s₀ with
          t := (List.range n).foldl (sendFragment pace queued channel seq
            (fragmentCount s.t.config queued.payload.length)) (flushBatch pace s₀).t }) :
    P (packMessage pace s queued channel) := by
  subst hs₀ hseq
  unfold packMessage
  dsimp only
  split
  · next hfit =>
    refine hwhole hfit _ ?_
    split
    · exact .inl rfl
    · next hroom => exact .inr ⟨rfl, hroom⟩
  · next hbig =>
    split
    · next hmany => exact hsplit hbig 0 (if_pos hmany).symm
    · next hfew => exact hsplit hbig _ (if_neg hfew).symm

/-- Packing takes nothing from the queues. -/
theorem sameWaiting_packMessage (pace : Pace) (s : Packing) (queued : QueuedOut)
    (channel : BitVec 8) : SameWaiting s.t (packMessage pace s queued channel).t := by
  have hseq : SameWaiting s.t (s.t.takeSeq channel queued.reliable).1 := {}
  have hflushed := hseq.trans (sameWaiting_flushBatch pace
    { s with t := (s.t.takeSeq channel queued.reliable).1 })
  refine packMessage_of (P := fun s' => SameWaiting s.t s'.t) pace queued channel rfl rfl
    (fun _ s' hs' => ?_) fun _ n _ => ?_
  · have hs' : SameWaiting s.t s'.t := by
      rcases hs' with rfl | ⟨rfl, -⟩
      · exact hflushed
      · exact hseq
    dsimp only
    split
    · exact hs'.trans {}
    · exact hs'
  · refine List.foldlRecOn (motive := SameWaiting s.t) _ _ hflushed ?_
    intro t ht i _
    exact ht.trans (sameWaiting_sendFragment pace queued channel _ _ t i)

/-- Open, with nothing to send and at most the lane of channel 0. -/
structure Rested (t : Transport) : Prop where
  isClosed : t.isClosed = false
  capacity : 0 < t.config.outboundQueueCapacity
  outbound : t.outbound = []
  staged : t.staged = [] ∨ t.staged = [⟨0, []⟩]
  stagedCount : t.stagedCount = 0
  stagedCursor : t.stagedCursor = 0

theorem stageOutbound_of_empty (h : t.outbound = []) : t.stageOutbound.1 = t := by
  cases t
  obtain rfl := h
  rfl

/-- The transport with one message in the lane of channel 0. -/
def lined (t : Transport) (messages : List QueuedOut) : Transport :=
  { t with outbound := [], staged := [⟨0, messages⟩], stagedCount := messages.length }

theorem send_rested (h : Rested t) (queued : QueuedOut) :
    t.send queued = ({ t with outbound := [queued] }, true) := by
  have hroom := ringCapacity_pos t.config
  unfold send
  rw [h.isClosed, if_neg (by decide), h.outbound, List.length_nil,
    if_neg (Nat.not_le.2 hroom)]
  rfl

theorem stageOutbound_single (h : Rested t) (hchannel : queued.channel = 0) :
    ({ t with outbound := [queued] } : Transport).stageOutbound.1 = t.lined [queued] := by
  rcases h.staged with hs | hs <;> simp [stageOutbound, hs, stageInto, lined,
    h.stagedCount, hchannel]

theorem servePass_single (h : Rested t) (pace : Pace)
    (hserved : queued.reliable = true → (t.lined [queued]).refused pace 0 = false) :
    servePass pace { t := t.lined [queued] } =
      (packMessage pace { t := t.lined [] } queued 0, true) := by
  have hlane : serveLane pace ({ t := t.lined [queued] }, false) 0 =
      (packMessage pace { t := t.lined [] } queued 0, true) := by
    have hfirst : (t.lined [queued]).staged[0]? = some ⟨0, [queued]⟩ := rfl
    have hgo : ¬ (queued.reliable && (t.lined [queued]).refused pace 0) = true := by
      intro hboth
      obtain ⟨hrel, hrefused⟩ := Bool.and_eq_true_iff.1 hboth
      rw [hserved hrel] at hrefused
      cases hrefused
    unfold serveLane
    dsimp only
    rw [hfirst]
    dsimp only
    rw [if_neg hgo]
    rfl
  have hcursor : (t.lined [queued]).stagedCursor = 0 := h.stagedCursor
  have hlanes : (t.lined [queued]).staged.length = 1 := rfl
  simp only [servePass, hlanes, hcursor, List.range_one, List.foldl_cons, List.foldl_nil,
    Nat.mod_one, hlane]

/-- **One message.**  `FlushOutbound` packs it and sends what was packed. -/
theorem flush_single (h : Rested t) (hchannel : queued.channel = 0) (pace : Pace)
    (hserved : queued.reliable = true → (t.lined [queued]).refused pace 0 = false) :
    (t.send queued).1.flushOutbound pace =
      (flushBatch pace (packMessage pace { t := t.lined [] } queued 0)).t := by
  have hcap : ({ t with outbound := [queued] } : Transport).stagedCount <
      ({ t with outbound := [queued] } : Transport).config.outboundQueueCapacity := by
    rw [show ({ t with outbound := [queued] } : Transport).stagedCount = 0 from h.stagedCount]
    exact h.capacity
  have hpacked := sameWaiting_packMessage pace { t := t.lined [] } queued 0
  have hpass := servePass_single h pace hserved
  generalize packMessage pace { t := t.lined [] } queued 0 = packed at hpacked hpass ⊢
  have hcount : packed.t.stagedCount = 0 := hpacked.stagedCount
  have hrotate : packed.t.rotate = packed.t := by
    have hcursor : (packed.t.stagedCursor + 1) % packed.t.staged.length =
        packed.t.stagedCursor := by
      rw [hpacked.stagedCursor, hpacked.staged]
      exact (Nat.mod_one _).trans h.stagedCursor.symm
    unfold rotate
    rw [hcursor]
  have hloop : flushLoop pace 2 { t := t.lined [queued] } = packed := by
    have hrefill : (t.lined [queued]).refill = t.lined [queued] := rfl
    have hrefill' : packed.t.refill = packed.t := by
      unfold refill
      rw [if_pos hcount]
      exact stageOutbound_of_empty hpacked.outbound
    unfold flushLoop
    dsimp only
    rw [hrefill, if_neg (by exact Nat.one_ne_zero), hpass, if_pos rfl, hrotate]
    unfold flushLoop
    dsimp only
    rw [hrefill', if_pos hcount]
  rw [send_rested h]
  unfold flushOutbound
  dsimp only
  rw [if_pos hcap, stageOutbound_single h hchannel]
  exact congrArg (fun s => (flushBatch pace s).t) hloop

/-! ## Invariants of single records -/

section Tended

variable {good : PendingRecord → Prop} {I : Transport → Prop} (h : Tended good I)
include h

theorem Tended.resends : Resends I where
  toSteady := h.toSteady
  close := h.close
  resend now ht hmsg := h.sendBatch now 0 _ (by simpa using h.resent ht hmsg) ht

theorem Tended.flushBatch {s : Packing} (pace : Pace) (hgood : ∀ p ∈ s.batch, good p)
    (hs : I s.t) : I (flushBatch pace s).t :=
  h.toSteady.flushBatch pace (fun _ => hs) fun _ => h.sendBatch _ _ _ hgood hs

variable {t : Transport}

theorem Tended.sendFragment (pace : Pace) (queued : QueuedOut) (channel : BitVec 8)
    (messageSeq fragCount i : Nat)
    (hgood : good (fragmentRecord t.config queued channel messageSeq fragCount i)) (ht : I t) :
    I (sendFragment pace queued channel messageSeq fragCount t i) := by
  have hsent := h.sendBatch pace.now 0
    [fragmentRecord t.config queued channel messageSeq fragCount i] (by simpa using hgood) ht
  unfold Transport.sendFragment
  dsimp only
  split
  · next hrel => exact h.trackReliable _ _ _ _ hgood hrel hsent
  · exact hsent

end Tended

section Kept

variable {good : PendingRecord → Prop} {I : Transport → Prop} (h : Kept good I)
include h

omit h in
/-- The invariant while a datagram is packed, whose records are good. -/
structure Packed (good : PendingRecord → Prop) (I : Transport → Prop) (s : Packing) : Prop where
  keeps : I s.t
  batch : ∀ p ∈ s.batch, good p

omit h in
theorem batch_flushBatch (pace : Pace) (s : Packing) : (flushBatch pace s).batch = [] := by
  unfold Transport.flushBatch
  split
  · next hempty => simpa using hempty
  · rfl

variable {s : Packing}

omit h in
theorem Tended.flushBatch_packed (h : Tended good I) (pace : Pace) (hs : Packed good I s) :
    Packed good I (Transport.flushBatch pace s) :=
  ⟨h.flushBatch pace hs.batch hs.keeps, by simp [batch_flushBatch]⟩

theorem Kept.packMessage (pace : Pace) (queued : QueuedOut) (channel : BitVec 8)
    (hs : Packed good I s) : Packed good I (packMessage pace s queued channel) := by
  have hseq : Packed good I { s with t := (s.t.takeSeq channel queued.reliable).1 } :=
    ⟨h.takeSeq channel queued.reliable hs.keeps, hs.batch⟩
  have hwhole := h.whole queued channel (s.t.takeSeq channel queued.reliable).2
  have hflushed := h.flushBatch_packed pace hseq
  refine packMessage_of pace queued channel rfl rfl (fun _ s' hs' => ?_) fun _ n _ => ?_
  · have hs' : Packed good I s' := by
      rcases hs' with rfl | ⟨rfl, -⟩
      · exact hflushed
      · exact hseq
    refine ⟨?_, fun p hp => ?_⟩
    · dsimp only
      split
      · next hrel => exact h.trackReliable _ _ _ _ hwhole hrel hs'.keeps
      · exact hs'.keeps
    · exact List.forall_mem_append.2 ⟨hs'.batch, List.forall_mem_singleton.2 hwhole⟩ p hp
  · exact ⟨List.foldlRecOn _ _ hflushed.keeps fun t ht i _ =>
      h.sendFragment pace queued channel _ _ i (h.fragment _ _ _ _ _ _) ht, hflushed.batch⟩

theorem Kept.flushes : Flushes (Packed good I) where
  stage hs := ⟨h.requeue hs.keeps {}, hs.batch⟩
  rotate hs := ⟨h.requeue hs.keeps {}, hs.batch⟩
  pack pace hs _ _ := h.packMessage pace _ _ ⟨h.requeue hs.keeps {}, hs.batch⟩
  flush pace hs := ⟨h.flushBatch pace hs.batch hs.keeps, by simp⟩

theorem Kept.flushOutbound {t : Transport} (pace : Pace) (ht : I t) : I (t.flushOutbound pace) :=
  (h.flushes.flushOutbound pace ⟨ht, by simp⟩).keeps

end Kept

/-! ## Runs -/

/-- What can happen to a sender. -/
inductive SenderEvent where
  /-- The application calls `Send`. -/
  | send (queued : QueuedOut)
  | flush (pace : Pace)
  /-- A header arrives. -/
  | acks (pace : Pace) (header : ZDTHeader)
  | retransmit (pace : Pace)
  | probe (pace : Pace)
  | prune (now : TimePoint)
  /-- A ping, a pong or a bare acknowledgement goes out. -/
  | control (now : TimePoint) (flags : BitVec 8)
  | close

/-- What an event does; the worker leaves a closed transport alone. -/
def handle (t : Transport) (e : SenderEvent) : Transport :=
  if t.isClosed then t
  else
    match e with
    | .send queued => (t.send queued).1
    | .flush pace => t.flushOutbound pace
    | .acks pace header => t.processAcks pace header
    | .retransmit pace => t.retransmitUnacked pace
    | .probe pace => t.maybeTailProbe pace
    | .prune now => t.pruneSentPackets now
    | .control now flags => t.sendControl now flags
    | .close => t.close

def sender : Machine Transport SenderEvent := ⟨fun t e => some (t.handle e)⟩

/-- A state some run reaches from a fresh transport. -/
def Reachable (t : Transport) : Prop :=
  ∃ config es, sender.exec { config := config } es = some t

theorem Kept.send {good : PendingRecord → Prop} {I : Transport → Prop} (h : Kept good I)
    (queued : QueuedOut) (ht : I t) : I (t.send queued).1 := by
  unfold Transport.send
  split
  · exact ht
  · split
    · exact ht
    · exact h.requeue ht {}

/-- **One event.** -/
theorem Kept.handle {good : PendingRecord → Prop} {I : Transport → Prop} (h : Kept good I)
    (e : SenderEvent) (ht : I t) : I (t.handle e) := by
  unfold Transport.handle
  split
  · exact ht
  · cases e with
    | send queued => exact h.send queued ht
    | flush pace => exact h.flushOutbound pace ht
    | acks pace header => exact h.processAcks pace header ht
    | retransmit pace => exact h.resends.retransmitUnacked pace ht
    | probe pace => exact h.resends.maybeTailProbe pace ht
    | prune now => exact h.pruneSentPackets now ht
    | control now flags => exact h.sendBatch now flags [] (by simp) ht
    | close => exact h.close ht

/-- **Runs.**  What holds of a fresh transport and is kept by every change holds in every
state reached. -/
theorem Kept.reachable {good : PendingRecord → Prop} {I : Transport → Prop} (h : Kept good I)
    (hstart : ∀ config, I { config := config }) (ht : Reachable t) : I t := by
  obtain ⟨config, es, hexec⟩ := ht
  refine sender.exec_invariant (fun s e s' hs hstep => ?_) hexec (hstart config)
  rw [← Option.some.inj hstep]
  exact h.handle e hs

/-! ## Packet numbers -/

/-- The next packet number is not the sentinel, and the sentinel is never tracked. -/
structure Numbered (t : Transport) : Prop where
  next : t.nextPacketSeq ≠ 0
  sentinel : t.sentPackets[(0 : WireSeq)]? = none

theorem followingSeq_ne_zero (seq : WireSeq) : followingSeq seq ≠ 0 := by
  unfold followingSeq
  split
  · decide
  · assumption

@[simp] theorem nextPacketSeq_retireSentPacket (t : Transport) (seq : WireSeq) :
    (t.retireSentPacket seq).nextPacketSeq = t.nextPacketSeq := by
  unfold Transport.retireSentPacket
  split <;> rfl

theorem Numbered.retireSentPacket (h : Numbered t) (seq : WireSeq) :
    Numbered (t.retireSentPacket seq) where
  next := by rw [nextPacketSeq_retireSentPacket]; exact h.next
  sentinel := by rw [sentPackets_retireSentPacket, h.sentinel, ite_self]

theorem numbered_kept : Kept (fun _ => True) Numbered where
  same h hsame := ⟨hsame.nextPacketSeq ▸ h.next, hsame.sentPackets ▸ h.sentinel⟩
  requeue h hsame := ⟨hsame.nextPacketSeq ▸ h.next, hsame.sentPackets ▸ h.sentinel⟩
  close h := by
    unfold Transport.close
    split
    · exact h
    · exact { h with }
  sendBatch now flags batch _ h := by
    constructor
    · show (Transport.retireSentPacket _ _).nextPacketSeq ≠ 0
      rw [nextPacketSeq_retireSentPacket]
      exact followingSeq_ne_zero _
    · show ((Transport.retireSentPacket _ _).sentPackets.insert _ _)[(0 : WireSeq)]? = none
      rw [Std.ExtTreeMap.getElem?_insert, if_neg (by simpa using h.next),
        sentPackets_retireSentPacket, if_neg (Ne.symm h.next)]
      exact h.sentinel
  trackReliable pace pending offset log _ _ h := { h with }
  takeSeq channel reliable h := { h with }
  update _ _ h := { h with }
  resent _ _ := trivial
  whole _ _ _ := trivial
  fragment _ _ _ _ _ _ := trivial
  retireSentPacket seq h := h.retireSentPacket seq
  settle key h := { h with }

theorem Reachable.numbered (ht : Reachable t) : Numbered t :=
  numbered_kept.reachable (fun _ => ⟨show (1 : WireSeq) ≠ 0 by decide, by simp⟩) ht

end Transport
end Zdt
end Znet

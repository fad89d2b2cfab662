import Znet.Lib.Keyed
import Znet.Queue.Mpsc
import Znet.Zdt.AckHistory
import Znet.Zdt.Channel

/-!
# The ZDT transport: state and send path

The sender's half of `zdt_transport.cc`, function by function: what is queued, staged and
packed into datagrams, which datagrams are tracked until they are acknowledged, and what an
incoming header's ack blocks, the retransmission timer and the tail probe do to that.

The round-trip estimator and the congestion controller only decide when something is sent,
never what: the values the source reads from them (`rto`, the send window, the probe delay)
are arguments, given by whoever runs the transport (`Pace`).  A buffer is the list of its
readable bytes.  Time is an integer.
-/

namespace Znet
namespace Zdt

/-! ## Keys -/

/-- Identifies one reliable record, or one reassembly buffer. -/
structure MsgKey where
  channel : BitVec 8 := 0
  reliable : Bool := false
  fragIndex : BitVec 8 := 0
  messageSeq : Nat := 0
  deriving DecidableEq, Repr

/-- `operator<`: by channel, reliability, message and fragment, in this order. -/
def MsgKey.cmp : MsgKey → MsgKey → Ordering :=
  compareLex (compareOn MsgKey.channel) (compareLex (compareOn MsgKey.reliable)
    (compareLex (compareOn MsgKey.messageSeq) (compareOn MsgKey.fragIndex)))

instance : Std.TransCmp MsgKey.cmp := inferInstanceAs (Std.TransCmp (compareLex _ _))

theorem MsgKey.cmp_eq_iff {a b : MsgKey} : MsgKey.cmp a b = .eq ↔ a = b := by
  cases a
  cases b
  simp [MsgKey.cmp, compareLex, compareOn, Ordering.then_eq_eq, and_left_comm, and_comm]

instance : Std.LawfulEqCmp MsgKey.cmp where
  eq_of_compare h := MsgKey.cmp_eq_iff.1 h

/-! ## Records of the header file -/

abbrev TimePoint := Int

/-- `TimePoint::min()` and `TimePoint::max()`. -/
def timePointMin : TimePoint := -2 ^ 63
def timePointMax : TimePoint := 2 ^ 63 - 1

/-- `TransmissionLog::kCapacity`. -/
def kLogCapacity : Nat := 16

/-- The ring of the packet numbers a record last went out under. -/
structure TransmissionLog where
  items : Vector WireSeq kLogCapacity := Vector.replicate kLogCapacity 0
  count : Nat := 0
  next : Nat := 0
  deriving DecidableEq

namespace TransmissionLog

/-- `Add`. -/
def add (log : TransmissionLog) (seq : WireSeq) : TransmissionLog where
  items := log.items.set! log.next seq
  next := (log.next + 1) % kLogCapacity
  count := if log.count < kLogCapacity then log.count + 1 else log.count

/-- What `begin()` and `end()` span. -/
def entries (log : TransmissionLog) : List WireSeq := log.items.toList.take log.count

end TransmissionLog

def makeLog (seq : WireSeq) : TransmissionLog := TransmissionLog.add {} seq

/-- `SentInfo::kMaxKeys`. -/
def kMaxKeys : Nat := 64

/-- A datagram that went out: when, and the reliable records it carried. -/
structure SentInfo where
  sendTime : TimePoint := 0
  keys : List MsgKey := []
  deriving DecidableEq

def SentInfo.add (info : SentInfo) (key : MsgKey) : SentInfo :=
  if info.keys.length < kMaxKeys then { info with keys := info.keys ++ [key] } else info

/-- A message as `Send` takes it. -/
structure QueuedOut where
  payload : List UInt8
  reliable : Bool := true
  ordered : Bool := true
  channel : BitVec 8 := 0
  deriving DecidableEq

/-- A record on its way into a datagram, with the bytes it points at. -/
structure PendingRecord where
  record : ZDTRecord
  owner : List UInt8
  payload : List UInt8
  reliable : Bool
  key : MsgKey
  deriving DecidableEq

/-- A reliable record that has not been acknowledged. -/
structure OutReliable where
  message : List UInt8
  offset : Nat
  length : Nat
  channel : BitVec 8
  messageSeq : WireSeq
  fragIndex : BitVec 8
  fragCount : BitVec 8
  dataFlags : BitVec 8
  lastSend : TimePoint
  sendCount : Nat
  packets : TransmissionLog
  deriving DecidableEq

/-- The messages of one channel that the window had no room for. -/
structure StagedLane where
  channel : BitVec 8
  messages : List QueuedOut := []
  deriving DecidableEq

/-! ## The transport -/

/-- The options the transport reads, with the defaults of `ZDTOptions`; `mtu` is what
`DatagramMTU` returns for the connection. -/
structure Config where
  mtu : Nat := 1200
  migrationEnabled : Bool := false
  localGuid : BitVec 64 := 0
  outboundQueueCapacity : Nat := 4096
  maxMessagesInFlight : Nat := 4096
  maxDatagramsInFlight : Int := 512
  maxRetries : Nat := 10
  rtoMax : Int := 2000
  maxReassemblies : Nat := 256
  maxReassemblyBytes : Nat := 16 * 1024 * 1024
  reassemblyTimeout : Int := 5000
  deriving DecidableEq

/-- What goes onto the wire. -/
structure Datagram where
  header : ZDTHeader
  records : List PendingRecord
  deriving DecidableEq

/-- A partly received message. -/
structure Reassembly where
  fragCount : BitVec 8 := 0
  fragments : Std.ExtTreeMap Nat (List UInt8) compare := ∅
  firstSeen : TimePoint := 0

/-- The fields of `ZDTTransportLayer` that its functions below read and write. -/
structure Transport where
  config : Config := {}
  nextPacketSeq : WireSeq := 1
  ready : List (List UInt8) := []
  outbound : List QueuedOut := []
  staged : List StagedLane := []
  stagedCount : Nat := 0
  stagedCursor : Nat := 0
  isClosed : Bool := false
  sentPackets : Std.ExtTreeMap WireSeq SentInfo := ∅
  inFlightDatagrams : Nat := 0
  unacked : Std.ExtTreeMap MsgKey OutReliable MsgKey.cmp := ∅
  nextRetransmitScan : TimePoint := timePointMin
  tailProbeAt : TimePoint := timePointMax
  tailProbesFired : Nat := 0
  ackHistory : ZDTAckHistory := {}
  needsAck : Bool := false
  channels : BitVec 8 → ChannelState (List UInt8) := fun _ => {}
  reassembly : Std.ExtTreeMap MsgKey Reassembly MsgKey.cmp := ∅
  reassemblyBytes : Nat := 0
  /-- History: everything sent so far, in order. -/
  wire : List Datagram := []
  /-- History: the reliable records the peer has acknowledged. -/
  acked : List MsgKey := []
  /-- History: the reassembled messages that were handed to `DeliverMessage`. -/
  handed : List MsgKey := []

/-- What the estimator and the controller say while a function runs. -/
structure Pace where
  now : TimePoint
  rto : Int
  sendWindow : Nat
  probeDelay : Nat → Int

/-- Nothing is slow, and the window is open. -/
def calm : Pace := ⟨0, 200, 512, fun _ => 25⟩

/-- A window of two datagrams. -/
def tight : Pace := { calm with sendWindow := 2 }

namespace Transport

variable (t : Transport) (pace : Pace)

/-- `SendWindowCap`. -/
def sendWindowCap : Int :=
  let cap := min t.config.maxDatagramsInFlight kZDTMaxDatagramsInFlight
  if cap < 2 then 2 else cap

/-- `RetireSentPacket`. -/
def retireSentPacket (packetSeq : WireSeq) : Transport :=
  match t.sentPackets[packetSeq]? with
  | none => t
  | some info =>
    { t with
      inFlightDatagrams :=
        if 0 < info.keys.length ∧ 0 < t.inFlightDatagrams then t.inFlightDatagrams - 1
        else t.inFlightDatagrams
      sentPackets := t.sentPackets.erase packetSeq }

/-- The number after `next_packet_seq_`, skipping the sentinel. -/
def followingSeq (seq : WireSeq) : WireSeq := if seq + 1 = 0 then 1 else seq + 1

/-- The reliable records of a batch, as `SentInfo` files them. -/
def batchKeys (batch : List PendingRecord) (info : SentInfo) : SentInfo :=
  batch.foldl (fun info pending => if pending.reliable then info.add pending.key else info) info

/-- The header `SendBatch` writes. -/
def batchHeader (extraFlags : BitVec 8) (batch : List PendingRecord) : ZDTHeader :=
  let recordBytes := (batch.map fun p =>
    zdtRecordSize (hasFlag p.record.flags kRecFragment) p.payload.length).sum
  let used := kZDTHeaderSize + (if t.config.migrationEnabled then kZDTCidSize else 0) + recordBytes
  let header : ZDTHeader :=
    { flags := kFlagOnline ||| extraFlags ||| (if t.config.migrationEnabled then kFlagHasCid else 0)
      cid := if t.config.migrationEnabled then t.config.localGuid else 0
      packetSeq := t.nextPacketSeq }
  t.ackHistory.fill header
    (if used < t.config.mtu then (t.config.mtu - used) / kZDTAckBlockSize else 0)
    (t.sendWindowCap.toNat + 64)

/-- `SendBatch`; returns the packet number. -/
def sendBatch (now : TimePoint) (extraFlags : BitVec 8)
    (batch : List PendingRecord) : Transport × WireSeq :=
  let packetSeq := t.nextPacketSeq
  let header := t.batchHeader extraFlags batch
  let t := { t with nextPacketSeq := followingSeq packetSeq }
  let t := t.retireSentPacket packetSeq
  let info := batchKeys batch { sendTime := now }
  ({ t with
      sentPackets := t.sentPackets.insert packetSeq info
      wire := t.wire ++ [⟨header, batch⟩]
      needsAck := false
      inFlightDatagrams :=
        if 0 < info.keys.length then t.inFlightDatagrams + 1 else t.inFlightDatagrams },
    packetSeq)

/-- `SendControl`. -/
def sendControl (now : TimePoint) (flags : BitVec 8) : Transport :=
  (t.sendBatch now flags []).1

/-- `Close`: the FIN is written by hand, under the reserved packet number and untracked. -/
def close : Transport :=
  if t.isClosed then t
  else
    let header : ZDTHeader :=
      { flags := kFlagOnline ||| kFlagFin |||
          (if t.config.migrationEnabled then kFlagHasCid else 0)
        cid := if t.config.migrationEnabled then t.config.localGuid else 0 }
    { t with isClosed := true, wire := t.wire ++ [⟨header, []⟩] }

/-! ## Tracking reliable records -/

/-- `RearmTailProbe`. -/
def rearmTailProbe : Transport :=
  { t with
    tailProbesFired := 0
    tailProbeAt := if t.unacked.isEmpty then timePointMax else pace.now + pace.probeDelay 0 }

/-- `MakeRecord`. -/
def makeRecord (owner : List UInt8) (offset length : Nat) (flags channel : BitVec 8)
    (messageSeq : Nat) (fragIndex fragCount : BitVec 8) (reliable : Bool) : PendingRecord where
  record :=
    { flags, channel, messageSeq := BitVec.ofNat 16 messageSeq, fragIndex, fragCount
      length := BitVec.ofNat 16 length }
  owner
  payload := (owner.drop offset).take length
  reliable
  key := { channel, reliable, fragIndex, messageSeq }

/-- `TrackReliable`. -/
def trackReliable (pending : PendingRecord) (offset : Nat) (log : TransmissionLog) : Transport :=
  let entry : OutReliable :=
    { message := pending.owner, offset, length := pending.payload.length
      channel := pending.record.channel, messageSeq := pending.record.messageSeq
      fragIndex := pending.record.fragIndex, fragCount := pending.record.fragCount
      dataFlags := pending.record.flags, lastSend := pace.now, sendCount := 1, packets := log }
  let t := { t with
    nextRetransmitScan := min t.nextRetransmitScan (pace.now + pace.rto)
    unacked := t.unacked.insert pending.key entry }
  t.rearmTailProbe pace

/-- Log a transmission of a record that is still tracked. -/
def logPacket (key : MsgKey) (packet : WireSeq) : Transport :=
  match t.unacked[key]? with
  | none => t
  | some msg =>
    { t with unacked := t.unacked.insert key { msg with packets := msg.packets.add packet } }

/-! ## Staging -/

variable (c : Config)

/-- How many messages the ring `outbound_` holds. -/
def ringCapacity : Nat := Queue.roundUpPowerOfTwo c.outboundQueueCapacity

theorem ringCapacity_pos : 0 < ringCapacity c := by
  obtain ⟨k, -, hslots⟩ := Queue.exists_roundUpPowerOfTwo c.outboundQueueCapacity
  rw [ringCapacity, hslots]
  exact Nat.two_pow_pos k

variable (queued : QueuedOut)

/-- `Send`; false when the transport is closed or the ring is full. -/
def send : Transport × Bool :=
  if t.isClosed then (t, false)
  else if ringCapacity t.config ≤ t.outbound.length then (t, false)
  else ({ t with outbound := t.outbound ++ [queued] }, true)

/-- Put a message into the first lane of its channel, or into a new one at the end. -/
def stageInto (queued : QueuedOut) : List StagedLane → List StagedLane
  | [] => [{ channel := queued.channel, messages := [queued] }]
  | lane :: lanes =>
    if lane.channel = queued.channel then
      { lane with messages := lane.messages ++ [queued] } :: lanes
    else lane :: stageInto queued lanes

/-- `StageOutbound`; returns how many messages it moved. -/
def stageOutbound : Transport × Nat :=
  ({ t with
      outbound := []
      staged := t.outbound.foldl (fun lanes queued => stageInto queued lanes) t.staged
      stagedCount := t.stagedCount + t.outbound.length },
    t.outbound.length)

/-! ## `FlushOutbound` -/

/-- The transport with the datagram that is being packed. -/
structure Packing where
  t : Transport
  batch : List PendingRecord := []
  batchBytes : Nat := kZDTHeaderReserve

/-- The MTU `FlushOutbound` packs against. -/
def packMtu : Nat := max c.mtu (kZDTHeaderReserve + kZDTFragRecordHeaderSize + 1)

def unfragCapacity : Nat := packMtu c - kZDTHeaderReserve - kZDTRecordHeaderSize

def fragCapacity : Nat := packMtu c - kZDTHeaderReserve - kZDTFragRecordHeaderSize

/-- `kMaxSeqGap`. -/
def kMaxSeqGap : Nat := 2 ^ 16 / 2

/-- `flush_batch`. -/
def flushBatch (s : Packing) : Packing :=
  if s.batch.isEmpty then s
  else
    let (t, packet) := s.t.sendBatch pace.now 0 s.batch
    { t := s.batch.foldl (fun t p => if p.reliable then t.logPacket p.key packet else t) t }

variable (channel : BitVec 8)

/-- Take the next sequence number of the message's kind. -/
def takeSeq (reliable : Bool) : Transport × Nat :=
  let state := t.channels channel
  let (state', seq) :=
    if reliable then ({ state with relSend := state.relSend + 1 }, state.relSend)
    else ({ state with unrelSend := state.unrelSend + 1 }, state.unrelSend)
  ({ t with channels := Function.update t.channels channel state' }, seq)

/-- The record of a fragment. -/
def fragmentRecord (config : Config) (queued : QueuedOut) (channel : BitVec 8)
    (messageSeq fragCount i : Nat) : PendingRecord :=
  let offset := i * fragCapacity config
  makeRecord queued.payload offset (min (fragCapacity config) (queued.payload.length - offset))
    (recordFlags queued.reliable queued.ordered ||| kRecFragment) channel messageSeq
    (BitVec.ofNat 8 i) (BitVec.ofNat 8 fragCount) queued.reliable

/-- One fragment, in a datagram of its own. -/
def sendFragment (messageSeq : Nat) (fragCount : Nat) (t : Transport) (i : Nat) : Transport :=
  let pending := fragmentRecord t.config queued channel messageSeq fragCount i
  let (t', packet) := t.sendBatch pace.now 0 [pending]
  if queued.reliable then t'.trackReliable pace pending (i * fragCapacity t.config) (makeLog packet)
  else t'

/-- How many fragments a message needs. -/
def fragmentCount (total : Nat) : Nat := (total + fragCapacity c - 1) / fragCapacity c

/-- The record of a message that fits one datagram. -/
def wholeRecord (messageSeq : Nat) : PendingRecord :=
  makeRecord queued.payload 0 queued.payload.length (recordFlags queued.reliable queued.ordered)
    channel messageSeq 0 1 queued.reliable

/-- `pack_message`. -/
def packMessage (s : Packing) (queued : QueuedOut) (channel : BitVec 8) : Packing :=
  let (t, messageSeq) := s.t.takeSeq channel queued.reliable
  let s := { s with t := t }
  let total := queued.payload.length
  let c := s.t.config
  if total ≤ unfragCapacity c then
    let need := zdtRecordSize false total
    let s := if packMtu c < s.batchBytes + need ∨ kMaxKeys ≤ s.batch.length then flushBatch pace s
      else s
    let pending := wholeRecord queued channel messageSeq
    { t := if queued.reliable then s.t.trackReliable pace pending 0 {} else s.t
      batch := s.batch ++ [pending]
      batchBytes := s.batchBytes + need }
  else
    let s := flushBatch pace s
    let count := fragmentCount c total
    if 255 < count then s
    else
      let t := (List.range count).foldl (sendFragment pace queued channel messageSeq count) s.t
      { s with t := t }

/-- The oldest unacknowledged reliable message of a channel: what `lower_bound` finds. -/
def oldestUnacked : Option Nat :=
  match t.unacked.getKeyGE? { channel, reliable := true } with
  | some key => if key.channel = channel ∧ key.reliable = true then some key.messageSeq else none
  | none => none

/-- Whether the window refuses a reliable message on a channel. -/
def refused : Bool :=
  decide (t.config.maxMessagesInFlight ≤ t.unacked.size) ||
  decide (pace.sendWindow ≤ t.inFlightDatagrams) ||
  match t.oldestUnacked channel with
  | some oldest => decide (kMaxSeqGap ≤ (t.channels channel).relSend - oldest)
  | none => false

/-- One lane's turn; the flag says whether a message went out. -/
def serveLane (s : Packing × Bool) (i : Nat) : Packing × Bool :=
  match s.1.t.staged[i]? with
  | none => s
  | some lane =>
    match lane.messages with
    | [] => s
    | queued :: rest =>
      if queued.reliable && s.1.t.refused pace lane.channel then s
      else
        let t := { s.1.t with
          staged := s.1.t.staged.set i { lane with messages := rest }
          stagedCount := s.1.t.stagedCount - 1 }
        (packMessage pace { s.1 with t := t } queued lane.channel, true)

/-- Fetch new messages when nothing is staged.  `StageOutbound` then returns zero exactly
when nothing is staged afterwards either. -/
def refill : Transport :=
  if t.stagedCount = 0 then t.stageOutbound.1 else t

/-- One message per lane, beginning with the lane of the cursor. -/
def servePass (s : Packing) : Packing × Bool :=
  let lanes := s.t.staged.length
  let cursor := s.t.stagedCursor
  (List.range lanes).foldl (fun acc step => serveLane pace acc ((cursor + step) % lanes)) (s, false)

/-- The next pass begins with the next lane. -/
def rotate : Transport :=
  { t with stagedCursor := (t.stagedCursor + 1) % t.staged.length }

/-- The main loop of `FlushOutbound`.  Each pass but the last one sends a message, so the
number of messages that are queued bounds the passes. -/
def flushLoop (pace : Pace) : Nat → Packing → Packing
  | 0, s => s
  | fuel + 1, s =>
    let s := { s with t := s.t.refill }
    if s.t.stagedCount = 0 then s
    else
      let pass := servePass pace s
      if pass.2 then flushLoop pace fuel { pass.1 with t := pass.1.t.rotate } else pass.1

/-- `FlushOutbound`. -/
def flushOutbound : Transport :=
  let t := if t.stagedCount < t.config.outboundQueueCapacity then t.stageOutbound.1 else t
  let fuel := t.stagedCount + t.outbound.length + 1
  (flushBatch pace (flushLoop pace fuel { t := t })).t

/-! ## Acknowledgements -/

/-- Retire the other transmissions of a message, and the message. -/
def retireMessage (packetSeq : WireSeq) (t : Transport) (key : MsgKey) : Transport :=
  match t.unacked[key]? with
  | none => t
  | some msg =>
    let t := msg.packets.entries.foldl
      (fun t seq => if seq = packetSeq then t else t.retireSentPacket seq) t
    { t with unacked := t.unacked.erase key, acked := t.acked ++ [key] }

/-- `AckPacket`; the flag says whether the packet was still tracked. -/
def ackPacket (packetSeq : WireSeq) : Transport × Bool :=
  if packetSeq = 0 then (t, false)
  else
    match t.sentPackets[packetSeq]? with
    | none => (t, false)
    | some info =>
      ((info.keys.foldl (retireMessage packetSeq) t).retireSentPacket packetSeq, true)

/-- Mark a message for the next retransmission scan. -/
def markLost (key : MsgKey) : Transport :=
  match t.unacked[key]? with
  | none => t
  | some msg =>
    { t with
      unacked := t.unacked.insert key { msg with lastSend := 0 }
      nextRetransmitScan := timePointMin }

/-- `OnNak`. -/
def onNak (packetSeq : WireSeq) : Transport :=
  match t.sentPackets[packetSeq]? with
  | none => t
  | some info => (info.keys.foldl markLost t).retireSentPacket packetSeq

/-- One step of the walk of `ProcessAcks`, with the count of newly acknowledged packets. -/
def walkStep (ack : WireSeq) (s : Transport × Nat) (entry : Nat × Bool) : Transport × Nat :=
  let seq := ack - BitVec.ofNat 16 entry.1
  if entry.2 then
    let (t, isNew) := s.1.ackPacket seq
    (t, if isNew then s.2 + 1 else s.2)
  else (s.1.onNak seq, s.2)

/-- `ProcessAcks`. -/
def processAcks (header : ZDTHeader) : Transport :=
  let (t, newlyAcked) := (ackWalk header).foldl (walkStep header.ack) (t, 0)
  if 0 < newlyAcked then t.rearmTailProbe pace else t

/-! ## Retransmission -/

/-- The record of another transmission. -/
def resentRecord (key : MsgKey) (msg : OutReliable) : PendingRecord :=
  makeRecord msg.message msg.offset msg.length msg.dataFlags msg.channel key.messageSeq
    msg.fragIndex msg.fragCount true

/-- `ResendReliable`. -/
def resendReliable (now : TimePoint) (key : MsgKey) (msg : OutReliable) : Transport × OutReliable :=
  let (t, packet) := t.sendBatch now 0 [resentRecord key msg]
  (t, { msg with packets := msg.packets.add packet })

/-- How long a message waits before it is sent again, under this timeout. -/
def retransmitThreshold (rto : Int) (msg : OutReliable) : Int :=
  min (rto * 2 ^ min (msg.sendCount - 1) 6) c.rtoMax

/-- The scan of `RetransmitUnacked`, over the entries as they were when it began, with the
soonest deadline met so far; it stops where a message has been sent too often. -/
def retransmitScan (pace : Pace) : List (MsgKey × OutReliable) → Transport → TimePoint → Transport
  | [], t, earliest => { t with nextRetransmitScan := earliest }
  | (key, msg) :: rest, t, earliest =>
    let threshold := retransmitThreshold t.config pace.rto msg
    if pace.now - msg.lastSend < threshold then
      retransmitScan pace rest t (min earliest (msg.lastSend + threshold))
    else if t.config.maxRetries ≤ msg.sendCount then t.close
    else
      let (t, msg) := t.resendReliable pace.now key msg
      let msg := { msg with lastSend := pace.now, sendCount := msg.sendCount + 1 }
      let t := { t with
        unacked := t.unacked.insert key msg
        tailProbeAt := pace.now + pace.probeDelay t.tailProbesFired }
      retransmitScan pace rest t (min earliest (pace.now + threshold))

/-- `RetransmitUnacked`. -/
def retransmitUnacked : Transport :=
  if pace.now < t.nextRetransmitScan then t
  else retransmitScan pace t.unacked.toList t timePointMax

/-- The entry sent last; among equals the one with the highest key. -/
def newestEntry : List (MsgKey × OutReliable) → Option (MsgKey × OutReliable)
  | [] => none
  | entry :: rest =>
    some (rest.foldl (fun newest e => if newest.2.lastSend ≤ e.2.lastSend then e else newest) entry)

/-- `MaybeTailProbe`. -/
def maybeTailProbe : Transport :=
  if pace.now < t.tailProbeAt then t
  else
    match newestEntry t.unacked.toList with
    | none => t
    | some (key, msg) =>
      let (t, msg) := t.resendReliable pace.now key msg
      { t with
        unacked := t.unacked.insert key msg
        tailProbesFired := t.tailProbesFired + 1
        tailProbeAt := pace.now + pace.probeDelay (t.tailProbesFired + 1) }

/-- `PruneSentPackets`. -/
def pruneSentPackets (now : TimePoint) : Transport :=
  t.sentPackets.toList.foldl
    (fun t entry =>
      if t.config.rtoMax * 4 < now - entry.2.sendTime then t.retireSentPacket entry.1 else t)
    t

end Transport

end Zdt
end Znet

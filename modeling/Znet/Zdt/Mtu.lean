import Znet.Zdt.Endpoint
import Znet.Zdt.WireFormat

/-!
# Datagrams and the MTU

A datagram is a relay header where there is a relay, the header with the connection id where
migration is on, as many ack blocks as are left room for, and the records.  Three places
budget for it on their own: `DatagramMTU` takes the relay header and the connection id off the
connection's MTU, the packer of `FlushOutbound` sets `kZDTHeaderReserve` aside, and `SendBatch`
gives the ack blocks what the records have left.

* `datagram_within_mtu` — **in every run, every datagram fits.**
-/

namespace Znet
namespace Zdt

/-! ## The connection -/

inductive InetProtocolVersion where
  | ipv4
  | ipv6
  deriving DecidableEq, Repr

/-- What a handshake has settled. -/
structure ZDTConnection where
  mtu : BitVec 16 := 1200
  localGuid : BitVec 64 := 0
  migrationEnabled : Bool := false
  relayChannel : BitVec 32 := 0

/-- The link MTUs a handshake tries. -/
structure MTULadder where
  rungs : Vector (BitVec 16) 4 := #v[1492, 1200, 576, 0]
  count : Fin 5 := 3

/-- The rungs that are set, from `begin` to `end`. -/
def MTULadder.toList (ladder : MTULadder) : List (BitVec 16) :=
  ladder.rungs.toList.take ladder.count.val

def MTULadder.front (ladder : MTULadder) : BitVec 16 := ladder.rungs[0]

def MTULadder.back (ladder : MTULadder) : BitVec 16 :=
  ladder.rungs[if ladder.count = 0 then 0 else ladder.count.val - 1]?.getD 0

/-- The ladder an option record starts with. -/
def MTULadder.standard : MTULadder := {}

/-- Its first rung alone. -/
def MTULadder.single : MTULadder := { MTULadder.standard with count := 1 }

/-- `ZDTDatagramOverhead`. -/
def zdtDatagramOverhead : InetProtocolVersion → BitVec 16
  | .ipv4 => 28
  | .ipv6 => 48

/-- `ZDTPayloadForLinkMTU`. -/
def zdtPayloadForLinkMTU (linkMtu : BitVec 16) (ipv : InetProtocolVersion) : BitVec 16 :=
  if zdtDatagramOverhead ipv < linkMtu then linkMtu - zdtDatagramOverhead ipv else 0

def kZDTRelayMarker : Nat := 0xC0

namespace ZDTConnection

variable (c : ZDTConnection)

/-- The MTU of the connection, or that of the lowest rung where it has none. -/
def payloadMtu (ladder : MTULadder) (ipv : InetProtocolVersion) : BitVec 16 :=
  if c.mtu ≠ 0 then c.mtu else zdtPayloadForLinkMTU ladder.back ipv

/-- What every datagram of the connection carries besides itself. -/
def overhead : Nat :=
  (if c.relayChannel ≠ 0 then kZDTRelayHeaderSize else 0) +
    (if c.migrationEnabled then kZDTCidSize else 0)

/-- `DatagramMTU`. -/
def datagramMTU (ladder : MTULadder) (ipv : InetProtocolVersion) : BitVec 16 :=
  let mtu := c.payloadMtu ladder ipv
  if c.overhead < mtu.toNat then BitVec.ofNat 16 (mtu.toNat - c.overhead) else mtu

/-- The options of a transport on this connection. -/
def config (ladder : MTULadder) (ipv : InetProtocolVersion) (options : Config) : Config :=
  { options with
    mtu := (c.datagramMTU ladder ipv).toNat
    migrationEnabled := c.migrationEnabled
    localGuid := c.localGuid }

/-- `WriteRelayHeader`. -/
def writeRelayHeader (b : Buffer) (channel : BitVec 32) : Buffer :=
  let b := b.writeNumber 1 kZDTRelayMarker
  let b := b.writeNumber 1 ((channel >>> 16) &&& 0xFF).toNat
  let b := b.writeNumber 1 ((channel >>> 8) &&& 0xFF).toNat
  b.writeNumber 1 (channel &&& 0xFF).toNat

/-- `BeginDatagram`. -/
def beginDatagram (b : Buffer) : Buffer :=
  if c.relayChannel ≠ 0 then writeRelayHeader b c.relayChannel else b

/-- The bytes `SendBatch` hands to the socket. -/
def datagramBytes (d : Datagram) : List UInt8 :=
  (writeDatagram (c.beginDatagram { endianness := .bigEndian }) d.header
    (d.records.map fun p => (p.record, p.payload))).data

end ZDTConnection

namespace Transport

/-! ## Sizes -/

/-- The bytes of a header. -/
def headerSize (header : ZDTHeader) : Nat :=
  kZDTHeaderSize + (if hasFlag header.flags kFlagHasCid then kZDTCidSize else 0) +
    header.blocks.length * kZDTAckBlockSize

/-- The bytes of a record with its payload. -/
def recordSize (p : PendingRecord) : Nat :=
  zdtRecordSize (hasFlag p.record.flags kRecFragment) p.payload.length

def batchSize (batch : List PendingRecord) : Nat := (batch.map recordSize).sum

variable (order : Endianness)

theorem length_headerBytes (header : ZDTHeader) :
    (headerBytes order header).length = headerSize header := by
  unfold headerBytes headerTailBytes headerSize
  simp only [List.length_append, Endianness.length_bytes, length_flatMap_ackBlockBytes]
  split <;> simp [kZDTHeaderSize, kZDTCidSize] <;> omega

theorem length_recordsBytes (records : List PendingRecord) :
    (recordsBytes order (records.map fun p => (p.record, p.payload))).length =
      batchSize records := by
  induction records with
  | nil => rfl
  | cons p records ih =>
    have hrecord : (recordBytes order p.record ++ p.payload).length = recordSize p := by
      unfold recordBytes recordSize zdtRecordSize
      simp only [List.length_append, Endianness.length_bytes]
      split <;> simp [kZDTFragRecordHeaderSize, kZDTRecordHeaderSize]
    rw [List.map_cons, recordsBytes, List.flatMap_cons, List.length_append, ← recordsBytes, ih]
    simp only [hrecord, batchSize, List.map_cons, List.sum_cons]

theorem length_datagramBytes (c : ZDTConnection) (d : Datagram) :
    (c.datagramBytes d).length =
      (if c.relayChannel ≠ 0 then kZDTRelayHeaderSize else 0) + headerSize d.header +
        batchSize d.records := by
  have hbegin : (c.beginDatagram { endianness := .bigEndian }).data.length =
      if c.relayChannel ≠ 0 then kZDTRelayHeaderSize else 0 := by
    unfold ZDTConnection.beginDatagram
    split
    · simp [ZDTConnection.writeRelayHeader, kZDTRelayHeaderSize]
    · rfl
  rw [ZDTConnection.datagramBytes, data_writeDatagram, List.length_append, List.length_append,
    hbegin, length_headerBytes, length_recordsBytes, Nat.add_assoc]

/-! ## The invariant -/

/-- The length field of a record is the length of its payload. -/
def Exact (p : PendingRecord) : Prop := p.record.length.toNat = p.payload.length

/-- The datagram fits, and its records say their lengths. -/
structure FitsMtu (mtu : Nat) (d : Datagram) : Prop where
  size : headerSize d.header + batchSize d.records ≤ mtu
  exact : ∀ p ∈ d.records, Exact p

/-- The record fits a datagram of its own. -/
structure Light (mtu : Nat) (p : PendingRecord) : Prop where
  size : kZDTHeaderReserve + recordSize p ≤ mtu
  exact : Exact p

/-- What was sent fits, what is tracked fits again, and so does the batch being packed. -/
structure Budgeted (c : Config) (s : Packing) : Prop where
  config : s.t.config = c
  sent : ∀ d ∈ s.t.wire, FitsMtu c.mtu d
  tracked : ∀ (key : MsgKey) (msg : OutReliable), s.t.unacked[key]? = some msg →
    Light c.mtu (resentRecord key msg)
  batch : ∀ p ∈ s.batch, Exact p
  bytes : s.batchBytes = kZDTHeaderReserve + batchSize s.batch
  room : s.batchBytes ≤ c.mtu

section Budgeted

variable {c : Config} (hlow : kZDTHeaderReserve + kZDTFragRecordHeaderSize + 1 ≤ c.mtu)
  (hhigh : c.mtu < 65536)

variable {s : Packing} {t' : Transport} {flags : BitVec 8} {batch : List PendingRecord}

/-- Nothing the invariant reads has changed, but for the batch. -/
theorem Budgeted.of_eq (h : Budgeted c s) (hconfig : t'.config = s.t.config)
    (hwire : t'.wire = s.t.wire) (hunacked : t'.unacked = s.t.unacked) :
    Budgeted c { s with t := t' } :=
  { h with
    config := hconfig.trans h.config
    sent := by
      rw [hwire]
      exact h.sent
    tracked := by
      rw [hunacked]
      exact h.tracked }

theorem Budgeted.track (h : Budgeted c s) {key : MsgKey} {msg : OutReliable}
    (hlight : Light c.mtu (resentRecord key msg)) (hconfig : t'.config = s.t.config)
    (hwire : t'.wire = s.t.wire) (hunacked : t'.unacked = s.t.unacked.insert key msg) :
    Budgeted c { s with t := t' } :=
  { h with
    config := hconfig.trans h.config
    sent := by
      rw [hwire]
      exact h.sent
    tracked := by
      rw [hunacked]
      exact Keyed.forall_insert h.tracked hlight }

theorem Budgeted.sendOne (h : Budgeted c s) {d : Datagram} (hd : FitsMtu c.mtu d)
    (hconfig : t'.config = s.t.config) (hwire : t'.wire = s.t.wire ++ [d])
    (hunacked : t'.unacked = s.t.unacked) : Budgeted c { s with t := t' } := by
  refine { h with
    config := hconfig.trans h.config, sent := fun e he => ?_, tracked := ?_ }
  · rw [hwire] at he
    exact List.forall_mem_append.2 ⟨h.sent, List.forall_mem_singleton.2 hd⟩ e he
  · rw [hunacked]
    exact h.tracked

/-- The connection id is in the header exactly when migration is on. -/
theorem hasFlag_cid (hflags : ControlFlags flags) (migration : Bool) :
    hasFlag (kFlagOnline ||| flags ||| (if migration then kFlagHasCid else 0)) kFlagHasCid =
      migration := by
  rcases hflags with rfl | rfl | rfl <;> cases migration <;> decide

/-- A header without ack blocks. -/
theorem headerSize_of_nil {header : ZDTHeader} (hblocks : header.blocks = []) :
    headerSize header ≤ kZDTHeaderSize + kZDTCidSize := by
  unfold headerSize
  rw [hblocks, List.length_nil, Nat.zero_mul, Nat.add_zero]
  split
  · exact le_rfl
  · exact Nat.add_le_add_left (Nat.zero_le _) _

/-- **The header takes what the records leave.** -/
theorem headerSize_batchHeader {t : Transport} (hflags : ControlFlags flags)
    (hroom : kZDTHeaderReserve + batchSize batch ≤ t.config.mtu) :
    headerSize (t.batchHeader flags batch) + batchSize batch ≤ t.config.mtu := by
  have hreserve : kZDTHeaderReserve = 22 := rfl
  -- the ack blocks are at most what the records leave
  have hblocks : (t.batchHeader flags batch).blocks.length * kZDTAckBlockSize +
      (kZDTHeaderSize + (if t.config.migrationEnabled then kZDTCidSize else 0) + batchSize batch) ≤
        t.config.mtu := by
    have hlength : (t.batchHeader flags batch).blocks.length ≤ min _ kZDTMaxAckBlocks :=
      ZDTAckHistory.length_fill_le ..
    have hsum : (batch.map fun p =>
        zdtRecordSize (hasFlag p.record.flags kRecFragment) p.payload.length).sum =
        batchSize batch := rfl
    rw [hsum] at hlength
    have hused : kZDTHeaderSize + (if t.config.migrationEnabled then kZDTCidSize else 0) +
        batchSize batch ≤ t.config.mtu := by
      unfold kZDTHeaderSize kZDTCidSize
      split <;> omega
    generalize kZDTHeaderSize + (if t.config.migrationEnabled then kZDTCidSize else 0) +
      batchSize batch = used at hlength hused ⊢
    unfold kZDTAckBlockSize at hlength ⊢
    split at hlength <;> omega
  have hcid : hasFlag (t.batchHeader flags batch).flags kFlagHasCid =
      t.config.migrationEnabled := by
    rw [batchHeader, ZDTAckHistory.fill_flags]
    exact hasFlag_cid hflags _
  unfold headerSize
  rw [hcid]
  omega

/-- A batch that was packed within the budget is sent within it. -/
theorem Budgeted.sendBatch (h : Budgeted c s) (now : TimePoint) (hflags : ControlFlags flags)
    (hroom : kZDTHeaderReserve + batchSize batch ≤ c.mtu) (hexact : ∀ p ∈ batch, Exact p) :
    Budgeted c { s with t := (s.t.sendBatch now flags batch).1 } := by
  have hmtu : s.t.config.mtu = c.mtu := congrArg Config.mtu h.config
  have hfits : FitsMtu c.mtu ⟨s.t.batchHeader flags batch, batch⟩ := by
    refine ⟨?_, hexact⟩
    rw [← hmtu] at hroom ⊢
    exact headerSize_batchHeader hflags hroom
  exact h.sendOne hfits (config_sendBatch s.t now flags batch) (wire_sendBatch s.t now flags batch)
    (unacked_sendBatch s.t now flags batch)

theorem Budgeted.resend (h : Budgeted c s) (now : TimePoint) {p : PendingRecord}
    (hp : Light c.mtu p) : Budgeted c { s with t := (s.t.sendBatch now 0 [p]).1 } :=
  h.sendBatch now (.inl rfl) (by simpa [batchSize] using hp.size) (by simpa using hp.exact)

include hlow in
theorem budgeted_resends : Resends fun t => Budgeted c { t := t } where
  same h hsame := h.of_eq hsame.config hsame.wire hsame.unacked
  update hmsg hsame h := h.track (by
    rw [hsame.resentRecord]
    exact h.tracked _ _ hmsg) rfl rfl rfl
  retireSentPacket {t} seq h := by
    unfold Transport.retireSentPacket
    split
    · exact h
    · exact h.of_eq rfl rfl rfl
  settle key h := { h with tracked := Keyed.forall_erase h.tracked key }
  close {t} h := by
    unfold Transport.close
    split
    · exact h
    · have hfits : ∀ header : ZDTHeader, header.blocks = [] → FitsMtu c.mtu ⟨header, []⟩ := by
        intro header hblocks
        refine ⟨?_, by simp⟩
        exact (headerSize_of_nil hblocks).trans (le_trans (by decide) hlow)
      exact h.sendOne (hfits _ rfl) rfl rfl rfl
  resend now h hmsg := h.resend now (h.tracked _ _ hmsg)

/-! ## Packing -/

include hlow

theorem packMtu_eq : packMtu c = c.mtu := Nat.max_eq_left hlow

/-- A batch that starts anew. -/
theorem Budgeted.emptied (h : Budgeted c s) : Budgeted c { t := s.t } :=
  { h with
    batch := by simp
    bytes := rfl
    room := le_trans (show kZDTHeaderReserve ≤ _ by decide) hlow }

theorem Budgeted.flushBatch (h : Budgeted c s) (pace : Pace) :
    Budgeted c (flushBatch pace s) ∧
      (Transport.flushBatch pace s).batchBytes = kZDTHeaderReserve := by
  have hflushed : Budgeted c { t := (Transport.flushBatch pace s).t } := by
    refine (budgeted_resends hlow).flushBatch pace (fun _ => h.emptied hlow) fun _ => ?_
    exact (h.emptied hlow).sendBatch pace.now (.inl rfl) (h.bytes ▸ h.room) h.batch
  by_cases hempty : s.batch.isEmpty = true
  · have hsame : Transport.flushBatch pace s = s := if_pos hempty
    have hbytes := h.bytes
    rw [List.isEmpty_iff.1 hempty] at hbytes
    rw [hsame]
    exact ⟨h, hbytes⟩
  · have hnew : Transport.flushBatch pace s = { t := (Transport.flushBatch pace s).t } := by
      unfold Transport.flushBatch
      rw [if_neg hempty]
    rw [hnew]
    exact ⟨hflushed, rfl⟩

include hhigh

variable (queued : QueuedOut) (channel : BitVec 8)

omit hlow hhigh in
theorem recordSize_whole (seq : Nat) :
    recordSize (wholeRecord queued channel seq) = zdtRecordSize false queued.payload.length := by
  have hlen : (wholeRecord queued channel seq).payload.length = queued.payload.length :=
    length_payload_makeRecord (le_of_eq (Nat.sub_zero _).symm) ..
  rw [recordSize, hasFlag_whole, hlen]

theorem light_whole {queued : QueuedOut} (hfit : queued.payload.length ≤ unfragCapacity c)
    (channel : BitVec 8) (seq : Nat) : Light c.mtu (wholeRecord queued channel seq) := by
  have hlen : (wholeRecord queued channel seq).payload.length = queued.payload.length :=
    length_payload_makeRecord (le_of_eq (Nat.sub_zero _).symm) ..
  rw [unfragCapacity, packMtu_eq hlow] at hfit
  have hsizes : kZDTHeaderReserve = 22 ∧ kZDTRecordHeaderSize = 6 ∧ kZDTFragRecordHeaderSize = 8 :=
    ⟨rfl, rfl, rfl⟩
  constructor
  · rw [recordSize_whole, zdtRecordSize, if_neg Bool.false_ne_true]
    omega
  · rw [Exact, hlen]
    show (BitVec.ofNat 16 queued.payload.length).toNat = _
    rw [BitVec.toNat_ofNat, Nat.mod_eq_of_lt (by omega)]

theorem light_fragment (seq count i : Nat) :
    Light c.mtu (fragmentRecord c queued channel seq count i) := by
  have hlen : (fragmentRecord c queued channel seq count i).payload.length =
      min (fragCapacity c) (queued.payload.length - i * fragCapacity c) :=
    length_payload_makeRecord (Nat.min_le_right _ _) ..
  have hcapacity : fragCapacity c = c.mtu - kZDTHeaderReserve - kZDTFragRecordHeaderSize := by
    rw [fragCapacity, packMtu_eq hlow]
  constructor
  · rw [recordSize, hasFlag_fragment, hlen, zdtRecordSize, if_pos rfl]
    omega
  · rw [Exact, hlen]
    show (BitVec.ofNat 16 (min (fragCapacity c) _)).toNat = _
    rw [BitVec.toNat_ofNat, Nat.mod_eq_of_lt (by omega)]

/-- One fragment, and its entry when it is reliable. -/
theorem Budgeted.sendFragment (h : Budgeted c s) (pace : Pace) (queued : QueuedOut)
    (channel : BitVec 8) (seq count i : Nat) :
    Budgeted c { s with t := sendFragment pace queued channel seq count s.t i } := by
  have hlight := light_fragment hlow hhigh queued channel seq count i
  have hconfig : s.t.config = c := h.config
  have hsent := h.resend pace.now hlight
  unfold Transport.sendFragment
  rw [hconfig]
  split
  · next hrel =>
    refine hsent.track ?_ rfl rfl (unacked_trackReliable _ _ _ _ _)
    rw [resentRecord_fragment hrel]
    exact hlight
  · exact hsent

/-- **One message.** -/
theorem Budgeted.packMessage (h : Budgeted c s) (pace : Pace) (queued : QueuedOut)
    (channel : BitVec 8) : Budgeted c (packMessage pace s queued channel) := by
  have hseq : Budgeted c { s with t := (s.t.takeSeq channel queued.reliable).1 } :=
    h.of_eq rfl rfl rfl
  obtain ⟨hflushed, hempty⟩ := hseq.flushBatch hlow pace
  have hconfig : s.t.config = c := h.config
  refine packMessage_of pace queued channel rfl rfl (fun hfit s' hs' => ?_) fun _ n _ => ?_
  · rw [hconfig] at hfit hs'
    generalize (s.t.takeSeq channel queued.reliable).2 = seq
    have hlight := light_whole hlow hhigh hfit channel seq
    rw [packMtu_eq hlow, ← recordSize_whole queued channel seq] at hs'
    rw [← recordSize_whole queued channel seq]
    obtain ⟨hs', hfits⟩ : Budgeted c s' ∧
        s'.batchBytes + recordSize (wholeRecord queued channel seq) ≤ c.mtu := by
      rcases hs' with rfl | ⟨rfl, hfull⟩
      · exact ⟨hflushed, hempty ▸ hlight.size⟩
      · exact ⟨hseq, not_lt.1 fun hlt => hfull (.inl hlt)⟩
    have htracked : Budgeted c { s' with t := (if queued.reliable = true then
        s'.t.trackReliable pace (wholeRecord queued channel seq) 0 {} else s'.t) } := by
      split
      · next hrel =>
        refine hs'.track ?_ rfl rfl (unacked_trackReliable _ _ _ _ _)
        rw [resentRecord_whole hrel]
        exact hlight
      · exact hs'
    refine { htracked with batch := fun p hp => ?_, bytes := ?_, room := hfits }
    · exact List.forall_mem_append.2 ⟨hs'.batch, List.forall_mem_singleton.2 hlight.exact⟩ p hp
    · have hbytes := hs'.bytes
      simp only [batchSize, List.map_append, List.sum_append, List.map_cons, List.map_nil,
        List.sum_cons, List.sum_nil] at hbytes ⊢
      omega
  · refine List.foldlRecOn (motive := fun t => Budgeted c
      { Transport.flushBatch pace { s with t := (s.t.takeSeq channel queued.reliable).1 } with
        t := t }) _ _ hflushed fun t ht i _ => ?_
    exact hconfig ▸ ht.sendFragment hlow hhigh pace queued channel _ _ i

/-- **Every change of the send path** stays within the budget. -/
theorem budgeted_withstands : Withstands (fun _ => True) ControlFlags (Budgeted c) where
  resends := budgeted_resends hlow
  flushes :=
    { stage := fun h => h.of_eq rfl rfl rfl
      rotate := fun h => h.of_eq rfl rfl rfl
      pack := fun pace h _ _ => by
        refine Budgeted.packMessage hlow hhigh ?_ pace _ _
        exact h.of_eq rfl rfl rfl
      flush := fun pace h => (h.flushBatch hlow pace).1.emptied hlow }
  accept _ h := h.of_eq rfl rfl rfl
  control now _ hflags h :=
    h.sendBatch now hflags (le_trans (show kZDTHeaderReserve ≤ _ by decide) hlow) (by simp)
  pong := .inr (.inr rfl)
  received h hsame := h.of_eq hsame.config hsame.wire hsame.unacked

end Budgeted

end Transport

open Transport

/-- The budget of a datagram and what goes on top of it are within the connection's MTU. -/
theorem ZDTConnection.datagramMTU_add_le (c : ZDTConnection) (ladder : MTULadder)
    (ipv : InetProtocolVersion)
    (hmtu : kZDTHeaderReserve + kZDTFragRecordHeaderSize + 1 ≤ (c.datagramMTU ladder ipv).toNat) :
    (if c.relayChannel ≠ 0 then kZDTRelayHeaderSize else 0) + (c.datagramMTU ladder ipv).toNat ≤
      (c.payloadMtu ladder ipv).toNat := by
  have hrelay : (if c.relayChannel ≠ 0 then kZDTRelayHeaderSize else 0) ≤ c.overhead :=
    Nat.le_add_right _ _
  have hoverhead : c.overhead ≤ 12 := by
    unfold ZDTConnection.overhead kZDTRelayHeaderSize kZDTCidSize
    split <;> split <;> omega
  have hfloor : kZDTHeaderReserve + kZDTFragRecordHeaderSize + 1 = 31 := rfl
  unfold ZDTConnection.datagramMTU at hmtu ⊢
  dsimp only at hmtu ⊢
  split at hmtu
  · next hroom =>
    rw [if_pos hroom, BitVec.toNat_ofNat, Nat.mod_eq_of_lt (by omega)]
    omega
  · omega

/-- **Datagrams fit.**  Take any connection whose `DatagramMTU` leaves room for a fragment,
with or without a relay and migration, any options, any ack history, and any run of the
endpoint.  Every datagram it has handed to the socket, with the relay header, the connection
id, the ack blocks and the records, is no larger than the MTU of the connection, or than the
payload of the lowest rung where the connection has none; and the length field of each record
is the length of its payload. -/
theorem datagram_within_mtu (c : ZDTConnection) (ladder : MTULadder) (ipv : InetProtocolVersion)
    (options : Config) (history : ZDTAckHistory)
    (hmtu : kZDTHeaderReserve + kZDTFragRecordHeaderSize + 1 ≤ (c.datagramMTU ladder ipv).toNat)
    {es : List EndpointEvent} {t : Transport}
    (hrun : endpoint.exec { config := c.config ladder ipv options, ackHistory := history } es =
      some t) (d : Datagram) (hd : d ∈ t.wire) :
    (c.datagramBytes d).length ≤
        (if c.mtu ≠ 0 then c.mtu else zdtPayloadForLinkMTU ladder.back ipv).toNat ∧
      ∀ p ∈ d.records, p.record.length.toNat = p.payload.length := by
  have hstart : Budgeted (c.config ladder ipv options)
      { t := { config := c.config ladder ipv options, ackHistory := history } } := by
    refine ⟨rfl, fun d hd => (by cases hd), fun key msg hmsg => ?_, by simp, rfl, ?_⟩
    · simp at hmsg
    · exact le_trans (show kZDTHeaderReserve ≤ _ by decide) hmtu
  have hbudget := (budgeted_withstands (c := c.config ladder ipv options) hmtu
    (c.datagramMTU ladder ipv).isLt).run hrun hstart
  have hfits := hbudget.sent d hd
  refine ⟨?_, hfits.exact⟩
  have hsize := hfits.size
  have hmargin := c.datagramMTU_add_le ladder ipv hmtu
  rw [length_datagramBytes]
  show _ ≤ (c.payloadMtu ladder ipv).toNat
  change headerSize d.header + batchSize d.records ≤ (c.datagramMTU ladder ipv).toNat at hsize
  omega

/-- Two messages, one of them too large for a datagram, through a relay with migration on. -/
def packedRun : List EndpointEvent :=
  [.work (.send { payload := [7] }),
    .work (.send { payload := List.replicate 100 1, reliable := false }),
    .work (.flush calm)]

/-- A connection with room for 42 bytes. -/
def narrowConnection : ZDTConnection where
  mtu := 54
  migrationEnabled := true
  relayChannel := 5

/-- The sizes of what was sent. -/
def sizes (c : ZDTConnection) (t : Transport) : List Nat :=
  t.wire.map fun d => (c.datagramBytes d).length

theorem datagram_within_mtu_relayed :
    ∃ t, endpoint.exec { config := narrowConnection.config {} .ipv4 {} } packedRun = some t ∧
      t.wire.length = 10 ∧ ∀ d ∈ t.wire, (narrowConnection.datagramBytes d).length ≤ 54 := by
  apply Machine.exists_exec (P := fun t => t.wire.length = 10) (by decide +kernel)
  intro t hrun hwire
  refine ⟨hwire, fun d hd => ?_⟩
  exact (datagram_within_mtu narrowConnection {} .ipv4 {} {} (by decide) hrun d hd).1

/-- **A connection without an MTU.**  `DatagramMTU` falls back to the lowest rung, and so the
datagrams are larger than the MTU of the connection, which is zero. -/
theorem datagram_exceeds_zero_mtu :
    (ZDTConnection.datagramMTU { mtu := 0 } {} .ipv4).toNat = 548 ∧
      ((endpoint.exec { config := ZDTConnection.config { mtu := 0 } {} .ipv4 {} } packedRun).map
        (sizes { mtu := 0 })) = some [119] := by
  decide +kernel

end Zdt
end Znet

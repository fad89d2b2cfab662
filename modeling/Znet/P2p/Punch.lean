import Znet.P2p.Relay
import Znet.P2p.Rendezvous
import Znet.Zdt.ClientHandshake

/-!
# The hole punch

`ZDTPunch` of `zdt_punch.cc`: the punch for one offer, a state machine without a socket or a
thread.  Both peers send punches toward every candidate of the other; the initiator also sends
requests, which the responder answers on whichever path they come.  The initiator is done with
the first answer, the responder with the first datagram of the initiator's session.  A relay is
bound from the start and joins after a delay.

What a function hands to the socket is a list of `Sent`; the guid that is drawn and the clock
are the environment's.

* `isInitiator` — the tiebreak; `isInitiator_ne`: **exactly one of the two is the initiator.**
-/

namespace Znet
namespace P2p

open Zdt

/-! ## The offer -/

structure PunchOffer where
  candidates : List Candidate
  punchId : BitVec 64 := 0
  isInitiator : Bool := false
  timeout : Int := 5000
  relayDelay : Int := 1000

/-- `IsInitiator`. -/
def isInitiator (punchId : BitVec 64) (selfId peerId : Name) : Bool :=
  let useSmaller := punchId &&& 1 == 0
  let selfIsSmaller := decide (selfId < peerId)
  useSmaller == selfIsSmaller

/-- **Exactly one of the two is the initiator.** -/
theorem isInitiator_ne (punchId : BitVec 64) {selfId peerId : Name} (h : selfId ≠ peerId) :
    isInitiator punchId selfId peerId ≠ isInitiator punchId peerId selfId := by
  have horder : decide (selfId < peerId) ≠ decide (peerId < selfId) := by
    by_cases hlt : selfId < peerId
    · simp [hlt, List.lt_asymm hlt]
    · have hgt : peerId < selfId := by
        by_contra hgt
        exact h (List.le_antisymm (List.not_lt.1 hgt) (List.not_lt.1 hlt))
      simp [hlt, hgt]
  intro heq
  apply horder
  simp only [isInitiator] at heq
  revert heq
  cases decide (selfId < peerId) <;> cases decide (peerId < selfId) <;>
    cases (punchId &&& 1 == 0) <;> decide

/-! ## Datagrams -/

def kPunchInterval : Int := 50

def kRequestInterval : Int := 100

def kBindInterval : Int := 100

/-- `BuildOffline`. -/
def buildOffline (id : ZDTOfflineMsg) : Buffer := writeOfflineHeader emptyMessage id

/-- `BuildPunch`. -/
def buildPunch : List UInt8 := (buildOffline .punch).data

/-- `BuildRequest1`. -/
def buildRequest1 (localGuid : BitVec 64) (capabilities : BitVec 8) : List UInt8 :=
  let request := buildOffline .openConnectionRequest1
  let request := request.writeNumber 1 kZDTProtocolVersion.toNat
  let request := request.writeNumber 8 localGuid.toNat
  (request.writeNumber 1 capabilities.toNat).data

/-- `BuildReply2`. -/
def buildReply2 (localGuid : BitVec 64) (mtu : BitVec 16) (capabilities : BitVec 8) : List UInt8 :=
  let reply := buildOffline .openConnectionReply2
  let reply := reply.writeNumber 8 localGuid.toNat
  let reply := reply.writeNumber 2 mtu.toNat
  (reply.writeNumber 1 capabilities.toNat).data

/-- `BuildIncompatibleVersion`. -/
def buildIncompatibleVersion (localGuid : BitVec 64) : List UInt8 :=
  let bad := buildOffline .incompatibleProtocolVersion
  let bad := bad.writeNumber 1 kZDTProtocolVersion.toNat
  (bad.writeNumber 8 localGuid.toNat).data

/-- `BuildRelayBind`. -/
def buildRelayBind (token : BitVec 64) : List UInt8 :=
  ((buildOffline .relayBind).writeNumber 8 token.toNat).data

/-- `BuildRelayBound`. -/
def buildRelayBound (token : BitVec 64) (channel : BitVec 32) : List UInt8 :=
  (((buildOffline .relayBound).writeNumber 8 token.toNat).writeNumber 4 channel.toNat).data

/-- A datagram as the punch takes it apart. -/
inductive PunchMessage where
  /-- Data of a session. -/
  | online
  /-- The token and the channel; `none` where it is too short. -/
  | relayBound (bound : Option (BitVec 64 × BitVec 32))
  | request1 (version : BitVec 8) (guid : BitVec 64) (capabilities : BitVec 8)
  | reply2 (guid : BitVec 64) (mtu : BitVec 16) (capabilities : BitVec 8)
  | incompatibleProtocolVersion
  /-- A stray, a punch, or a message the punch does not speak. -/
  | stray
  deriving DecidableEq

/-- What follows the header. -/
def readPunchBody : ZDTOfflineMsg → Reading PunchMessage
  | .relayBound => do
      let left ← Reading.readableBytes
      if left < 8 + 4 then pure (.relayBound none)
      else
        let token ← Reading.readNumber 8
        let channel ← Reading.readNumber 4
        pure (.relayBound (some (BitVec.ofNat 64 token, BitVec.ofNat 32 channel)))
  | .openConnectionRequest1 => do
      let version ← Reading.readNumber 1
      let guid ← Reading.readNumber 8
      let capabilities ← Reading.readNumber 1
      pure (.request1 (BitVec.ofNat 8 version) (BitVec.ofNat 64 guid) (BitVec.ofNat 8 capabilities))
  | .openConnectionReply2 => do
      let guid ← Reading.readNumber 8
      let mtu ← Reading.readNumber 2
      let capabilities ← Reading.readNumber 1
      pure (.reply2 (BitVec.ofNat 64 guid) (BitVec.ofNat 16 mtu) (BitVec.ofNat 8 capabilities))
  | .incompatibleProtocolVersion => pure .incompatibleProtocolVersion
  | _ => pure .stray

def readPunchOffline : Reading PunchMessage := do
  let id ← readOfflineHeader
  match id with
  | none => pure .stray
  | some id => readPunchBody id

/-- A datagram, by its first byte. -/
def readPunch (bytes : List UInt8) : PunchMessage :=
  if hasFlag (bytes.headD 0).toBitVec kFlagOnline then .online else readPunchOffline.parse bytes

/-- A message is read by its id. -/
theorem readPunch_offline {id : ZDTOfflineMsg} (hid : hasFlag id.code kFlagOnline = false)
    (rest : List UInt8) :
    readPunch (offlineHeader id rest) =
      ((readPunchBody (.ofCode id.code)).scan .bigEndian ⟨rest, .none⟩).1 := by
  rw [readPunch, first_offlineHeader, hid, if_neg (by simp), Reading.parse_eq, readPunchOffline]
  simp only [Reading.scan_bind', scan_readOfflineHeader hid]

theorem data_buildOffline (id : ZDTOfflineMsg) :
    (buildOffline id).data = offlineHeader id [] ∧ (buildOffline id).endianness = .bigEndian := by
  simp [buildOffline, data_writeOfflineHeader, emptyMessage, offlineHeader]

theorem buildPunch_eq : buildPunch = offlineHeader .punch [] :=
  (data_buildOffline _).1

variable (token : BitVec 64) (guid : BitVec 64) (channel : BitVec 32) (mtu : BitVec 16)

theorem buildRequest1_eq (capabilities : BitVec 8) :
    buildRequest1 guid capabilities = offlineHeader .openConnectionRequest1
      (Endianness.bigEndian.bytes 1 kZDTProtocolVersion.toNat ++
        (Endianness.bigEndian.bytes 8 guid.toNat ++
          (Endianness.bigEndian.bytes 1 capabilities.toNat ++ []))) := by
  simp [buildRequest1, data_buildOffline, offlineHeader]

theorem buildReply2_eq (capabilities : BitVec 8) :
    buildReply2 guid mtu capabilities = offlineHeader .openConnectionReply2
      (Endianness.bigEndian.bytes 8 guid.toNat ++ (Endianness.bigEndian.bytes 2 mtu.toNat ++
          (Endianness.bigEndian.bytes 1 capabilities.toNat ++ []))) := by
  simp [buildReply2, data_buildOffline, offlineHeader]

theorem buildRelayBind_eq :
    buildRelayBind token = offlineHeader .relayBind (Endianness.bigEndian.bytes 8 token.toNat) := by
  simp [buildRelayBind, data_buildOffline, offlineHeader]

theorem buildRelayBound_eq : buildRelayBound token channel = offlineHeader .relayBound
      (Endianness.bigEndian.bytes 8 token.toNat ++
        (Endianness.bigEndian.bytes 4 channel.toNat ++ [])) := by
  simp [buildRelayBound, data_buildOffline, offlineHeader]

theorem readPunch_punch : readPunch buildPunch = .stray := by
  rw [buildPunch_eq, readPunch_offline (by decide)]
  rfl

theorem readPunch_request1 (capabilities : BitVec 8) : readPunch (buildRequest1 guid capabilities) =
      .request1 kZDTProtocolVersion guid capabilities := by
  have hid : ZDTOfflineMsg.ofCode ZDTOfflineMsg.openConnectionRequest1.code =
      .openConnectionRequest1 := by decide
  rw [buildRequest1_eq, readPunch_offline (by decide), hid]
  simp only [readPunchBody, Reading.scan_bind', scan_readByte, scan_readCid, Reading.scan_pure,
    BitVec.ofNat_toNat, BitVec.setWidth_eq]

theorem readPunch_reply2 (capabilities : BitVec 8) :
    readPunch (buildReply2 guid mtu capabilities) = .reply2 guid mtu capabilities := by
  have hid : ZDTOfflineMsg.ofCode ZDTOfflineMsg.openConnectionReply2.code =
      .openConnectionReply2 := by decide
  rw [buildReply2_eq, readPunch_offline (by decide), hid]
  simp only [readPunchBody, Reading.scan_bind', scan_readByte, scan_readCid, scan_readSeq,
    Reading.scan_pure, BitVec.ofNat_toNat, BitVec.setWidth_eq]

theorem readPunch_relayBind : readPunch (buildRelayBind token) = .stray := by
  rw [buildRelayBind_eq, readPunch_offline (by decide)]
  rfl

theorem readPunch_relayBound :
    readPunch (buildRelayBound token channel) = .relayBound (some (token, channel)) := by
  have hid : ZDTOfflineMsg.ofCode ZDTOfflineMsg.relayBound.code = .relayBound := by decide
  have hlong : ¬ (Endianness.bigEndian.bytes 8 token.toNat ++
      (Endianness.bigEndian.bytes 4 channel.toNat ++ [])).length < 8 + 4 := by
    simp
  rw [buildRelayBound_eq, readPunch_offline (by decide), hid]
  simp only [readPunchBody, Reading.scan_bind', Reading.scan_readableBytes, hlong, if_false,
    scan_readCid, scan_readEpoch, Reading.scan_pure, BitVec.ofNat_toNat, BitVec.setWidth_eq]

/-! ## Through a relay -/

/-- What `SendDatagram` hands to the socket. -/
def wrapped (channel : BitVec 32) (datagram : List UInt8) : List UInt8 :=
  if channel = 0 then datagram
  else ((ZDTConnection.writeRelayHeader emptyMessage channel).write datagram).data

/-- `ReadRelayHeader`; `none` where it returns false. -/
def readRelayHeader (raw : List UInt8) : Option (BitVec 32) :=
  match raw with
  | marker :: high :: middle :: low :: _ =>
    let channel := BitVec.ofNat 32 (high.toNat * 65536 + middle.toNat * 256 + low.toNat)
    if marker.toNat ≠ kZDTRelayMarker ∨ channel = 0 then none else some channel
  | _ => none

/-- The channel and the datagram that `DrainSocket` finds in what arrived, if it goes on with
it. -/
def drained (raw : List UInt8) : Option (BitVec 32 × List UInt8) :=
  if (raw.headD 0).toNat = kZDTRelayMarker then
    (readRelayHeader raw).bind fun channel =>
      if raw.drop kZDTRelayHeaderSize = [] then none
      else some (channel, raw.drop kZDTRelayHeaderSize)
  else some (0, raw)

/-- A datagram that no relay header can be mistaken for. -/
def Speakable (datagram : List UInt8) : Prop :=
  datagram ≠ [] ∧ (datagram.headD 0).toNat ≠ kZDTRelayMarker

theorem speakable_offline {id : ZDTOfflineMsg} (h : id.code.toNat ≠ kZDTRelayMarker)
    (rest : List UInt8) : Speakable (offlineHeader id rest) := by
  constructor
  · simp [offlineHeader, kZDTMagic]
  · rw [← UInt8.toNat_toBitVec, first_offlineHeader]
    exact h

/-- A byte of a channel. -/
theorem toNat_channelByte (shift : Nat) :
    ((channel >>> shift) &&& 0xFF).toNat = channel.toNat / 2 ^ shift % 256 := by
  rw [BitVec.toNat_and, BitVec.toNat_ushiftRight, Nat.shiftRight_eq_div_pow]
  exact Nat.and_two_pow_sub_one_eq_mod _ 8

/-- The bytes of the relay header, in front of the datagram. -/
theorem wrapped_eq {channel : BitVec 32} (h : channel ≠ 0) (datagram : List UInt8) :
    wrapped channel datagram =
      192 :: UInt8.ofNat (channel.toNat / 65536 % 256) ::
        UInt8.ofNat (channel.toNat / 256 % 256) :: UInt8.ofNat (channel.toNat % 256) ::
          datagram := by
  have hlow : (channel &&& 0xFF).toNat = channel.toNat % 256 := by
    have hshift := toNat_channelByte channel 0
    rwa [BitVec.ushiftRight_zero, Nat.pow_zero, Nat.div_one] at hshift
  rw [wrapped, if_neg h]
  simp only [ZDTConnection.writeRelayHeader, toNat_channelByte, hlow, Buffer.data_write,
    Buffer.data_writeNumber, Buffer.endianness_writeNumber]
  rfl

/-- **What was wrapped is drained.** -/
theorem drained_wrapped {channel : BitVec 32} (hchannel : channel.toNat ≤ kZDTMaxRelayChannel)
    {datagram : List UInt8} (h : Speakable datagram) :
    drained (wrapped channel datagram) = some (channel, datagram) := by
  by_cases hzero : channel = 0
  · rw [wrapped, if_pos hzero, drained, if_neg h.2, hzero]
  · have hmax : channel.toNat ≤ 16777215 := hchannel
    have hnumber : channel.toNat / 65536 % 256 * 65536 + channel.toNat / 256 % 256 * 256 +
        channel.toNat % 256 = channel.toNat := by
      omega
    have hheader : readRelayHeader (wrapped channel datagram) = some channel := by
      rw [wrapped_eq hzero]
      simp only [readRelayHeader, UInt8.toNat_ofNat', Nat.mod_mod, hnumber, BitVec.ofNat_toNat,
        BitVec.setWidth_eq]
      rw [if_neg]
      rintro (hmarker | hnone)
      · exact hmarker rfl
      · exact hzero hnone
    have hdatagram : (wrapped channel datagram).drop kZDTRelayHeaderSize = datagram := by
      rw [wrapped_eq hzero]
      rfl
    have hmarker : ((wrapped channel datagram).headD 0).toNat = kZDTRelayMarker := by
      rw [wrapped_eq hzero]
      rfl
    rw [drained, if_pos hmarker, hheader, Option.bind_some, hdatagram, if_neg h.1]

/-! ## The machine -/

/-- The outcomes of an agent's requests. -/
inductive Result where
  | success
  | timeout
  | incompatibleVersion
  | cannotConnect
  | alreadyStopped
  | invalidAddress
  | invalidArgument
  deriving DecidableEq, Repr

/-- What is handed to `SendDatagram`: a datagram, to an address, on a channel of the relay that is
there, or bare on channel zero. -/
structure Sent where
  address : InetAddress
  channel : BitVec 32
  datagram : List UInt8
  deriving DecidableEq

inductive PunchOutcome where
  | pending
  /-- Where the peer was heard, and the datagram that belongs to the session, if one does. -/
  | completed (source : InetAddress) (channel : BitVec 32) (first : Option (List UInt8))
  | failed (reason : Result)
  deriving DecidableEq

/-- A relay of the offer; it is bound once its channel is not zero. -/
structure PunchRelay where
  candidate : Candidate
  channel : BitVec 32 := 0
  lastBind : Int := 0
  deriving DecidableEq

structure ZDTPunch where
  offer : PunchOffer
  localMigration : Bool
  direct : List Candidate
  relays : List PunchRelay
  connection : Connected
  answered : Bool := false
  deadline : Int
  relayStart : Int
  lastPunch : Int := 0
  lastRequest : Int := 0

/-- What a call leaves: the machine, what it sent, and what it concluded. -/
structure Punched where
  machine : ZDTPunch
  sent : List Sent := []
  outcome : PunchOutcome := .pending

namespace ZDTPunch

/-- The constructor. -/
def new (offer : PunchOffer) (now : Int) (localMigration : Bool) (guid : BitVec 64) : ZDTPunch where
  offer
  localMigration
  direct := offer.candidates.filter fun candidate => decide (candidate.type ≠ .relayed)
  relays := (offer.candidates.filter fun candidate => decide (candidate.type = .relayed)).map
    fun candidate => { candidate }
  connection := { mtu := 1200, localGuid := guid }
  deadline := now + offer.timeout
  relayStart := now + offer.relayDelay

variable (m : ZDTPunch) (source : InetAddress) (channel : BitVec 32)

/-- `Owns`. -/
def owns : Bool :=
  (channel == 0 && Rendezvous.containsAddress m.direct (some source)) ||
    m.relays.any fun relay =>
      decide (relay.candidate.address = some source) && (channel == 0 || channel == relay.channel)

/-- The capabilities the machine offers. -/
def capabilities : BitVec 8 := if m.localMigration then kZDTCapMigration else 0

/-- `RelayActive`. -/
def relayActive (relay : PunchRelay) (now : Int) : Bool :=
  decide (relay.channel ≠ 0 ∧ m.relayStart ≤ now)

/-- `SendToActive`. -/
def sendToActive (datagram : List UInt8) (now : Int) : List Sent :=
  (m.direct.filterMap fun candidate =>
      candidate.address.map fun address => ⟨address, 0, datagram⟩) ++
    (m.relays.filter fun relay => m.relayActive relay now).filterMap fun relay =>
      relay.candidate.address.map fun address => ⟨address, relay.channel, datagram⟩

/-- Whether a relay is to be sent a bind. -/
def bindDue (now : Int) (relay : PunchRelay) : Bool :=
  decide (relay.channel = 0 ∧ kBindInterval ≤ now - relay.lastBind)

/-- The binds of a tick. -/
def bindRelays (now : Int) : ZDTPunch × List Sent :=
  ({ m with
      relays := m.relays.map fun relay =>
        if bindDue now relay then { relay with lastBind := now } else relay },
    (m.relays.filter (bindDue now)).filterMap fun relay =>
      relay.candidate.address.map fun address =>
        ⟨address, 0, buildRelayBind relay.candidate.relayToken⟩)

/-- The punches of a tick. -/
def sendPunches (now : Int) : ZDTPunch × List Sent :=
  if kPunchInterval < now - m.lastPunch then
    ({ m with lastPunch := now }, m.sendToActive buildPunch now)
  else (m, [])

/-- The requests of a tick. -/
def sendRequests (now : Int) : ZDTPunch × List Sent :=
  if m.offer.isInitiator ∧ kRequestInterval < now - m.lastRequest then
    ({ m with lastRequest := now },
      m.sendToActive (buildRequest1 m.connection.localGuid m.capabilities) now)
  else (m, [])

/-- `Tick`. -/
def tick (now : Int) : Punched :=
  if m.deadline ≤ now then { machine := m, outcome := .failed .timeout }
  else
    let binds := m.bindRelays now
    let punches := binds.1.sendPunches now
    let requests := punches.1.sendRequests now
    { machine := requests.1, sent := binds.2 ++ punches.2 ++ requests.2 }

/-- `OnRelayBound`. -/
def onRelayBound (bound : Option (BitVec 64 × BitVec 32)) : ZDTPunch :=
  match bound with
  | none => m
  | some (token, channel) =>
    if channel = 0 ∨ kZDTMaxRelayChannel < channel.toNat then m
    else
      { m with
        relays := m.relays.map fun relay =>
          if relay.candidate.relayToken = token ∧ relay.candidate.address = some source then
            { relay with channel }
          else relay }

/-- What the peer has said of itself. -/
def settle (guid : BitVec 64) (capabilities : BitVec 8) : ZDTPunch :=
  { m with
    connection :=
      { m.connection with
        remoteGuid := guid
        migrationEnabled := m.localMigration && hasFlag capabilities kZDTCapMigration } }

/-- A Request1. -/
def onRequest1 (version : BitVec 8) (guid : BitVec 64) (capabilities : BitVec 8) : Punched :=
  if version ≠ kZDTProtocolVersion then
    { machine := m, sent := [⟨source, channel, buildIncompatibleVersion m.connection.localGuid⟩] }
  else
    { machine := { m.settle guid capabilities with answered := true }
      sent := [⟨source, channel,
        buildReply2 m.connection.localGuid m.connection.mtu m.capabilities⟩] }

/-- A Reply2. -/
def onReply2 (guid : BitVec 64) (mtu : BitVec 16) (capabilities : BitVec 8) : Punched :=
  let settled := m.settle guid capabilities
  { machine :=
      { settled with
        connection :=
          { settled.connection with
            mtu := if mtu ≠ 0 ∧ mtu < m.connection.mtu then mtu else m.connection.mtu } }
    outcome := .completed source channel none }

/-- `OnDatagram`. -/
def onDatagram (data : List UInt8) : Punched :=
  if data = [] then { machine := m }
  else
    match readPunch data with
    | .online =>
      if m.offer.isInitiator ∨ ¬ m.answered then { machine := m }
      else { machine := m, outcome := .completed source channel (some data) }
    | .relayBound bound => { machine := m.onRelayBound source bound }
    | .request1 version guid capabilities =>
      if m.offer.isInitiator then { machine := m }
      else m.onRequest1 source channel version guid capabilities
    | .reply2 guid mtu capabilities =>
      if m.offer.isInitiator then m.onReply2 source channel guid mtu capabilities
      else { machine := m }
    | .incompatibleProtocolVersion =>
      if m.offer.isInitiator then { machine := m, outcome := .failed .incompatibleVersion }
      else { machine := m }
    | .stray => { machine := m }

end ZDTPunch

/-! ## What a call can do -/

namespace ZDTPunch

variable {m : ZDTPunch}

/-- What the punch was made for stays as it is. -/
structure SameTerms (m m' : ZDTPunch) : Prop where
  offer : m'.offer = m.offer
  migration : m'.localMigration = m.localMigration
  connection : m'.connection = m.connection
  answered : m'.answered = m.answered

theorem SameTerms.refl (m : ZDTPunch) : SameTerms m m := ⟨rfl, rfl, rfl, rfl⟩

theorem SameTerms.capabilities {m' : ZDTPunch} (h : SameTerms m m') :
    m'.capabilities = m.capabilities := by
  rw [ZDTPunch.capabilities, h.migration, ZDTPunch.capabilities]

theorem sameTerms_bindRelays (m : ZDTPunch) (now : Int) : SameTerms m (m.bindRelays now).1 :=
  ⟨rfl, rfl, rfl, rfl⟩

theorem sameTerms_sendPunches (m : ZDTPunch) (now : Int) : SameTerms m (m.sendPunches now).1 := by
  unfold sendPunches
  split
  · exact ⟨rfl, rfl, rfl, rfl⟩
  · exact SameTerms.refl m

theorem sameTerms_sendRequests (m : ZDTPunch) (now : Int) : SameTerms m (m.sendRequests now).1 := by
  unfold sendRequests
  split
  · exact ⟨rfl, rfl, rfl, rfl⟩
  · exact SameTerms.refl m

theorem SameTerms.trans {m' m'' : ZDTPunch} (h : SameTerms m m') (h' : SameTerms m' m'') :
    SameTerms m m'' :=
  ⟨h'.offer.trans h.offer, h'.migration.trans h.migration, h'.connection.trans h.connection,
    h'.answered.trans h.answered⟩

theorem sameTerms_onRelayBound (m : ZDTPunch) (source : InetAddress)
    (bound : Option (BitVec 64 × BitVec 32)) : SameTerms m (m.onRelayBound source bound) := by
  unfold onRelayBound
  split
  · exact SameTerms.refl m
  · split
    · exact SameTerms.refl m
    · exact ⟨rfl, rfl, rfl, rfl⟩

theorem datagram_sendToActive {datagram : List UInt8} {now : Int} {x : Sent}
    (h : x ∈ m.sendToActive datagram now) : x.datagram = datagram := by
  rcases List.mem_append.1 h with h | h
  · obtain ⟨candidate, -, h⟩ := List.mem_filterMap.1 h
    obtain ⟨address, -, rfl⟩ := Option.map_eq_some_iff.1 h
    rfl
  · obtain ⟨relay, -, h⟩ := List.mem_filterMap.1 h
    obtain ⟨address, -, rfl⟩ := Option.map_eq_some_iff.1 h
    rfl

/-- **What a tick does.**  It fails, or sends binds, punches and, on the initiator, requests. -/
theorem tick_cases (m : ZDTPunch) (now : Int) :
    m.tick now = { machine := m, outcome := .failed .timeout } ∨
    (m.tick now).outcome = .pending ∧ SameTerms m (m.tick now).machine ∧
      ∀ x ∈ (m.tick now).sent,
        Speakable x.datagram ∧ readPunch x.datagram = .stray ∨
          m.offer.isInitiator = true ∧
            x.datagram = buildRequest1 m.connection.localGuid m.capabilities := by
  unfold tick
  split
  · exact .inl rfl
  · have hbinds := sameTerms_bindRelays m now
    have hpunches := hbinds.trans (sameTerms_sendPunches (m.bindRelays now).1 now)
    refine .inr ⟨rfl, hpunches.trans (sameTerms_sendRequests _ now), fun x hx => ?_⟩
    rcases List.mem_append.1 hx with hx | hx
    · rcases List.mem_append.1 hx with hx | hx
      · obtain ⟨relay, -, hx⟩ := List.mem_filterMap.1 hx
        obtain ⟨address, -, rfl⟩ := Option.map_eq_some_iff.1 hx
        refine .inl ⟨?_, readPunch_relayBind _⟩
        rw [buildRelayBind_eq]
        exact speakable_offline (by decide) _
      · unfold sendPunches at hx
        split at hx
        · rw [datagram_sendToActive hx]
          refine .inl ⟨?_, readPunch_punch⟩
          rw [buildPunch_eq]
          exact speakable_offline (by decide) _
        · cases hx
    · unfold sendRequests at hx
      split at hx
      · next hinitiator =>
        rw [hpunches.offer] at hinitiator
        refine .inr ⟨hinitiator.1, ?_⟩
        rw [datagram_sendToActive hx, hpunches.capabilities, hpunches.connection]
      · cases hx

/-- What a datagram does to the initiator: nothing that counts, or an answer completes the punch,
or the peer speaks another version. -/
theorem onDatagram_initiator (hm : m.offer.isInitiator = true) (source : InetAddress)
    (channel : BitVec 32) (data : List UInt8) :
    ((m.onDatagram source channel data).outcome = .pending ∧
      SameTerms m (m.onDatagram source channel data).machine ∧
      (m.onDatagram source channel data).sent = []) ∨
    (∃ guid mtu capabilities, readPunch data = .reply2 guid mtu capabilities ∧
      m.onDatagram source channel data = m.onReply2 source channel guid mtu capabilities) ∨
    (readPunch data = .incompatibleProtocolVersion ∧
      m.onDatagram source channel data =
        { machine := m, outcome := .failed .incompatibleVersion }) := by
  unfold onDatagram
  split
  · exact .inl ⟨rfl, SameTerms.refl m, rfl⟩
  · split
    · rw [if_pos (.inl hm)]
      exact .inl ⟨rfl, SameTerms.refl m, rfl⟩
    · next bound hread => exact .inl ⟨rfl, sameTerms_onRelayBound m source bound, rfl⟩
    · exact .inl ⟨rfl, SameTerms.refl m, rfl⟩
    · next guid mtu capabilities hread =>
      exact .inr (.inl ⟨guid, mtu, capabilities, hread, rfl⟩)
    · next hread =>
      exact .inr (.inr ⟨hread, rfl⟩)
    · exact .inl ⟨rfl, SameTerms.refl m, rfl⟩

/-- What a datagram does to the responder: nothing that counts, or a request is answered, or data of
a session completes a punch that has answered. -/
theorem onDatagram_responder (hm : m.offer.isInitiator = false) (source : InetAddress)
    (channel : BitVec 32) (data : List UInt8) :
    ((m.onDatagram source channel data).outcome = .pending ∧
      SameTerms m (m.onDatagram source channel data).machine ∧
      (m.onDatagram source channel data).sent = []) ∨
    (∃ version guid capabilities, readPunch data = .request1 version guid capabilities ∧
      m.onDatagram source channel data = m.onRequest1 source channel version guid capabilities) ∨
    (readPunch data = .online ∧ m.answered = true ∧
      m.onDatagram source channel data =
        { machine := m, outcome := .completed source channel (some data) }) := by
  unfold onDatagram
  split
  · exact .inl ⟨rfl, SameTerms.refl m, rfl⟩
  · split
    · next hread =>
      split
      · exact .inl ⟨rfl, SameTerms.refl m, rfl⟩
      · next hanswered =>
        rw [not_or, not_not] at hanswered
        exact .inr (.inr ⟨hread, hanswered.2, rfl⟩)
    · next bound hread => exact .inl ⟨rfl, sameTerms_onRelayBound m source bound, rfl⟩
    · next version guid capabilities hread =>
      rw [if_neg (by simp [hm])]
      exact .inr (.inl ⟨version, guid, capabilities, hread, rfl⟩)
    · rw [if_neg (by simp [hm])]
      exact .inl ⟨rfl, SameTerms.refl m, rfl⟩
    · rw [if_neg (by simp [hm])]
      exact .inl ⟨rfl, SameTerms.refl m, rfl⟩
    · exact .inl ⟨rfl, SameTerms.refl m, rfl⟩

end ZDTPunch

end P2p
end Znet

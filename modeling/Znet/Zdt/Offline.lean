import Znet.Inet.Address
import Znet.Zdt.Cookie
import Znet.Zdt.Mtu

/-!
# Offline messages

The messages of the handshake and of path validation (`zdt_wire.cc`, `zdt_backends.cc`): an id
below 0x80, the magic, and fields in network order.  A reader that runs out of bytes goes on
with zeros.

* `readDatagram_request2` — **the server reads the request the client wrote.**
-/

namespace Znet

/-- What a program makes of the bytes of a datagram. -/
def Reading.parse {α : Type} (p : Reading α) (bytes : List UInt8) : α :=
  (p.run (Buffer.ofData bytes .bigEndian)).1

theorem Reading.parse_eq {α : Type} (p : Reading α) (bytes : List UInt8) :
    p.parse bytes = (p.scan .bigEndian ⟨bytes, .none⟩).1 := by
  have hat : At bytes .bigEndian bytes .none (Buffer.ofData bytes .bigEndian) :=
    ⟨rfl, rfl, rfl, Nat.zero_add _, rfl, rfl⟩
  exact (hat.run p).1

/-- `ipv`. -/
def Endpoint.ipv (endpoint : Endpoint) : Zdt.InetProtocolVersion :=
  match endpoint.host with
  | .ipv4 _ => .ipv4
  | .ipv6 _ => .ipv6

/-- How many bytes an endpoint takes on the wire. -/
def Endpoint.wireSize (endpoint : Endpoint) : Nat := (InetAddress.inet endpoint).wire.length

namespace Zdt

/-! ## Ids -/

inductive ZDTOfflineMsg where
  | openConnectionRequest1
  | openConnectionReply1
  | openConnectionRequest2
  | openConnectionReply2
  | incompatibleProtocolVersion
  | noFreeConnections
  | alreadyConnected
  | connectionBanned
  | punch
  | relayBind
  | relayBound
  | reflect
  | reflected
  | pathChallenge
  | pathResponse
  /-- A value of the byte that has no name. -/
  | unnamed (id : BitVec 8)
  deriving DecidableEq, Repr

namespace ZDTOfflineMsg

def code : ZDTOfflineMsg → BitVec 8
  | openConnectionRequest1 => 0x01
  | openConnectionReply1 => 0x02
  | openConnectionRequest2 => 0x03
  | openConnectionReply2 => 0x04
  | incompatibleProtocolVersion => 0x05
  | noFreeConnections => 0x06
  | alreadyConnected => 0x07
  | connectionBanned => 0x08
  | punch => 0x09
  | relayBind => 0x0A
  | relayBound => 0x0B
  | reflect => 0x0C
  | reflected => 0x0D
  | pathChallenge => 0x0E
  | pathResponse => 0x0F
  | unnamed id => id

/-- The messages that have a name. -/
def named : List ZDTOfflineMsg :=
  [openConnectionRequest1, openConnectionReply1, openConnectionRequest2, openConnectionReply2,
    incompatibleProtocolVersion, noFreeConnections, alreadyConnected, connectionBanned, punch,
    relayBind, relayBound, reflect, reflected, pathChallenge, pathResponse]

/-- The cast from the byte. -/
def ofCode (id : BitVec 8) : ZDTOfflineMsg := (named.find? fun m => m.code = id).getD (.unnamed id)

end ZDTOfflineMsg

/-! ## The header -/

def kZDTProtocolVersion : BitVec 8 := 5

/-- Connection migration. -/
def kZDTCapMigration : BitVec 8 := 1

def kZDTMagic : List UInt8 := [0x5A, 0x4E, 0x45, 0x54, 0x5A, 0x44, 0x54, 0x01]

def kZDTOfflineHeaderSize : Nat := 1 + kZDTMagic.length

def kZDTCookieLen : Nat := 16

abbrev ZDTCookie := Vector UInt8 16

/-- `WriteOfflineHeader`. -/
def writeOfflineHeader (b : Buffer) (id : ZDTOfflineMsg) : Buffer :=
  (b.writeNumber 1 id.code.toNat).write kZDTMagic

/-- `ReadOfflineHeader`; `none` where it returns false. -/
def readOfflineHeader : Reading (Option ZDTOfflineMsg) := do
  let left ← Reading.readableBytes
  if left < kZDTOfflineHeaderSize then pure none
  else
    let id ← Reading.readNumber 1
    if hasFlag (BitVec.ofNat 8 id) kFlagOnline then pure none
    else
      let magic ← Reading.readArray (Vector.replicate 8 0)
      if magic.toList ≠ kZDTMagic then pure none
      else pure (some (.ofCode (BitVec.ofNat 8 id)))

/-- `PeekOfflineHeader`. -/
def peekOfflineHeader (data : List UInt8) : Option ZDTOfflineMsg :=
  if data.length < kZDTOfflineHeaderSize ∨ hasFlag (data.headD 0).toBitVec kFlagOnline then none
  else if (data.drop 1).take kZDTMagic.length ≠ kZDTMagic then none
  else some (.ofCode (data.headD 0).toBitVec)

/-- `ReadBigEndian64`. -/
def readBigEndian64 (data : List UInt8) : BitVec 64 := BitVec.ofNat 64 (Bytes.ofBe (data.take 8))

/-- `PeekCid`. -/
def peekCid (data : List UInt8) : Option (BitVec 64) :=
  if data.length < 1 + kZDTCidSize ∨ ¬ hasFlag (data.headD 0).toBitVec kFlagHasCid then none
  else some (readBigEndian64 (data.drop 1))

/-! ## Messages of the client -/

/-- What is on the wire before anything is written. -/
def emptyMessage : Buffer := { endianness := .bigEndian }

/-- A Request1, padded to the payload that is probed. -/
def request1 (probe : BitVec 16) : List UInt8 :=
  let b := writeOfflineHeader emptyMessage .openConnectionRequest1
  let b := b.writeNumber 1 kZDTProtocolVersion.toNat
  let b :=
    if b.data.length < probe.toNat then b.write (List.replicate (probe.toNat - b.data.length) 0)
    else b
  b.data

/-- What a Request2 says. -/
structure OpenConnectionRequest2 (Cookie : Type) where
  cookie : Cookie
  epoch : BitVec 32
  mtu : BitVec 16
  clientGuid : BitVec 64
  clientCap : BitVec 8
  deriving DecidableEq

/-- A Request2 to a server. -/
def request2 (server : Endpoint) (r : OpenConnectionRequest2 ZDTCookie) : List UInt8 :=
  let b := writeOfflineHeader emptyMessage .openConnectionRequest2
  let b := b.writeNumber 1 kZDTCookieLen
  let b := b.write r.cookie.toList
  let b := b.writeNumber 4 r.epoch.toNat
  let b := writeInetAddress b (.inet server)
  let b := b.writeNumber 2 r.mtu.toNat
  let b := b.writeNumber 8 r.clientGuid.toNat
  let b := b.writeNumber 1 r.clientCap.toNat
  b.data

/-! ## Messages of path validation -/

structure ZDTPathMessage (Cookie : Type) where
  cid : BitVec 64
  epoch : BitVec 32
  cookie : Cookie
  deriving DecidableEq

variable (id : ZDTOfflineMsg)

/-- `WritePathMessage`. -/
def writePathMessage (m : ZDTPathMessage ZDTCookie) : Buffer :=
  let b := writeOfflineHeader emptyMessage id
  let b := b.writeNumber 8 m.cid.toNat
  let b := b.writeNumber 4 m.epoch.toNat
  b.write m.cookie.toList

/-- `ReadPathMessage`; `none` where it returns false. -/
def readPathMessage : Reading (Option (ZDTPathMessage ZDTCookie)) := do
  let left ← Reading.readableBytes
  if left < 8 + 4 + kZDTCookieLen then pure none
  else
    let cid ← Reading.readNumber 8
    let epoch ← Reading.readNumber 4
    let cookie ← Reading.readArray (Vector.replicate 16 0)
    pure (some { cid := BitVec.ofNat 64 cid, epoch := BitVec.ofNat 32 epoch, cookie })

/-! ## Messages of the server -/

/-- What the server sends: its offline messages, and a datagram of one of its sessions, of
which only the size matters here. -/
inductive Reply (Cookie : Type) where
  | reply1 (serverGuid : BitVec 64) (mtu : BitVec 16) (cookie : Cookie) (epoch : BitVec 32)
      (cap : BitVec 8)
  | incompatibleProtocolVersion (serverGuid : BitVec 64)
  | reply2 (serverGuid : BitVec 64) (external : Endpoint) (mtu : BitVec 16)
  | noFreeConnections (serverGuid : BitVec 64)
  | pathChallenge (m : ZDTPathMessage Cookie)
  | online (size : Nat)
  deriving DecidableEq

/-- The cookie a message carries. -/
def Reply.cookie? {Cookie : Type} : Reply Cookie → Option Cookie
  | .reply1 _ _ cookie _ _ => some cookie
  | .pathChallenge m => some m.cookie
  | _ => none

/-- The size of a message. -/
def Reply.size {Cookie : Type} : Reply Cookie → Nat
  | .reply1 .. => 41
  | .incompatibleProtocolVersion _ => 18
  | .reply2 _ external _ => 19 + external.wireSize
  | .noFreeConnections _ => 17
  | .pathChallenge _ => 37
  | .online size => size

/-- The bytes of an offline message; those of a session are not made here. -/
def Reply.bytes : Reply ZDTCookie → List UInt8
  | .reply1 serverGuid mtu cookie epoch cap =>
    let b := writeOfflineHeader emptyMessage .openConnectionReply1
    let b := b.writeNumber 8 serverGuid.toNat
    let b := b.writeNumber 2 mtu.toNat
    let b := b.writeNumber 1 kZDTCookieLen
    let b := b.write cookie.toList
    let b := b.writeNumber 4 epoch.toNat
    let b := b.writeNumber 1 cap.toNat
    b.data
  | .incompatibleProtocolVersion serverGuid =>
    let b := writeOfflineHeader emptyMessage .incompatibleProtocolVersion
    let b := b.writeNumber 1 kZDTProtocolVersion.toNat
    let b := b.writeNumber 8 serverGuid.toNat
    b.data
  | .reply2 serverGuid external mtu =>
    let b := writeOfflineHeader emptyMessage .openConnectionReply2
    let b := b.writeNumber 8 serverGuid.toNat
    let b := writeInetAddress b (.inet external)
    let b := b.writeNumber 2 mtu.toNat
    b.data
  | .noFreeConnections serverGuid =>
    let b := writeOfflineHeader emptyMessage .noFreeConnections
    let b := b.writeNumber 8 serverGuid.toNat
    b.data
  | .pathChallenge m => (writePathMessage .pathChallenge m).data
  | .online _ => []

theorem data_writeOfflineHeader (b : Buffer) (id : ZDTOfflineMsg) :
    (writeOfflineHeader b id).data = b.data ++ (b.endianness.bytes 1 id.code.toNat ++ kZDTMagic) ∧
      (writeOfflineHeader b id).endianness = b.endianness := by
  simp [writeOfflineHeader]

/-! ## A datagram as the server reads it -/

/-- An offline message with a header that is accepted. -/
inductive OfflineMessage (Cookie : Type) where
  | request1 (version : BitVec 8)
  /-- A Request2; `none` where its cookie does not have the length of a cookie. -/
  | request2 (r : Option (OpenConnectionRequest2 Cookie))
  /-- A path response; `none` where it is too short. -/
  | pathResponse (m : Option (ZDTPathMessage Cookie))
  | other (id : ZDTOfflineMsg)
  deriving DecidableEq

inductive Content (Cookie : Type) where
  /-- An online datagram, with the connection id `PeekCid` finds in it. -/
  | online (cid : Option (BitVec 64))
  | offline (m : OfflineMessage Cookie)
  /-- Neither. -/
  | unreadable
  deriving DecidableEq

/-- What the server reads of a Request2. -/
def readRequest2 : Reading (Option (OpenConnectionRequest2 ZDTCookie)) := do
  let cookieLen ← Reading.readNumber 1
  if cookieLen ≠ kZDTCookieLen then pure none
  else
    let cookie ← Reading.readArray (Vector.replicate 16 0)
    let epoch ← Reading.readNumber 4
    let _ ← readInetAddress
    let mtu ← Reading.readNumber 2
    let clientGuid ← Reading.readNumber 8
    let clientCap ← Reading.readNumber 1
    pure (some
      { cookie, epoch := BitVec.ofNat 32 epoch, mtu := BitVec.ofNat 16 mtu
        clientGuid := BitVec.ofNat 64 clientGuid, clientCap := BitVec.ofNat 8 clientCap })

/-- What follows the header of an offline message. -/
def readOfflineBody : Reading (OfflineMessage ZDTCookie) :=
  match id with
  | .openConnectionRequest1 => do
      let version ← Reading.readNumber 1
      pure (.request1 (BitVec.ofNat 8 version))
  | .openConnectionRequest2 => do
      let r ← readRequest2
      pure (.request2 r)
  | .pathResponse => do
      let m ← readPathMessage
      pure (.pathResponse m)
  | id => pure (.other id)

def readOffline : Reading (Content ZDTCookie) := do
  let id ← readOfflineHeader
  match id with
  | none => pure .unreadable
  | some id => do
      let m ← readOfflineBody id
      pure (.offline m)

/-- A datagram, by its first byte. -/
def readDatagram (bytes : List UInt8) : Content ZDTCookie :=
  if hasFlag (bytes.headD 0).toBitVec kFlagOnline then .online (peekCid bytes)
  else readOffline.parse bytes

/-! ## The server reads what the client wrote -/

theorem scan_readArray {n : Nat} (old v : Vector UInt8 n) (rest : List UInt8) (e : BufferError) :
    (Reading.readArray old).scan .bigEndian ⟨v.toList ++ rest, e⟩ = (v, ⟨rest, e⟩) := by
  have hlength : v.toList.length = n := Vector.length_toList
  have hle : n ≤ (v.toList ++ rest).length := by
    rw [List.length_append]
    omega
  have hbytes : (Vector.ofFn fun i : Fin n => v.toList.getD i 0) = v := by
    ext i hi
    simp
  simp only [Reading.readArray, Reading.scan, if_pos hle, Option.map_some, Option.getD_some]
  rw [List.take_left' hlength, List.drop_left' hlength, hbytes]

theorem scan_readEpoch (x : BitVec 32) (rest : List UInt8) (e : BufferError) :
    (Reading.readNumber 4).scan .bigEndian ⟨Endianness.bigEndian.bytes 4 x.toNat ++ rest, e⟩ =
      (x.toNat, ⟨rest, e⟩) := by
  have hx : x.toNat < 256 ^ 4 := x.isLt
  rw [Reading.scan_readNumber, Nat.mod_eq_of_lt hx]

/-- The header of a message, in front of what follows it. -/
def offlineHeader (rest : List UInt8) : List UInt8 :=
  Endianness.bigEndian.bytes 1 id.code.toNat ++ (kZDTMagic ++ rest)

theorem first_offlineHeader (rest : List UInt8) :
    ((offlineHeader id rest).headD 0).toBitVec = id.code := by
  simp [offlineHeader, Endianness.bytes, Bytes.be, Bytes.le]

theorem scan_readOfflineHeader {id : ZDTOfflineMsg} (hid : hasFlag id.code kFlagOnline = false)
    (rest : List UInt8) (e : BufferError) :
    readOfflineHeader.scan .bigEndian ⟨offlineHeader id rest, e⟩ =
      (some (.ofCode id.code), ⟨rest, e⟩) := by
  have hlong : ¬ (offlineHeader id rest).length < kZDTOfflineHeaderSize := by
    simp only [offlineHeader, kZDTOfflineHeaderSize, List.length_append, Endianness.length_bytes]
    omega
  have hmagic : kZDTMagic = (Vector.mk kZDTMagic.toArray rfl : Vector UInt8 8).toList := rfl
  simp only [readOfflineHeader, Reading.scan_bind', Reading.scan_readableBytes, hlong, if_false]
  rw [offlineHeader, scan_readByte, hmagic]
  simp only [BitVec.ofNat_toNat, BitVec.setWidth_eq, hid, Bool.false_eq_true, if_false,
    Reading.scan_bind', scan_readArray, ne_eq, not_true_eq_false, Reading.scan_pure]

/-- An offline message is read by its id. -/
theorem readDatagram_offline {id : ZDTOfflineMsg} (hid : hasFlag id.code kFlagOnline = false)
    (rest : List UInt8) :
    readDatagram (offlineHeader id rest) =
      .offline ((readOfflineBody (.ofCode id.code)).scan .bigEndian ⟨rest, .none⟩).1 := by
  rw [readDatagram, first_offlineHeader, hid, if_neg (by simp), Reading.parse_eq, readOffline]
  simp only [Reading.scan_bind', scan_readOfflineHeader hid, Reading.scan_pure]

variable (server : Endpoint) (r : OpenConnectionRequest2 ZDTCookie)

theorem scan_readInetAddress (endpoint : Endpoint) (rest : List UInt8) (e : BufferError) :
    readInetAddress.scan .bigEndian ⟨(InetAddress.inet endpoint).wire ++ rest, e⟩ =
      (some endpoint, ⟨rest, e⟩) := by
  have hport : ∀ (port : BitVec 16) (rest : List UInt8), readPort.scan .bigEndian
      ⟨Bytes.be 2 port.toNat ++ rest, e⟩ = (port, ⟨rest, e⟩) := by
    intro port rest
    have hvector : Bytes.be 2 port.toNat =
        (Vector.mk (Bytes.be 2 port.toNat).toArray (Bytes.length_be _ _) : Vector UInt8 2).toList :=
      rfl
    have hlt : port.toNat < 256 ^ 2 := port.isLt
    rw [hvector]
    simp only [readPort, Reading.scan_bind', scan_readArray, Reading.scan_pure]
    rw [← hvector, Bytes.ofBe_be, Nat.mod_eq_of_lt hlt, BitVec.ofNat_toNat, BitVec.setWidth_eq]
  have hversion : ∀ (x : BitVec 8) (rest : List UInt8), (Reading.readNumber 1).scan .bigEndian
      ⟨UInt8.ofBitVec x :: rest, e⟩ = (x.toNat, ⟨rest, e⟩) := by
    intro x rest
    have hbyte := scan_readByte .bigEndian x rest e
    have hone : Endianness.bigEndian.bytes 1 x.toNat = [UInt8.ofBitVec x] := by
      simp [Endianness.bytes, Bytes.be, Bytes.le]
    rwa [hone] at hbyte
  obtain ⟨host, port⟩ := endpoint
  cases host with
  | ipv4 ip =>
    simp only [InetAddress.wire, List.cons_append, List.append_assoc, readInetAddress,
      Reading.scan_bind']
    rw [show (4 : UInt8) = UInt8.ofBitVec 4 from rfl, hversion]
    simp [Reading.scan_bind', scan_readArray, hport]
  | ipv6 ip =>
    simp only [InetAddress.wire, List.cons_append, List.append_assoc, readInetAddress,
      Reading.scan_bind']
    rw [show (6 : UInt8) = UInt8.ofBitVec 6 from rfl, hversion]
    simp [Reading.scan_bind', scan_readArray, hport]

theorem request2_eq : request2 server r = offlineHeader .openConnectionRequest2
      (Endianness.bigEndian.bytes 1 kZDTCookieLen ++ (r.cookie.toList ++
        (Endianness.bigEndian.bytes 4 r.epoch.toNat ++ ((InetAddress.inet server).wire ++
          (Endianness.bigEndian.bytes 2 r.mtu.toNat ++
            (Endianness.bigEndian.bytes 8 r.clientGuid.toNat ++
              Endianness.bigEndian.bytes 1 r.clientCap.toNat)))))) := by
  simp [request2, data_writeOfflineHeader, emptyMessage, offlineHeader, writeInetAddress]

/-- A Request2 comes out with every field. -/
theorem readDatagram_request2 :
    readDatagram (request2 server r) = .offline (.request2 (some r)) := by
  have hid : ZDTOfflineMsg.ofCode ZDTOfflineMsg.openConnectionRequest2.code =
      .openConnectionRequest2 := by decide
  have hlength : (BitVec.ofNat 8 kZDTCookieLen).toNat = kZDTCookieLen := by decide
  have hcap := scan_readByte .bigEndian r.clientCap [] .none
  rw [List.append_nil] at hcap
  rw [request2_eq, readDatagram_offline (by decide), hid]
  simp only [readOfflineBody, readRequest2, Reading.scan_bind']
  rw [← hlength, scan_readByte]
  simp [Reading.scan_bind', scan_readArray, scan_readEpoch, scan_readInetAddress, scan_readSeq,
    scan_readCid, hcap]

end Zdt
end Znet

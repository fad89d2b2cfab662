import Znet.Codec
import Znet.Lib.Machine
import Znet.Crypto.ReplayWindow

/-!
# A session: its handshake, its pipeline and its cipher

`PeerSession` (`peer_session.cc`) with the two parts that see every message of
it: `MessagePipeline` (`message_pipeline.cc`), which serializes, compresses and
encrypts, and `EncryptionLayer` (`encryption.cc`), which also runs the handshake.

A ready packet that finishes the handshake releases the codec and the handler
while `Deserialize` is still running over them; what the source then does with
the rest of the payload is undefined, and the model stops there.
-/

namespace Znet
namespace Peer

open Crypto (ReplayWindow kMaxCounter)

/-- What the session uses of OpenSSL and zstd, by the functions of the source
that wrap them. -/
structure Libraries (Key : Type) where
  /-- `SerializePublicKey`; no bytes when it fails. -/
  serializePublicKey : Key → List UInt8
  deserializePublicKey : List UInt8 → Option Key
  cloneKey : Key → Option Key
  computeSharedSecret : Key → Key → Option (List UInt8)
  /-- `Hkdf`, by the secret, the info and the length of the output. -/
  hkdf : List UInt8 → List UInt8 → Nat → Option (List UInt8)
  hkdf_length : ∀ {secret info : List UInt8} {n : Nat} {out : List UInt8},
    hkdf secret info n = some out → out.length = n
  /-- `EVP_Digest` with SHA-256. -/
  digest : List UInt8 → Option (List UInt8)
  /-- `EncryptData`, by key, nonce, associated data and plaintext; returns the
  ciphertext and the tag. -/
  encryptData : List UInt8 → List UInt8 → List UInt8 → List UInt8 →
    Option (List UInt8 × List UInt8)
  /-- `DecryptData`, by key, nonce, associated data, ciphertext and tag. -/
  decryptData : List UInt8 → List UInt8 → List UInt8 → List UInt8 → List UInt8 →
    Option (List UInt8)
  /-- `ZNET_USE_ZSTD`. -/
  useZstd : Bool
  compressBound : Nat → Nat
  compressZstd : List UInt8 → Option (List UInt8)
  decompressZstd : List UInt8 → Option (List UInt8)

/-! ## The packets of the handshake -/

structure HandshakePacket (Key : Type) where
  pubKey : Option Key := none
  encryption : Bool := true
  compression : UInt8 := 0
  deriving DecidableEq

/-- A packet of the handshake's codec. -/
inductive ControlPacket (Key : Type) where
  | handshake (packet : HandshakePacket Key)
  | connectionReady (magic : List UInt8)
  deriving DecidableEq

def kHandshakeId : Nat := 2 ^ 64 - 2
def kReadyId : Nat := 2 ^ 64 - 3

/-- The magic of a `ConnectionReadyPacket`. -/
def kReadyMagic : List UInt8 := Bytes.ascii "343693b5-2b04-4d56-a3b5-48582ca37c7d"

section Packets

variable {Key : Type} (lib : Libraries Key)

def ControlPacket.packetId : ControlPacket Key → Nat
  | .handshake _ => kHandshakeId
  | .connectionReady _ => kReadyId

/-- `HandshakePacketSerializerV1::SerializeTyped` and
`ConnectionReadyPacketSerializerV1::SerializeTyped`. -/
def ControlPacket.write (b : Buffer) : ControlPacket Key → Buffer
  | .handshake packet =>
    let b := b.writeNumber 1 (if packet.encryption then 1 else 0)
    let b := b.writeNumber 1 packet.compression.toNat
    let der := (packet.pubKey.map lib.serializePublicKey).getD []
    (b.writeNumber 4 der.length).write der
  | .connectionReady magic => b.writeString magic

/-- `HandshakePacketSerializerV1::DeserializeTyped`.  A key that is cut short is
read from a buffer of zeroes. -/
def readHandshake : Reading (Option (ControlPacket Key)) := do
  let encryption ← Reading.readNumber 1
  let compression ← Reading.readNumber 1
  let len ← Reading.readNumber 4
  if len = 0 then
    pure (some (.handshake
      { encryption := encryption != 0, compression := UInt8.ofNat compression }))
  else
    Reading.fetch len fun bytes =>
      pure (some (.handshake
        { pubKey := lib.deserializePublicKey (bytes.getD (List.replicate len 0))
          encryption := encryption != 0
          compression := UInt8.ofNat compression }))

/-- `ConnectionReadyPacketSerializerV1::DeserializeTyped`. -/
def readReady : Reading (Option (ControlPacket Key)) := do
  let magic ← Reading.readString
  pure (some (.connectionReady magic))

/-- The handshake's codec. -/
def controlSerializers : Serializers (ControlPacket Key) := fun packetId =>
  if packetId = kHandshakeId then some (readHandshake lib)
  else if packetId = kReadyId then some readReady
  else none

end Packets

/-! ## The state -/

/-- What `handler_` and the codec are set to; they are set and cleared together. -/
inductive Handler where
  | handshake
  | cleared
  | application
  deriving DecidableEq, Repr

structure PeerSession (Key : Type) where
  isInitiator : Bool
  /-- The transport is closed. -/
  isClosed : Bool := false
  isReady : Bool := false
  handler : Handler := .handshake
  /-- A `CompressionType`, by its raw value: 0 is none, 1 is Zstandard. -/
  negotiatedCompression : UInt8 := 0
  outCompression : UInt8 := 0
  compressionThreshold : Nat := 128
  invalidFrames : Nat := 0
  maxInvalidFrames : Nat := 16
  pubKey : Option Key
  peerPkey : Option Key := none
  sentHandshake : Bool := false
  sentReady : Bool := false
  enableEncryption : Bool := false
  wantEncryption : Bool := true
  negotiated : Bool := false
  keyFilled : Bool := false
  txKey : List UInt8 := List.replicate 32 0
  rxKey : List UInt8 := List.replicate 32 0
  txSalt : List UInt8 := List.replicate 4 0
  rxSalt : List UInt8 := List.replicate 4 0
  /-- The key `enc_ctx_` is scheduled with, once `cipher_keyed_` is set. -/
  encKey : Option (List UInt8) := none
  /-- The key `dec_ctx_` is scheduled with, once `dec_keyed_` is set. -/
  decKey : Option (List UInt8) := none
  txCounters : List Nat := []
  rxReplay : List ReplayWindow := []
  /-- History: the messages handed to the transport. -/
  sent : List (List UInt8) := []
  /-- History: the nonces `EncryptData` was called with. -/
  nonces : List (List UInt8) := []
  /-- History: the ready packets handled, each with the key its message was
  decrypted under. -/
  readies : List (Option (List UInt8)) := []
  deriving DecidableEq

/-- The options a session reads. -/
structure SessionOptions where
  encryption : Bool := true
  /-- `CompressionType::Default` is 0xFF. -/
  compression : UInt8 := 0xFF
  compressionThreshold : Nat := 128
  maxInvalidFrames : Nat := 16

def kModePlaintext : Nat := 0
def kModeAesCbc : Nat := 1
def kModeAesGcm : Nat := 2
def kCounterLen : Nat := 7
def kHeaderLen : Nat := 1 + kCounterLen
def kTagLen : Nat := 16
def kIntMax : Nat := 2147483647

/-- The associated data: the mode byte. -/
def kAad : List UInt8 := [2]

/-- `BuildNonce`. -/
def buildNonce (salt : List UInt8) (stream : UInt8) (counter : Nat) : List UInt8 :=
  salt ++ stream :: Bytes.be kCounterLen counter

/-- A vector indexed by stream, grown until it has an entry for the stream. -/
def grown {α : Type} (xs : List α) (stream : UInt8) (fresh : α) : List α :=
  xs ++ List.replicate (stream.toNat + 1 - xs.length) fresh

namespace PeerSession

variable {Key : Type}

/-! ## The single updates -/

section Updates

variable (s : PeerSession Key)

/-- `PeerSession::Close`. -/
def close : PeerSession Key := { s with isClosed := true }

/-- A message is handed to the transport. -/
def hand (message : List UInt8) : PeerSession Key := { s with sent := s.sent ++ [message] }

/-- `SetNegotiatedCompression`. -/
def adopt (compression : UInt8) : PeerSession Key := { s with negotiatedCompression := compression }

/-- The mode is settled. -/
def settle : PeerSession Key := { s with negotiated := true }

/-- The peer's key is kept. -/
def meet (peer : Key) : PeerSession Key := { s with peerPkey := some peer }

/-- The keys and salts of the two directions. -/
def setKeys (tx rx : List UInt8) : PeerSession Key :=
  { s with txKey := tx.take 32, txSalt := tx.drop 32, rxKey := rx.take 32, rxSalt := rx.drop 32 }

/-- The keys are there, and with them the mode. -/
def fill : PeerSession Key := { s with keyFilled := true, negotiated := true }

/-- The outgoing mode follows the negotiated outcome. -/
def arm : PeerSession Key := { s with enableEncryption := s.keyFilled }

def noteHandshake : PeerSession Key := { s with sentHandshake := true }

def noteReady : PeerSession Key := { s with sentReady := true }

/-- A ready packet is handled. -/
def logReady (origin : Option (List UInt8)) : PeerSession Key :=
  { s with readies := s.readies ++ [origin] }

/-- `SetHandler(nullptr)` and `SetCodec(nullptr)`. -/
def clear : PeerSession Key := { s with handler := .cleared }

def countInvalid (n : Nat) : PeerSession Key := { s with invalidFrames := s.invalidFrames + n }

/-- The counter of a stream is taken, and with it a nonce. -/
def takeCounter (stream : UInt8) (counter : Nat) : PeerSession Key :=
  { s with
    txCounters := (grown s.txCounters stream 0).set stream.toNat (counter + 1)
    nonces := s.nonces ++ [buildNonce s.txSalt stream counter] }

/-- `TxCounter` has made room for a stream. -/
def growCounters (stream : UInt8) : PeerSession Key :=
  { s with txCounters := grown s.txCounters stream 0 }

def keyCipher (key : List UInt8) : PeerSession Key := { s with encKey := some key }

/-- A message is authentic: the context is keyed and the window moves. -/
def openWith (key : List UInt8) (stream : UInt8) (window : ReplayWindow) : PeerSession Key :=
  { s with
    decKey := some key
    rxReplay := (grown s.rxReplay stream {}).set stream.toNat window }

end Updates

variable (lib : Libraries Key) (s : PeerSession Key)

/-! ## Sending -/

variable (b : Buffer)

/-- `CompressionCodec<None>::HandleOut`. -/
def compressNone : Buffer :=
  match b.prependInt8 0 with
  | (true, b) => b
  | (false, _) =>
    (((Buffer.reserveHeadroom {} 3).reserveExact (b.readableBytes + 4)).writeNumber 1 0).write
      b.readableData

/-- `CompressionCodec<Zstandard>::HandleOut`. -/
def compressZstandard : Option Buffer :=
  match lib.compressZstd b.readableData with
  | none => none
  | some compressed =>
    let out := ((Buffer.reserveHeadroom {} 4).reserveExact
      (4 + lib.compressBound b.readableBytes)).commitWrite compressed
    match out.prependInt8 1 with
    | (true, out) => some out
    | (false, _) => none

/-- `compr::HandleOutWithType`. -/
def handleOutWithType (type : UInt8) (b : Buffer) : Option Buffer :=
  if type = 0 then some (compressNone b)
  else if type = 1 then
    if lib.useZstd then compressZstandard lib b else some (compressNone b)
  else none

/-- `EncryptionLayer::HandleOut`, the part under `enable_encryption_`. -/
def encryptOut (stream : UInt8) : Option Buffer × PeerSession Key :=
  let out := (Buffer.reserveHeadroom {} 2).reserveExact
    (2 + 1 + kHeaderLen + b.readableBytes + kTagLen)
  let out := out.writeNumber 1 kModeAesGcm
  let headerPos := out.data.length
  let out := out.skipWrite kHeaderLen
  let next := (grown s.txCounters stream 0).getD stream.toNat 0
  if next = kMaxCounter then (none, s.growCounters stream)
  else
    let key := s.encKey.getD s.txKey
    match lib.encryptData key (buildNonce s.txSalt stream next) kAad b.readableData with
    | none => (none, s.takeCounter stream next)
    | some (ciphertext, tag) =>
      let out := (out.commitWrite ciphertext).write tag
      (some (out.backfill headerPos (stream :: Bytes.be kCounterLen next)),
        (s.takeCounter stream next).keyCipher key)

/-- `EncryptionLayer::HandleOut`. -/
def handleOut (stream : UInt8) : Option Buffer × PeerSession Key :=
  if kIntMax < b.readableBytes then (none, s)
  else if s.enableEncryption then s.encryptOut lib b stream
  else
    match b.prependInt8 0 with
    | (true, b) => (some b, s)
    | (false, _) =>
      (some ((((Buffer.reserveHeadroom {} 2).reserveExact (b.readableBytes + 3)).writeNumber 1
        0).write b.readableData), s)

/-- `MessagePipeline::Encode`, behind the codec. -/
def encode (stream : UInt8) : Option Buffer × PeerSession Key :=
  let compression := if b.readableBytes < s.compressionThreshold then 0 else s.outCompression
  match handleOutWithType lib compression b with
  | none => (none, s)
  | some b => s.handleOut lib b stream

/-- `EncodeAndSend` of what the codec has serialized, on a transport that takes
the message. -/
def encodeAndSend (serialized : Option Buffer) (stream : UInt8) : PeerSession Key :=
  if s.handler = .cleared then s
  else
    match serialized with
    | none => s
    | some b =>
      match s.encode lib b stream with
      | (none, s) => s
      | (some message, s) => s.hand message.readableData

/-- `kSendHeadroom`. -/
def kSendHeadroom : Nat := 4

/-- `SendImmediate`; its default options travel in stream 0. -/
def sendImmediate (packet : ControlPacket Key) : PeerSession Key :=
  if s.isClosed then s
  else
    s.encodeAndSend lib
      (serialize packet.packetId (fun b => .written (packet.write lib b)) kSendHeadroom) 0

/-- `SendHandshake`. -/
def sendHandshake : PeerSession Key :=
  let offerKey := s.isInitiator || s.wantEncryption
  let packet : HandshakePacket Key :=
    { pubKey := if offerKey then s.pubKey.bind lib.cloneKey else none
      encryption := s.wantEncryption
      compression := s.negotiatedCompression }
  (s.sendImmediate lib (.handshake packet)).noteHandshake

/-- `SendReady`: the negotiated outcome decides the mode. -/
def sendReady : PeerSession Key :=
  (s.arm.sendImmediate lib (.connectionReady kReadyMagic)).noteReady

/-! ## The keys -/

/-- The label the keys of a direction are expanded under; the initiator writes
client to server. -/
def txLabel (isInitiator : Bool) : List UInt8 :=
  Bytes.ascii (if isInitiator then "znet c2s v1" else "znet s2c v1")

def rxLabel (isInitiator : Bool) : List UInt8 :=
  Bytes.ascii (if isInitiator then "znet s2c v1" else "znet c2s v1")

/-- `DeriveExporterSecret`, whether it succeeds. -/
def deriveExporterSecret (secret : List UInt8) : Bool :=
  let der (key : Option Key) : List UInt8 := (key.map lib.serializePublicKey).getD []
  let initiator := der (if s.isInitiator then s.pubKey else s.peerPkey)
  let acceptor := der (if s.isInitiator then s.peerPkey else s.pubKey)
  if initiator = [] ∨ acceptor = [] then false
  else
    match lib.digest (Bytes.be 4 initiator.length ++ initiator ++
        (Bytes.be 4 acceptor.length ++ acceptor)) with
    | none => false
    | some digest => (lib.hkdf secret (Bytes.ascii "znet exporter v1" ++ digest) 32).isSome

/-- `DeriveDirectionalKeys`: a key of 32 bytes and a salt of 4 for each direction. -/
def deriveDirectionalKeys (secret : List UInt8) : Bool × PeerSession Key :=
  match lib.hkdf secret (txLabel s.isInitiator) 36, lib.hkdf secret (rxLabel s.isInitiator) 36 with
  | some tx, some rx => ((s.setKeys tx rx).deriveExporterSecret lib secret, s.setKeys tx rx)
  | _, _ => (false, s)

/-! ## The handshake -/

/-- The answer that ends `OnHandshakePacket`. -/
def answerHandshake : PeerSession Key :=
  if !s.sentHandshake then s.sendHandshake lib
  else if !s.sentReady then s.sendReady lib
  else s

/-- The key exchange in `OnHandshakePacket`. -/
def exchangeKeys (peer : Key) : PeerSession Key :=
  match s.pubKey.bind (lib.computeSharedSecret · peer) with
  | none => (s.meet peer).close
  | some secret =>
    if secret = [] then (s.meet peer).close
    else
      match (s.meet peer).deriveDirectionalKeys lib secret with
      | (false, s) => s.close
      | (true, s) => s.fill.answerHandshake lib

/-- `OnHandshakePacket`. -/
def onHandshakePacket (packet : HandshakePacket Key) : PeerSession Key :=
  if s.peerPkey.isSome || s.keyFilled then s.close
  else if s.isInitiator then
    if !packet.encryption then
      if !s.sentReady then ((s.adopt packet.compression).settle).sendReady lib
      else (s.adopt packet.compression).settle
    else
      match packet.pubKey with
      | none => (s.adopt packet.compression).close
      | some peer => (s.adopt packet.compression).exchangeKeys lib peer
  else if !s.wantEncryption then s.settle.answerHandshake lib
  else
    match packet.pubKey with
    | none => s.close
    | some peer => s.exchangeKeys lib peer

/-- `PeerSession::Ready`. -/
def ready : PeerSession Key :=
  if s.isClosed then s
  else
    { s with
      outCompression :=
        if s.negotiatedCompression ≠ 0 then s.negotiatedCompression else s.outCompression
      isReady := true }

/-- `OnAcknowledgePacket`, for a packet whose message was decrypted under the
given key. -/
def onAcknowledgePacket (origin : Option (List UInt8)) (magic : List UInt8) : PeerSession Key :=
  if !s.negotiated then (s.logReady origin).close
  else if magic ≠ kReadyMagic then (s.logReady origin).close
  else if !s.sentReady then ((s.logReady origin).sendReady lib).clear.ready
  else (s.logReady origin).clear.ready

/-- The handshake's handler, while it is installed. -/
def handle (origin : Option (List UInt8)) (packet : ControlPacket Key) : PeerSession Key :=
  if s.handler = .handshake then
    match packet with
    | .handshake packet => s.onHandshakePacket lib packet
    | .connectionReady magic => s.onAcknowledgePacket lib origin magic
  else s

/-! ## Receiving -/

/-- A plaintext, with the key it was decrypted under. -/
structure Opened where
  origin : Option (List UInt8)
  payload : Buffer

/-- `HandleDecrypt`, behind the mode byte of an encrypted message that is long
enough. -/
def decryptIn : Option Opened × PeerSession Key :=
  let (header, b) := b.copyOut kHeaderLen
  let stream := header.headD 0
  let counter := Bytes.ofBe header.tail
  let remaining := b.readableBytes
  let body := b.readableData
  let key := s.decKey.getD s.rxKey
  match lib.decryptData key (buildNonce s.rxSalt stream counter) kAad
      (body.take (remaining - kTagLen)) (body.drop (remaining - kTagLen)) with
  | none => (none, s)
  | some plaintext =>
    let (accepted, window) := ((grown s.rxReplay stream {}).getD stream.toNat {}).accept counter
    let s := s.openWith key stream window
    if accepted then
      (some ⟨some key, (Buffer.reserveExact {} (remaining - kTagLen)).commitWrite plaintext⟩, s)
    else (none, s)

/-- `HandleDecrypt`. -/
def handleDecrypt : Option Opened × PeerSession Key :=
  let (mode, b) := (Reading.readNumber 1).run b
  if mode = kModePlaintext then
    if s.keyFilled then (none, s) else (some ⟨none, b⟩, s)
  else if mode = kModeAesCbc then (none, s)
  else if mode ≠ kModeAesGcm then (none, s)
  else if !s.keyFilled then (none, s)
  else if b.readableBytes < kHeaderLen + kTagLen then (none, s)
  else s.decryptIn lib b

/-- `compr::HandleInDynamic`. -/
def handleInDynamic : Option Buffer :=
  let (type, b) := (Reading.readNumber 1).run b
  if type = 0 then some b
  else if type = 1 then
    if lib.useZstd then
      (lib.decompressZstd b.readableData).map fun plain =>
        (Buffer.reserveExact {} plain.length).commitWrite plain
    else none
  else none

/-- `MessagePipeline::Decode`. -/
def decode : Option Opened × PeerSession Key :=
  match s.handleDecrypt lib b with
  | (none, s) => (none, s)
  | (some opened, s) =>
    match handleInDynamic lib opened.payload with
    | none => (none, s)
    | some payload => (some { opened with payload := payload }, s)

/-- `MessagePipeline::Dispatch` to the handshake's handler, and what `Process`
makes of the frames that failed. -/
def dispatch (opened : Opened) : PeerSession Key :=
  let out := deserialize (controlSerializers lib) opened.payload
  let s := out.dispatched.foldl (fun (s : PeerSession Key) p => s.handle lib opened.origin p.2) s
  if 0 < out.stats.invalidFrames then
    let s : PeerSession Key := s.countInvalid out.stats.invalidFrames
    if s.maxInvalidFrames ≠ 0 ∧ s.maxInvalidFrames ≤ s.invalidFrames then s.close else s
  else s

/-- `Process` pulls a message only with a codec and a handler to give it to. -/
def pulls : Bool := !s.isClosed && s.handler != .cleared

/-- One message in `Process`.  What an application makes of its own packets does
not touch the session. -/
def receive (message : List UInt8) : PeerSession Key :=
  if s.pulls then
    match s.decode lib (Buffer.ofData message) with
    | (none, s) => s
    | (some opened, s) => if s.handler = .handshake then s.dispatch lib opened else s
  else s

/-- `SendPacket` and the drain that encodes it, for a packet the application's
codec has serialized. -/
def sendPacket (serialized : Buffer) (stream : UInt8) : PeerSession Key :=
  if s.isClosed || !s.isReady then s else s.encodeAndSend lib (some serialized) stream

/-- The connect event, in which the application installs its codec and handler. -/
def install : PeerSession Key :=
  if s.isReady then { s with handler := .application } else s

/-! ## A session and what happens to it -/

/-- `ResolveCompressionType`. -/
def resolveCompressionType (type : UInt8) : UInt8 :=
  if type ≠ 0xFF then type else if lib.useZstd then 1 else 0

/-- The constructor.  Without a key it is closed from the start, and the
initiator speaks first. -/
def start (isInitiator : Bool) (options : SessionOptions) (pubKey : Option Key) : PeerSession Key :=
  let s : PeerSession Key :=
    { isInitiator := isInitiator
      isClosed := pubKey.isNone
      handler := if pubKey.isNone then .cleared else .handshake
      negotiatedCompression :=
        if isInitiator then 0 else resolveCompressionType lib options.compression
      compressionThreshold := options.compressionThreshold
      maxInvalidFrames := options.maxInvalidFrames
      pubKey := pubKey
      wantEncryption := options.encryption }
  if isInitiator then s.sendHandshake lib else s

end PeerSession

/-- What happens to a session. -/
inductive Event where
  /-- The transport has a message of the peer. -/
  | receive (message : List UInt8)
  | install
  | send (serialized : Buffer) (stream : UInt8)
  | close

variable {Key : Type}

/-- One event. -/
def PeerSession.step (lib : Libraries Key) (s : PeerSession Key) : Event → PeerSession Key
  | .receive message => s.receive lib message
  | .install => s.install
  | .send serialized stream => s.sendPacket lib serialized stream
  | .close => s.close

/-- A session under any events. -/
def machine (lib : Libraries Key) : Machine (PeerSession Key) Event where
  step s e := some (s.step lib e)

/-! ## What sending does -/

/-- The next counter of a stream. -/
def PeerSession.counter (s : PeerSession Key) (stream : UInt8) : Nat :=
  s.txCounters.getD stream.toNat 0

theorem getD_grown {α : Type} (xs : List α) (stream : UInt8) (fresh : α) (i : Nat) :
    (grown xs stream fresh).getD i fresh = xs.getD i fresh := by
  by_cases hi : i < xs.length
  · rw [grown, List.getD_append _ _ _ _ hi]
  · rw [grown, List.getD_append_right _ _ _ _ (by omega), List.getD_eq_default xs fresh (by omega)]
    rw [List.getD_eq_getElem?_getD, List.getElem?_replicate]
    split <;> rfl

theorem next_counter (s : PeerSession Key) (stream : UInt8) :
    (grown s.txCounters stream 0).getD stream.toNat 0 = s.counter stream :=
  getD_grown _ _ _ _

theorem length_grown {α : Type} (xs : List α) (stream : UInt8) (fresh : α) :
    stream.toNat < (grown xs stream fresh).length := by
  rw [grown, List.length_append, List.length_replicate]
  omega

namespace PeerSession

variable (lib : Libraries Key)

/-- Sending touches the counters, the history and the cipher's context, which it
keys with the key of the direction. -/
def Sends (s s' : PeerSession Key) : Prop :=
  ∃ counters nonces sent encKey,
    s' = { s with txCounters := counters, nonces := nonces, sent := sent, encKey := encKey } ∧
      (encKey = s.encKey ∨ s.enableEncryption = true ∧ encKey = some (s.encKey.getD s.txKey))

variable (s : PeerSession Key)

theorem Sends.refl : Sends s s := ⟨_, _, _, _, rfl, .inl rfl⟩

theorem Sends.hand {s s' : PeerSession Key} (h : Sends s s') (message : List UInt8) :
    Sends s (s'.hand message) := by
  obtain ⟨counters, nonces, sent, encKey, rfl, hkey⟩ := h
  exact ⟨_, _, _, _, rfl, hkey⟩

theorem handleOut_sends (b : Buffer) (stream : UInt8) : Sends s (s.handleOut lib b stream).2 := by
  unfold handleOut
  split
  · exact .refl s
  · split
    · next henabled =>
      unfold encryptOut
      dsimp only
      split
      · exact ⟨_, _, _, _, rfl, .inl rfl⟩
      · split
        · exact ⟨_, _, _, _, rfl, .inl rfl⟩
        · exact ⟨_, _, _, _, rfl, .inr ⟨henabled, rfl⟩⟩
    · split <;> exact .refl s

theorem encodeAndSend_sends (serialized : Option Buffer) (stream : UInt8) :
    Sends s (s.encodeAndSend lib serialized stream) := by
  unfold encodeAndSend
  split
  · exact .refl s
  · cases serialized with
    | none => exact .refl s
    | some b =>
      have hencode : Sends s (s.encode lib b stream).2 := by
        unfold encode
        dsimp only
        split
        · exact .refl s
        · exact handleOut_sends lib s _ stream
      dsimp only
      generalize s.encode lib b stream = result at hencode
      obtain ⟨_ | message, s'⟩ := result
      · exact hencode
      · exact hencode.hand _

theorem sendImmediate_sends (packet : ControlPacket Key) :
    Sends s (s.sendImmediate lib packet) := by
  unfold sendImmediate
  split
  · exact .refl s
  · exact encodeAndSend_sends lib s _ 0

/-- The layout of an encrypted message. -/
theorem encryptOut_carries {s : PeerSession Key} {b out : Buffer} {stream : UInt8}
    (h : (s.encryptOut lib b stream).1 = some out) :
    ∃ ciphertext tag,
      lib.encryptData (s.encKey.getD s.txKey) (buildNonce s.txSalt stream (s.counter stream)) kAad
        b.readableData = some (ciphertext, tag) ∧
      Carries out (2 :: stream :: Bytes.be kCounterLen (s.counter stream) ++
        ciphertext ++ tag) := by
  unfold encryptOut at h
  dsimp only at h
  rw [next_counter] at h
  split at h
  · cases h
  · split at h
    · cases h
    · next ciphertext tag hencrypt =>
      refine ⟨ciphertext, tag, hencrypt, ?_⟩
      cases h
      have hmode := ((Carries.headroom 2).reserveExact
        (2 + 1 + kHeaderLen + b.readableBytes + kTagLen)).writeNumber 1 kModeAesGcm
      generalize ((Buffer.reserveHeadroom {} 2).reserveExact
        (2 + 1 + kHeaderLen + b.readableBytes + kTagLen)).writeNumber 1 kModeAesGcm = out at hmode
      have hall := ((hmode.write (List.replicate kHeaderLen 0)).commitWrite ciphertext).write tag
      rw [List.append_assoc (_ ++ _)] at hall
      -- the header goes where its eight bytes were skipped
      have hpos : out.data.length = (((out.skipWrite kHeaderLen).commitWrite ciphertext).write
          tag).readCursor + (Bytes.le 1 kModeAesGcm).length := by
        simp [hmode.length_data, Buffer.skipWrite, Buffer.commitWrite]
      rw [hpos]
      have hheader : (stream :: Bytes.be kCounterLen (s.counter stream)).length =
          (List.replicate kHeaderLen (0 : UInt8)).length := by
        simp [kHeaderLen, kCounterLen]
      exact hall.backfill hheader

end PeerSession

end Peer
end Znet

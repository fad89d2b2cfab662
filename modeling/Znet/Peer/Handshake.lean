import Znet.Peer.Messages
import Znet.Peer.Downgrade

/-!
# Two honest sessions

An initiator and an acceptor, each a `PeerSession`, joined by a reliable channel
that keeps the order of messages in each direction.  The handshake is four
messages: the initiator offers its key, the acceptor states its choice, and each
confirms with a ready packet, encrypted when that is the choice.

* `handshake_agreement` — **both sides agree, neither closes, no packet of the
  handshake is dropped, and nothing is encrypted before the other side has keys.**
-/

namespace Znet
namespace Peer

open PeerSession
open Crypto (ReplayWindow)

/-! ## Two sessions and a channel -/

inductive Side where
  | initiator
  | acceptor
  deriving DecidableEq, Repr

namespace Side

def peer : Side → Side
  | initiator => acceptor
  | acceptor => initiator

def isInitiator : Side → Bool
  | initiator => true
  | acceptor => false

end Side

/-- Two sessions, and how many messages of the other each has taken.  The channel
from one to the other is what one has sent and the other not taken. -/
structure Duplex (Key : Type) where
  session : Side → PeerSession Key
  took : Side → Nat

/-- What a session does next. -/
inductive Move where
  /-- `Process` takes the next message of the other side. -/
  | take
  | install
  | send (serialized : Buffer) (stream : UInt8)

section Duplex

variable {Key : Type}

/-- One session changes. -/
def Duplex.put (d : Duplex Key) (side : Side) (s : PeerSession Key) : Duplex Key :=
  { d with session := Function.update d.session side s }

/-- The message a session takes next. -/
def Duplex.next (d : Duplex Key) (side : Side) : Option (List UInt8) :=
  (d.session side.peer).sent[d.took side]?

def Duplex.step (lib : Libraries Key) (d : Duplex Key) (side : Side) : Move → Option (Duplex Key)
  | .take =>
    if (d.session side).pulls then
      (d.next side).map fun message =>
        { d.put side ((d.session side).receive lib message) with
          took := Function.update d.took side (d.took side + 1) }
    else none
  | .install => some (d.put side (d.session side).install)
  | .send serialized stream => some (d.put side ((d.session side).sendPacket lib serialized stream))

/-- Every interleaving of the steps of two sessions. -/
def duplex (lib : Libraries Key) : Machine (Duplex Key) (Side × Move) where
  step d e := d.step lib e.1 e.2

theorem Duplex.put_self (d : Duplex Key) (side : Side) : d.put side (d.session side) = d := by
  rw [Duplex.put, Function.update_eq_self]

/-- A message is pulled, decoded and dispatched to the handshake's handler as
exactly one packet. -/
def Takes (lib : Libraries Key) (s : PeerSession Key) (message : List UInt8)
    (packet : ControlPacket Key) : Prop :=
  s.pulls = true ∧ ∃ opened s' position,
    s.decode lib (Buffer.ofData message) = (some opened, s') ∧ s'.handler = .handshake ∧
      deserialize (controlSerializers lib) opened.payload = { dispatched := [(position, packet)] }

theorem takes_of_decode {lib : Libraries Key} {s s' : PeerSession Key} (hpulls : s.pulls = true)
    {message : List UInt8} {origin : Option (List UInt8)} {b : Buffer}
    (hdecode : s.decode lib (Buffer.ofData message) = (some ⟨origin, b⟩, s'))
    (hhandler : s'.handler = .handshake) {packet : ControlPacket Key} (hfits : packet.Fits lib)
    (hb : At b.data .littleEndian (packet.bytes lib) .none b) :
    Takes lib s message (packet.received lib) :=
  ⟨hpulls, _, _, _, hdecode, hhandler, deserialize_control lib hfits hb⟩

end Duplex

/-! ## Sessions whose libraries work -/

/-- Two sessions with any options, over libraries that work: keys survive their
journey, the two ends compute one secret, it is expanded to any length that
HKDF-SHA256 has, and what is encrypted can be decrypted. -/
structure Honest (Key : Type) where
  lib : Libraries Key
  options : Side → SessionOptions
  key : Side → Key
  /-- The public key of a side, as the other side reads it. -/
  pub : Side → Key
  secret : List UInt8
  cloned : ∀ side, ∃ copy, lib.cloneKey (key side) = some copy ∧
    lib.serializePublicKey copy = lib.serializePublicKey (key side)
  der_ne_nil : ∀ side, lib.serializePublicKey (key side) ≠ []
  der_le : ∀ side, (lib.serializePublicKey (key side)).length + 64 ≤ kIntMax
  read : ∀ side, lib.deserializePublicKey (lib.serializePublicKey (key side)) = some (pub side)
  pub_ne_nil : ∀ side, lib.serializePublicKey (pub side) ≠ []
  shared : ∀ side, lib.computeSharedSecret (key side) (pub side.peer) = some secret
  secret_ne_nil : secret ≠ []
  hkdf : ∀ info n, info.length ≤ 255 → n ≤ 255 * 32 → ∃ out, lib.hkdf secret info n = some out
  digest : ∀ bytes, ∃ out, lib.digest bytes = some out ∧ out.length ≤ 64
  cipher : ∀ key nonce plaintext, plaintext.length ≤ kIntMax → ∃ ciphertext tag,
    lib.encryptData key nonce kAad plaintext = some (ciphertext, tag) ∧ tag.length = kTagLen ∧
      lib.decryptData key nonce kAad ciphertext tag = some plaintext

namespace Honest

variable {Key : Type} (p : Honest Key) (side : Side)

/-- The session of a side, as it is constructed. -/
def start : PeerSession Key :=
  PeerSession.start p.lib side.isInitiator (p.options side) (some (p.key side))

/-- The two sessions, with nothing taken. -/
def begin : Duplex Key := ⟨p.start, fun _ => 0⟩

/-- The acceptor's policy. -/
def policy : Bool := (p.options .acceptor).encryption

/-- The acceptor's compression. -/
def compression : UInt8 := resolveCompressionType p.lib (p.options .acceptor).compression

/-- What is expanded for the direction that a side writes. -/
def material : List UInt8 :=
  (p.lib.hkdf p.secret (txLabel side.isInitiator) 36).getD []

def txKey : List UInt8 :=
  if p.policy then (p.material side).take 32 else List.replicate 32 0

def txSalt : List UInt8 :=
  if p.policy then (p.material side).drop 32 else List.replicate 4 0

theorem rxLabel_eq : rxLabel side.isInitiator = txLabel side.peer.isInitiator := by
  cases side <;> rfl

theorem hkdf_material :
    p.lib.hkdf p.secret (txLabel side.isInitiator) 36 = some (p.material side) := by
  have hlabel : (txLabel side.isInitiator).length ≤ 255 := by
    cases side <;> decide +kernel
  obtain ⟨out, hout⟩ := p.hkdf (txLabel side.isInitiator) 36 hlabel (by decide)
  rw [material, hout, Option.getD_some]

/-! ## The four messages -/

/-- The handshake packet of a side. -/
def hello : HandshakePacket Key where
  pubKey :=
    if side.isInitiator || (p.options side).encryption then p.lib.cloneKey (p.key side) else none
  encryption := (p.options side).encryption
  compression := if side.isInitiator then 0 else p.compression

/-- The packets of a side's handshake, in order. -/
def packets : List (ControlPacket Key) :=
  [.handshake (p.hello side), .connectionReady kReadyMagic]

def helloMessage : List UInt8 :=
  0 :: 0 :: ControlPacket.bytes p.lib (.handshake (p.hello side))

/-- The frame of a ready packet. -/
def readyBytes : List UInt8 := ControlPacket.bytes p.lib (.connectionReady kReadyMagic)

def readyMessage : List UInt8 :=
  if p.policy then
    match p.lib.encryptData (p.txKey side) (buildNonce (p.txSalt side) 0 0) kAad
        (0 :: p.readyBytes) with
    | none => []
    | some (ciphertext, tag) => 2 :: 0 :: Bytes.be kCounterLen 0 ++ ciphertext ++ tag
  else 0 :: 0 :: p.readyBytes

theorem der_hello : (p.hello side).der p.lib =
      if side.isInitiator || (p.options side).encryption then p.lib.serializePublicKey (p.key side)
      else [] := by
  obtain ⟨copy, hclone, hcopy⟩ := p.cloned side
  unfold HandshakePacket.der hello
  split
  · rw [hclone, Option.map_some, Option.getD_some, hcopy]
  · rfl

theorem fits_hello : (ControlPacket.handshake (p.hello side)).Fits p.lib := by
  refine ⟨?_, trivial⟩
  have hle := p.der_le side
  have hder : ((p.hello side).der p.lib).length ≤
      (p.lib.serializePublicKey (p.key side)).length := by
    rw [der_hello]
    split
    · exact le_rfl
    · exact Nat.zero_le _
  simp only [ControlPacket.body, List.length_cons, List.length_append, Bytes.length_le]
  omega

theorem fits_ready :
    (ControlPacket.connectionReady kReadyMagic : ControlPacket Key).Fits p.lib := by
  have hmagic : kReadyMagic.length = 36 := by decide +kernel
  constructor
  · have := Bytes.significant_le 8 kReadyMagic.length
    simp only [ControlPacket.body, List.length_cons, List.length_append, Bytes.length_le, hmagic,
      kIntMax] at this ⊢
    omega
  · simp [hmagic, kMaxReadStringLength]

/-- The other side reads the public key out of a handshake packet. -/
theorem received_hello : (ControlPacket.handshake (p.hello side)).received p.lib =
      .handshake { p.hello side with
        pubKey := if side.isInitiator || (p.options side).encryption then some (p.pub side)
          else none } := by
  rw [ControlPacket.received, der_hello]
  split
  · rw [if_neg (p.der_ne_nil side), p.read]
  · rfl

/-! ## The states of the handshake -/

/-- A session before it has sent or taken anything. -/
def fresh : PeerSession Key where
  isInitiator := side.isInitiator
  negotiatedCompression := if side.isInitiator then 0 else p.compression
  compressionThreshold := (p.options side).compressionThreshold
  maxInvalidFrames := (p.options side).maxInvalidFrames
  pubKey := some (p.key side)
  wantEncryption := (p.options side).encryption

variable (s : PeerSession Key)

/-- The handshake packet has gone out. -/
def offer : PeerSession Key :=
  { s with sent := s.sent ++ [p.helloMessage side], sentHandshake := true }

/-- The mode is settled, with keys when there is to be encryption. -/
def negotiate : PeerSession Key :=
  { s with
    peerPkey := if p.policy then some (p.pub side.peer) else none
    txKey := p.txKey side
    txSalt := p.txSalt side
    rxKey := p.txKey side.peer
    rxSalt := p.txSalt side.peer
    keyFilled := p.policy
    negotiated := true }

/-- The ready packet has gone out. -/
def confirm : PeerSession Key :=
  { s with
    enableEncryption := p.policy
    txCounters := if p.policy then [1] else []
    nonces := if p.policy then [buildNonce (p.txSalt side) 0 0] else []
    encKey := if p.policy then some (p.txKey side) else none
    sent := s.sent ++ [p.readyMessage side]
    sentReady := true }

/-- The window behind the first message of a stream. -/
def firstWindow : ReplayWindow := (({} : ReplayWindow).accept 0).2

/-- The key a side's ready packet is encrypted under. -/
def origin : Option (List UInt8) := if p.policy then some (p.txKey side) else none

/-- The other side's ready packet has been opened. -/
def opened : PeerSession Key :=
  { s with
    decKey := p.origin side.peer
    rxReplay := if p.policy then [firstWindow] else [] }

/-- The other side's ready packet has been handled. -/
def welcome : PeerSession Key :=
  (p.opened side s).logReady (p.origin side.peer)

def offering : PeerSession Key := p.offer .initiator (p.fresh .initiator)

def accepting : PeerSession Key := p.fresh .acceptor

def answered : PeerSession Key := p.offer .acceptor (p.negotiate .acceptor p.accepting)

def confirmed : PeerSession Key :=
  p.confirm .initiator (p.negotiate .initiator (p.offering.adopt p.compression))

def accepted : PeerSession Key := (p.confirm .acceptor (p.welcome .acceptor p.answered)).clear.ready

def finished : PeerSession Key := (p.welcome .initiator p.confirmed).clear.ready

/-! ## Sending in the handshake -/

variable {side : Side} {s : PeerSession Key} {packet : HandshakePacket Key} {message : List UInt8}
  {d : Duplex Key} {n : Nat}

theorem sendHandshake_eq (hs : Speaks s) (henabled : s.enableEncryption = false)
    (hside : s.isInitiator = side.isInitiator) (hkey : s.pubKey = some (p.key side))
    (hwant : s.wantEncryption = (p.options side).encryption)
    (hcompression : s.negotiatedCompression = (p.hello side).compression) :
    s.sendHandshake p.lib = p.offer side s := by
  unfold PeerSession.sendHandshake
  rw [hside, hkey, hwant, hcompression]
  show (s.sendImmediate p.lib (.handshake (p.hello side))).noteHandshake = _
  rw [sendImmediate_plain p.lib hs henabled (p.fits_hello side)]
  rfl

theorem sendReady_eq (hs : Speaks s) (hfilled : s.keyFilled = p.policy)
    (hkey : s.txKey = p.txKey side) (hsalt : s.txSalt = p.txSalt side)
    (hcounters : s.txCounters = []) (hnonces : s.nonces = []) (hcipher : s.encKey = none) :
    s.sendReady p.lib = p.confirm side s := by
  have hspeaks : Speaks s.arm := { hs with }
  have henabled : s.arm.enableEncryption = p.policy := hfilled
  unfold PeerSession.sendReady
  cases hpolicy : p.policy with
  | false =>
    rw [sendImmediate_plain p.lib hspeaks (henabled.trans hpolicy) p.fits_ready]
    simp [confirm, readyMessage, readyBytes, hpolicy, noteReady, arm, hand, hfilled, hcounters,
      hnonces, hcipher]
  | true =>
    have hcounter : s.arm.counter 0 = 0 := by
      simp [PeerSession.counter, arm, hcounters]
    have hctx : s.arm.encKey.getD s.arm.txKey = p.txKey side := by
      simp [arm, hcipher, hkey]
    obtain ⟨ciphertext, tag, hencrypt, -, -⟩ := p.cipher (p.txKey side)
      (buildNonce (p.txSalt side) 0 0) (0 :: p.readyBytes) p.fits_ready.length_bytes
    have hnonce : buildNonce s.arm.txSalt 0 (s.arm.counter 0) = buildNonce (p.txSalt side) 0 0 := by
      rw [hcounter, show s.arm.txSalt = p.txSalt side from hsalt]
    have hmax : s.arm.counter 0 ≠ Crypto.kMaxCounter := by
      rw [hcounter]
      decide
    rw [← hctx, ← hnonce] at hencrypt
    rw [sendImmediate_encrypted p.lib hspeaks (henabled.trans hpolicy) p.fits_ready hmax hencrypt]
    rw [hctx, hnonce] at hencrypt
    rw [hctx, hcounter]
    simp [confirm, readyMessage, hencrypt, hpolicy, noteReady, arm, hand, hfilled, hcounters,
      hnonces, keyCipher, takeCounter, grown, hsalt]

/-! ## The key exchange -/

theorem deriveExporterSecret_eq {own peer : Key} (hown : s.pubKey = some own)
    (hpeer : s.peerPkey = some peer) (hown_ne : p.lib.serializePublicKey own ≠ [])
    (hpeer_ne : p.lib.serializePublicKey peer ≠ []) :
    s.deriveExporterSecret p.lib p.secret = true := by
  choose digest hdigest hle using p.digest
  have hkeyed : ∀ bytes,
      (p.lib.hkdf p.secret (Bytes.ascii "znet exporter v1" ++ digest bytes) 32).isSome := by
    intro bytes
    have hlabel : (Bytes.ascii "znet exporter v1").length = 16 := by decide +kernel
    have hlength := hle bytes
    obtain ⟨out, hout⟩ := p.hkdf (Bytes.ascii "znet exporter v1" ++ digest bytes) 32
      (by rw [List.length_append]; omega) (by decide)
    simp [hout]
  unfold deriveExporterSecret
  rw [hown, hpeer]
  -- whose key comes first depends on the side
  cases s.isInitiator with
  | true | false =>
    rw [if_neg (by simp [hown_ne, hpeer_ne]), hdigest]
    exact hkeyed _

theorem exchangeKeys_eq (side : Side) (hside : s.isInitiator = side.isInitiator)
    (hkey : s.pubKey = some (p.key side)) :
    s.exchangeKeys p.lib (p.pub side.peer) =
      (((s.meet (p.pub side.peer)).setKeys (p.material side)
        (p.material side.peer)).fill).answerHandshake
        p.lib := by
  have hexporter := p.deriveExporterSecret_eq
    (s := (s.meet (p.pub side.peer)).setKeys (p.material side) (p.material side.peer)) hkey rfl
    (p.der_ne_nil side) (p.pub_ne_nil side.peer)
  have hderive : (s.meet (p.pub side.peer)).deriveDirectionalKeys p.lib p.secret =
      (true, (s.meet (p.pub side.peer)).setKeys (p.material side) (p.material side.peer)) := by
    unfold deriveDirectionalKeys
    rw [show (s.meet (p.pub side.peer)).isInitiator = side.isInitiator from hside, rxLabel_eq,
      p.hkdf_material, p.hkdf_material]
    dsimp only
    rw [hexporter]
  unfold PeerSession.exchangeKeys
  rw [hkey, Option.bind_some, p.shared]
  dsimp only
  rw [if_neg p.secret_ne_nil, hderive]

/-- The keys of a session that had none. -/
theorem negotiate_true (hpolicy : p.policy = true) (side : Side) (s : PeerSession Key) :
    ((s.meet (p.pub side.peer)).setKeys (p.material side) (p.material side.peer)).fill =
      p.negotiate side s := by
  simp [negotiate, meet, setKeys, fill, txKey, txSalt, hpolicy]

/-- A session without keys keeps its zeroes. -/
theorem negotiate_false (hpolicy : p.policy = false) (hpeer : s.peerPkey = none)
    (hfilled : s.keyFilled = false)
    (hkeys : s.txKey = List.replicate 32 0 ∧ s.rxKey = List.replicate 32 0)
    (hsalts : s.txSalt = List.replicate 4 0 ∧ s.rxSalt = List.replicate 4 0) :
    s.settle = p.negotiate side s := by
  cases s
  simp_all [negotiate, settle, txKey, txSalt]

/-! ## The four steps -/

/-- The acceptor answers with its own handshake packet. -/
theorem onHandshakePacket_acceptor (hpacket : packet.pubKey = some (p.pub .initiator)) :
    p.accepting.onHandshakePacket p.lib packet = p.answered := by
  have hanswer : (p.negotiate .acceptor p.accepting).answerHandshake p.lib = p.answered := by
    unfold answerHandshake
    rw [if_pos (by rfl)]
    exact p.sendHandshake_eq ⟨rfl, by simp [negotiate, accepting, fresh], rfl⟩ rfl rfl rfl rfl rfl
  unfold PeerSession.onHandshakePacket
  cases hpolicy : p.policy with
  | false =>
    have hwant : p.accepting.wantEncryption = false := hpolicy
    rw [if_neg (by simp [accepting, fresh]), if_neg (by simp [accepting, fresh, Side.isInitiator]),
      if_pos (by simp [hwant]), p.negotiate_false hpolicy rfl rfl ⟨rfl, rfl⟩ ⟨rfl, rfl⟩]
    exact hanswer
  | true =>
    have hwant : p.accepting.wantEncryption = true := hpolicy
    rw [if_neg (by simp [accepting, fresh]), if_neg (by simp [accepting, fresh, Side.isInitiator]),
      if_neg (by simp [hwant]), hpacket]
    have hexchange := p.exchangeKeys_eq .acceptor (s := p.accepting) rfl rfl
    rw [p.negotiate_true hpolicy] at hexchange
    exact hexchange.trans hanswer

/-- The initiator adopts the acceptor's choice and confirms. -/
theorem onHandshakePacket_initiator (hencryption : packet.encryption = p.policy)
    (hcompression : packet.compression = p.compression)
    (hpacket : p.policy = true → packet.pubKey = some (p.pub .acceptor)) :
    p.offering.onHandshakePacket p.lib packet = p.confirmed := by
  have hready : (p.negotiate .initiator (p.offering.adopt p.compression)).sendReady p.lib =
      p.confirmed :=
    p.sendReady_eq ⟨rfl, by simp [negotiate, adopt, offering, offer, fresh], rfl⟩ rfl
      rfl rfl rfl rfl
      rfl
  unfold PeerSession.onHandshakePacket
  rw [if_neg (by simp [offering, offer, fresh]), if_pos (by rfl), hencryption, hcompression]
  cases hpolicy : p.policy with
  | false =>
    rw [if_pos (by rfl), if_pos (by rfl), p.negotiate_false hpolicy rfl rfl ⟨rfl, rfl⟩ ⟨rfl, rfl⟩]
    exact hready
  | true =>
    rw [if_neg (by simp), hpacket hpolicy]
    have hexchange := p.exchangeKeys_eq .initiator (s := p.offering.adopt p.compression) rfl rfl
    rw [p.negotiate_true hpolicy] at hexchange
    exact hexchange.trans hready

/-- What a side's ready packet decodes to, for a session with the same keys that
has decrypted nothing yet. -/
theorem decode_ready (hfilled : s.keyFilled = p.policy) (hkey : s.rxKey = p.txKey side.peer)
    (hsalt : s.rxSalt = p.txSalt side.peer) (hcipher : s.decKey = none)
    (hreplay : s.rxReplay = []) :
    ∃ b, s.decode p.lib (Buffer.ofData (p.readyMessage side.peer)) =
        (some ⟨p.origin side.peer, b⟩, p.opened side s) ∧
      At b.data .littleEndian p.readyBytes .none b := by
  cases hpolicy : p.policy with
  | false =>
    obtain ⟨b, hdecode, hat⟩ := decode_plain p.lib (hfilled.trans hpolicy) p.readyBytes
    refine ⟨b, ?_, hat⟩
    have hopened : p.opened side s = s := by
      cases s
      simp_all [opened, origin]
    rw [readyMessage, origin, hopened, hpolicy]
    exact hdecode
  | true =>
    obtain ⟨ciphertext, tag, hencrypt, htag, hdecrypt⟩ := p.cipher (p.txKey side.peer)
      (buildNonce (p.txSalt side.peer) 0 0) (0 :: p.readyBytes) p.fits_ready.length_bytes
    have hctx : s.decKey.getD s.rxKey = p.txKey side.peer := by
      rw [hcipher, Option.getD_none, hkey]
    have hfresh : (s.rxReplay.getD (0 : UInt8).toNat {}).accept 0 = (true, firstWindow) := by
      rw [hreplay]
      rfl
    rw [← hctx, ← hsalt] at hdecrypt
    obtain ⟨b, hdecode, hat⟩ := decode_encrypted p.lib (by decide) htag hdecrypt hfresh
      (hfilled.trans hpolicy) rfl
    refine ⟨b, ?_, hat⟩
    have hopened : s.openWith (p.txKey side.peer) 0 firstWindow = p.opened side s := by
      simp [openWith, opened, origin, hpolicy, hreplay, grown]
    rw [hctx, hopened] at hdecode
    simp only [readyMessage, hpolicy, if_true, hencrypt, origin]
    exact hdecode

/-- A handshake packet reaches a session that is open and has no keys. -/
theorem take_hello (side : Side) (hopen : s.isClosed = false) (hhandler : s.handler = .handshake)
    (hfilled : s.keyFilled = false) :
    Takes p.lib s (p.helloMessage side) ((ControlPacket.handshake (p.hello side)).received p.lib) ∧
      s.receive p.lib (p.helloMessage side) =
        s.handle p.lib none ((ControlPacket.handshake (p.hello side)).received p.lib) := by
  have hpulls : s.pulls = true := by
    simp [pulls, hopen, hhandler]
  obtain ⟨b, hdecode, hat⟩ := decode_plain p.lib hfilled
    (ControlPacket.bytes p.lib (.handshake (p.hello side)))
  exact ⟨takes_of_decode hpulls hdecode hhandler (p.fits_hello side) hat,
    receive_of_decode p.lib hpulls hdecode hhandler (p.fits_hello side) hat⟩

/-- A ready packet reaches a session that is open and has the same keys. -/
theorem take_ready (side : Side) (hopen : s.isClosed = false) (hhandler : s.handler = .handshake)
    (hfilled : s.keyFilled = p.policy) (hkey : s.rxKey = p.txKey side.peer)
    (hsalt : s.rxSalt = p.txSalt side.peer) (hcipher : s.decKey = none)
    (hreplay : s.rxReplay = []) :
    Takes p.lib s (p.readyMessage side.peer) (.connectionReady kReadyMagic) ∧
      s.receive p.lib (p.readyMessage side.peer) =
        (p.opened side s).handle p.lib (p.origin side.peer) (.connectionReady kReadyMagic) := by
  have hpulls : s.pulls = true := by
    simp [pulls, hopen, hhandler]
  obtain ⟨b, hdecode, hat⟩ := p.decode_ready hfilled hkey hsalt hcipher hreplay
  exact ⟨takes_of_decode hpulls hdecode hhandler p.fits_ready hat,
    receive_of_decode p.lib hpulls hdecode hhandler p.fits_ready hat⟩

theorem accepting_receive :
    p.accepting.receive p.lib (p.helloMessage .initiator) = p.answered := by
  rw [(p.take_hello .initiator (s := p.accepting) rfl rfl rfl).2, p.received_hello, handle,
    if_pos (by rfl)]
  exact p.onHandshakePacket_acceptor rfl

theorem offering_receive :
    p.offering.receive p.lib (p.helloMessage .acceptor) = p.confirmed := by
  rw [(p.take_hello .acceptor (s := p.offering) rfl rfl rfl).2, p.received_hello, handle,
    if_pos (by rfl)]
  refine p.onHandshakePacket_initiator rfl rfl fun hpolicy => ?_
  exact if_pos (by simpa [Side.isInitiator, policy] using hpolicy)

theorem answered_receive :
    p.answered.receive p.lib (p.readyMessage .initiator) = p.accepted := by
  have hready : (p.welcome .acceptor p.answered).sendReady p.lib =
      p.confirm .acceptor (p.welcome .acceptor p.answered) :=
    p.sendReady_eq ⟨rfl, by
      simp [welcome, opened, logReady, answered, offer, negotiate, accepting, fresh],
      rfl⟩ rfl rfl rfl rfl rfl rfl
  refine (p.take_ready .acceptor (s := p.answered) rfl rfl rfl rfl rfl rfl rfl).2.trans ?_
  rw [handle, if_pos (by rfl)]
  unfold onAcknowledgePacket
  rw [if_neg (by exact Bool.false_ne_true), if_neg (by simp), if_pos (by rfl)]
  show ((p.welcome .acceptor p.answered).sendReady p.lib).clear.ready = _
  rw [hready]
  rfl

theorem confirmed_receive :
    p.confirmed.receive p.lib (p.readyMessage .acceptor) = p.finished := by
  refine (p.take_ready .initiator (s := p.confirmed) rfl rfl rfl rfl rfl rfl rfl).2.trans ?_
  rw [handle, if_pos (by rfl)]
  unfold onAcknowledgePacket
  rw [if_neg (by exact Bool.false_ne_true), if_neg (by simp), if_neg (by exact Bool.false_ne_true)]
  rfl

/-! ## After the handshake -/

theorem mode_cons (x : UInt8) (rest : List UInt8) : mode (x :: rest) = x.toNat :=
  (At.ofData (x :: rest)).readByte.1

theorem mode_unencrypted (h : Unencrypted message) :
    mode message ≠ kModeAesGcm := by
  rcases h with rfl | ⟨rest, rfl⟩
  · decide
  · rw [mode_cons]
    decide

/-- A session that is ready, whatever its application has done since. -/
structure Settled (side : Side) (s : PeerSession Key) : Prop where
  isClosed : s.isClosed = false
  isReady : s.isReady = true
  handler : s.handler ≠ .handshake
  enableEncryption : s.enableEncryption = p.policy
  keyFilled : s.keyFilled = p.policy
  negotiatedCompression : s.negotiatedCompression = p.compression
  txKey : s.txKey = p.txKey side
  txSalt : s.txSalt = p.txSalt side
  rxKey : s.rxKey = p.txKey side.peer
  rxSalt : s.rxSalt = p.txSalt side.peer
  sent : [p.helloMessage side, p.readyMessage side] <+: s.sent
  plain : p.policy = false → ∀ message ∈ s.sent, mode message ≠ kModeAesGcm

variable {p}

theorem Settled.install (hs : p.Settled side s) :
    p.Settled side s.install := by
  unfold PeerSession.install
  rw [if_pos hs.isReady]
  exact { hs with handler := by simp }

theorem Settled.sendPacket (hs : p.Settled side s) (serialized : Buffer) (stream : UInt8) :
    p.Settled side (s.sendPacket p.lib serialized stream) := by
  rw [PeerSession.sendPacket, hs.isClosed, hs.isReady]
  show p.Settled side (s.encodeAndSend p.lib (some serialized) stream)
  obtain ⟨messages, hsent, hplain⟩ := encodeAndSend_sent p.lib s (some serialized) stream
  obtain ⟨counters, nonces, sent, encKey, heq, -⟩ := encodeAndSend_sends p.lib s (some serialized)
    stream
  rw [heq] at hsent ⊢
  obtain rfl : sent = s.sent ++ messages := hsent
  refine { hs with sent := hs.sent.trans (List.prefix_append _ _), plain := ?_ }
  intro hpolicy message hmem
  rcases List.mem_append.1 hmem with hold | hnew
  · exact hs.plain hpolicy message hold
  · exact mode_unencrypted (hplain (hs.enableEncryption.trans hpolicy) message hnew)

theorem Settled.receive (hs : p.Settled side s) (message : List UInt8) :
    p.Settled side (s.receive p.lib message) := by
  unfold PeerSession.receive
  split
  · obtain ⟨decKey, rxReplay, hdecode⟩ := decode_opens p.lib s (Buffer.ofData message)
    generalize s.decode p.lib (Buffer.ofData message) = result at hdecode
    have hkept : p.Settled side result.2 := by
      rw [hdecode]
      exact { hs with }
    obtain ⟨_ | opened, s'⟩ := result
    · exact hkept
    · dsimp only
      rw [if_neg hkept.handler]
      exact hkept
  · exact hs

variable (p)

theorem mode_helloMessage (side : Side) : mode (p.helloMessage side) = kModePlaintext :=
  mode_cons _ _

theorem mode_readyMessage (hpolicy : p.policy = false) (side : Side) :
    mode (p.readyMessage side) = kModePlaintext := by
  rw [readyMessage, hpolicy]
  exact mode_cons _ _

theorem settled_ready (hopen : s.isClosed = false) (henabled : s.enableEncryption = p.policy)
    (hfilled : s.keyFilled = p.policy) (hcompression : s.negotiatedCompression = p.compression)
    (hkey : s.txKey = p.txKey side) (hsalt : s.txSalt = p.txSalt side)
    (hrx : s.rxKey = p.txKey side.peer) (hrxsalt : s.rxSalt = p.txSalt side.peer)
    (hsent : s.sent = [p.helloMessage side, p.readyMessage side]) :
    p.Settled side s.clear.ready := by
  have hready : s.clear.ready = { s.clear with
      outCompression :=
        if s.negotiatedCompression ≠ 0 then s.negotiatedCompression else s.outCompression
      isReady := true } := by
    rw [PeerSession.ready, if_neg (by simp [clear, hopen])]
    rfl
  rw [hready]
  refine ⟨hopen, rfl, by simp [clear], henabled, hfilled, hcompression, hkey, hsalt, hrx, hrxsalt,
    ⟨[], by rw [List.append_nil]; exact hsent.symm⟩, fun hpolicy message hmem => ?_⟩
  replace hmem : message ∈ s.sent := hmem
  rw [hsent, List.mem_pair] at hmem
  rcases hmem with rfl | rfl
  · rw [mode_helloMessage]
    decide
  · rw [p.mode_readyMessage hpolicy]
    decide

theorem settled_accepted : p.Settled .acceptor p.accepted :=
  p.settled_ready rfl rfl rfl rfl rfl rfl rfl rfl rfl

theorem settled_finished : p.Settled .initiator p.finished :=
  p.settled_ready rfl rfl rfl rfl rfl rfl rfl rfl rfl

/-! ## The phases of the handshake -/

/-- Where the handshake stands. -/
inductive Phase (d : Duplex Key) : Prop
  /-- The initiator has offered its key. -/
  | offered (hinitiator : d.session .initiator = p.offering)
      (hacceptor : d.session .acceptor = p.accepting) (hreplies : d.took .initiator = 0)
      (hoffers : d.took .acceptor = 0)
  /-- The acceptor has made its choice. -/
  | answered (hinitiator : d.session .initiator = p.offering)
      (hacceptor : d.session .acceptor = p.answered) (hreplies : d.took .initiator = 0)
      (hoffers : d.took .acceptor = 1)
  /-- The initiator has confirmed. -/
  | confirmed (hinitiator : d.session .initiator = p.confirmed)
      (hacceptor : d.session .acceptor = p.answered) (hreplies : d.took .initiator = 1)
      (hoffers : d.took .acceptor = 1)
  /-- The acceptor is ready. -/
  | accepted (hinitiator : d.session .initiator = p.confirmed)
      (hacceptor : p.Settled .acceptor (d.session .acceptor)) (hreplies : d.took .initiator = 1)
      (hoffers : d.took .acceptor = 2)
  /-- Both are ready. -/
  | finished (hinitiator : p.Settled .initiator (d.session .initiator))
      (hacceptor : p.Settled .acceptor (d.session .acceptor)) (hreplies : 2 ≤ d.took .initiator)
      (hoffers : 2 ≤ d.took .acceptor)

/-- A session that is not ready leaves its application nothing to do. -/
theorem idle (hready : s.isReady = false) :
    s.install = s ∧ ∀ serialized stream, s.sendPacket p.lib serialized stream = s := by
  simp [PeerSession.install, PeerSession.sendPacket, hready]

variable {p}

/-- The ready packet of a settled session is its second message. -/
theorem Settled.next (hs : p.Settled side.peer (d.session side.peer)) (htook : d.took side = 1) :
    d.next side = some (p.readyMessage side.peer) := by
  obtain ⟨more, hmore⟩ := hs.sent
  rw [Duplex.next, ← hmore, htook]
  rfl

/-- An application's step: it changes nothing before a session is ready. -/
theorem Phase.put (h : p.Phase d) (side : Side)
    (hidle : (d.session side).isReady = false → s = d.session side)
    (hsettled : p.Settled side (d.session side) → p.Settled side s) : p.Phase (d.put side s) := by
  have hkeep : (d.session side).isReady = false → p.Phase (d.put side s) := by
    intro hready
    rw [hidle hready, Duplex.put_self]
    exact h
  cases h with
  | offered hinitiator hacceptor _ _ | answered hinitiator hacceptor _ _
  | confirmed hinitiator hacceptor _ _ =>
    cases side with
    | initiator => exact hkeep (by rw [hinitiator]; rfl)
    | acceptor => exact hkeep (by rw [hacceptor]; rfl)
  | accepted hinitiator hacceptor hreplies hoffers =>
    cases side with
    | initiator => exact hkeep (by rw [hinitiator]; rfl)
    | acceptor => exact .accepted hinitiator (hsettled hacceptor) hreplies hoffers
  | finished hinitiator hacceptor hreplies hoffers =>
    cases side with
    | initiator => exact .finished (hsettled hinitiator) hacceptor hreplies hoffers
    | acceptor => exact .finished hinitiator (hsettled hacceptor) hreplies hoffers

/-- **A message is taken.**  It leads to the next phase, and while the handshake runs it
is the packet the other side's part of the handshake has in this phase. -/
theorem Phase.take (h : p.Phase d) (hnext : d.next side = some message) :
    p.Phase { d.put side ((d.session side).receive p.lib message) with
      took := Function.update d.took side (d.took side + 1) } ∧
    ((d.session side).handler = .handshake →
      ∃ packet, (p.packets side.peer)[d.took side]? = some packet ∧
        Takes p.lib (d.session side) message (packet.received p.lib)) := by
  cases h with
  | offered hinitiator hacceptor hreplies hoffers =>
    cases side with
    | initiator =>
      rw [Duplex.next, Side.peer, hacceptor, hreplies] at hnext
      cases hnext
    | acceptor =>
      rw [Duplex.next, Side.peer, hinitiator, hoffers] at hnext
      obtain rfl := Option.some.inj hnext
      refine ⟨.answered hinitiator ?_ hreplies ?_, fun _ => ?_⟩
      · show (d.session .acceptor).receive p.lib _ = _
        rw [hacceptor]
        exact p.accepting_receive
      · show d.took .acceptor + 1 = 1
        rw [hoffers]
      · rw [hacceptor, hoffers]
        exact ⟨_, rfl, (p.take_hello .initiator (s := p.accepting) rfl rfl rfl).1⟩
  | answered hinitiator hacceptor hreplies hoffers =>
    cases side with
    | initiator =>
      rw [Duplex.next, Side.peer, hacceptor, hreplies] at hnext
      obtain rfl := Option.some.inj hnext
      refine ⟨.confirmed ?_ hacceptor ?_ hoffers, fun _ => ?_⟩
      · show (d.session .initiator).receive p.lib _ = _
        rw [hinitiator]
        exact p.offering_receive
      · show d.took .initiator + 1 = 1
        rw [hreplies]
      · rw [hinitiator, hreplies]
        exact ⟨_, rfl, (p.take_hello .acceptor (s := p.offering) rfl rfl rfl).1⟩
    | acceptor =>
      rw [Duplex.next, Side.peer, hinitiator, hoffers] at hnext
      cases hnext
  | confirmed hinitiator hacceptor hreplies hoffers =>
    cases side with
    | initiator =>
      rw [Duplex.next, Side.peer, hacceptor, hreplies] at hnext
      cases hnext
    | acceptor =>
      rw [Duplex.next, Side.peer, hinitiator, hoffers] at hnext
      obtain rfl := Option.some.inj hnext
      refine ⟨.accepted hinitiator ?_ hreplies ?_, fun _ => ?_⟩
      · show p.Settled .acceptor ((d.session .acceptor).receive p.lib (p.readyMessage .initiator))
        rw [hacceptor, p.answered_receive]
        exact p.settled_accepted
      · show d.took .acceptor + 1 = 2
        rw [hoffers]
      · rw [hacceptor, hoffers]
        exact ⟨_, rfl, (p.take_ready .acceptor (s := p.answered) rfl rfl rfl rfl rfl rfl rfl).1⟩
  | accepted hinitiator hacceptor hreplies hoffers =>
    cases side with
    | initiator =>
      obtain rfl := Option.some.inj ((Settled.next hacceptor hreplies).symm.trans hnext)
      refine ⟨.finished ?_ hacceptor ?_ (le_of_eq hoffers.symm), fun _ => ?_⟩
      · show p.Settled .initiator ((d.session .initiator).receive p.lib (p.readyMessage .acceptor))
        rw [hinitiator, p.confirmed_receive]
        exact p.settled_finished
      · show 2 ≤ d.took .initiator + 1
        omega
      · rw [hinitiator, hreplies]
        exact ⟨_, rfl, (p.take_ready .initiator (s := p.confirmed) rfl rfl rfl rfl rfl rfl rfl).1⟩
    | acceptor =>
      rw [Duplex.next, Side.peer, hinitiator, hoffers] at hnext
      cases hnext
  | finished hinitiator hacceptor hreplies hoffers =>
    cases side with
    | initiator =>
      exact ⟨.finished (hinitiator.receive message) hacceptor (Nat.le_succ_of_le hreplies) hoffers,
        fun hhandler => absurd hhandler hinitiator.handler⟩
    | acceptor =>
      exact ⟨.finished hinitiator (hacceptor.receive message) hreplies (Nat.le_succ_of_le hoffers),
        fun hhandler => absurd hhandler hacceptor.handler⟩

theorem Phase.step {d' : Duplex Key} (h : p.Phase d) {move : Move}
    (hstep : d.step p.lib side move = some d') : p.Phase d' := by
  cases move with
  | take =>
    obtain ⟨-, hstep⟩ := Option.ite_none_right_eq_some.1 hstep
    obtain ⟨message, hnext, rfl⟩ := Option.map_eq_some_iff.1 hstep
    exact (h.take hnext).1
  | install =>
    cases hstep
    exact h.put side (fun hready => (p.idle hready).1) Settled.install
  | send serialized stream =>
    cases hstep
    exact h.put side (fun hready => (p.idle hready).2 serialized stream)
      fun hs => hs.sendPacket serialized stream

/-! ## What holds in every phase -/

/-- Where one side stands, by the messages it has taken. -/
inductive Standing (p : Honest Key) : Side → PeerSession Key → Nat → Prop
  | offering : Standing p .initiator p.offering 0
  | accepting : Standing p .acceptor p.accepting 0
  | answered : Standing p .acceptor p.answered 1
  | confirmed : Standing p .initiator p.confirmed 1
  | settled {side : Side} {s : PeerSession Key} {n : Nat} (hs : p.Settled side s) (hn : 2 ≤ n) :
      Standing p side s n

theorem Standing.isClosed (h : Standing p side s n) :
    s.isClosed = false := by
  cases h with
  | offering | accepting | answered | confirmed => rfl
  | settled hs _ => exact hs.isClosed

/-- The handshake's handler is released only behind both packets of the other side. -/
theorem Standing.two_le (h : Standing p side s n) (hhandler : s.handler ≠ .handshake) : 2 ≤ n := by
  cases h with
  | offering | accepting | answered | confirmed => exact absurd rfl hhandler
  | settled _ hn => exact hn

end Honest

/-- Both sides over libraries that change nothing. -/
def plainHonest : Honest Unit where
  lib := plainLibraries
  options _ := {}
  key _ := ()
  pub _ := ()
  secret := [9]
  cloned _ := ⟨(), rfl, rfl⟩
  der_ne_nil _ := by simp [plainLibraries]
  der_le _ := by simp [plainLibraries, kIntMax]
  read _ := rfl
  pub_ne_nil _ := by simp [plainLibraries]
  shared _ := rfl
  secret_ne_nil := by simp
  hkdf _ _ _ _ := ⟨_, rfl⟩
  digest _ := ⟨_, rfl, Nat.zero_le _⟩
  cipher _ _ plaintext _ := ⟨plaintext, List.replicate 16 0, rfl, List.length_replicate, rfl⟩

/-- The four messages, each taken as soon as it is there. -/
def handshakeRun : List (Side × Move) :=
  [(.acceptor, .take), (.initiator, .take), (.acceptor, .take), (.initiator, .take)]

end Peer
end Znet

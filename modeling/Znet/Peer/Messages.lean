import Znet.Peer.Session

/-!
# A packet of the handshake, from one session to the other

What `SendImmediate` hands to the transport, and what the other session makes of
it.  Before the session is ready nothing is compressed, so a message is the
packet's frame behind a zero byte, and that behind the mode byte or encrypted.
-/

namespace Znet
namespace Peer

open PeerSession
open Crypto (ReplayWindow kMaxCounter)

variable {Key : Type} (lib : Libraries Key)

/-! ## The bytes of a packet -/

def HandshakePacket.der (packet : HandshakePacket Key) : List UInt8 :=
  (packet.pubKey.map lib.serializePublicKey).getD []

def ControlPacket.body : ControlPacket Key → List UInt8
  | .handshake packet =>
    (if packet.encryption then 1 else 0) :: packet.compression ::
      (Bytes.le 4 (packet.der lib).length ++ packet.der lib)
  | .connectionReady magic =>
    UInt8.ofNat (Bytes.significant 8 magic.length) ::
      Bytes.le (Bytes.significant 8 magic.length) magic.length ++ magic

theorem le_one (n : Nat) : Bytes.le 1 n = [UInt8.ofNat n] := rfl

theorem ControlPacket.appends_write (packet : ControlPacket Key) :
    Appends (fun b => packet.write lib b) (packet.body lib) := by
  intro b payload h
  cases packet with
  | handshake packet =>
    have hwritten := (((h.writeNumber 1 (if packet.encryption then 1 else 0)).writeNumber 1
      packet.compression.toNat).writeNumber 4 (packet.der lib).length).write (packet.der lib)
    have hbody : payload ++ ControlPacket.body lib (.handshake packet) =
        payload ++ Bytes.le 1 (if packet.encryption then 1 else 0) ++
          Bytes.le 1 packet.compression.toNat ++ Bytes.le 4 (packet.der lib).length ++
          packet.der lib := by
      have hflag : UInt8.ofNat (if packet.encryption then 1 else 0) =
          if packet.encryption then 1 else 0 := by
        split <;> rfl
      simp [ControlPacket.body, le_one, hflag]
    rw [hbody]
    refine ⟨hwritten, ?_, fun _ => Buffer.storage_write _ _⟩
    simp [ControlPacket.write, Buffer.writeNumber]
  | connectionReady magic =>
    refine ⟨h.writeString magic, ?_, fun _ => Buffer.storage_write _ _⟩
    obtain ⟨storage, hreserve⟩ := b.reserve_eq (b.data.length + (magic.length + 8))
    simp [ControlPacket.write, Buffer.writeString, Buffer.writeVarInt, hreserve]

/-- The packet fits a message, and its string the limit of a reader. -/
def ControlPacket.Fits (packet : ControlPacket Key) : Prop :=
  (packet.body lib).length + 32 ≤ kIntMax ∧
    match packet with
    | .handshake _ => True
    | .connectionReady magic => magic.length ≤ kMaxReadStringLength

variable {packet : ControlPacket Key} {b : Buffer} {room counter : Nat}
  {payload ciphertext tag whole plaintext : List UInt8} {s : PeerSession Key} {stream : UInt8}
  {window : ReplayWindow}

theorem ControlPacket.Fits.body_lt (h : packet.Fits lib) :
    (packet.body lib).length < 2 ^ 32 := by
  have := h.1
  unfold kIntMax at this
  omega

/-- The frame of a packet. -/
def ControlPacket.bytes (packet : ControlPacket Key) : List UInt8 :=
  UInt8.ofNat (Bytes.le (Bytes.significant 8 packet.packetId) packet.packetId).length ::
    (Bytes.le (Bytes.significant 8 packet.packetId) packet.packetId ++
      (Bytes.le 4 (packet.body lib).length ++ packet.body lib))

theorem ControlPacket.bytes_packetFrame (h : packet.Fits lib) :
    (packetFrame packet.packetId (packet.body lib) h.body_lt).bytes .littleEndian =
      packet.bytes lib := rfl

theorem ControlPacket.Fits.length_bytes (h : packet.Fits lib) :
    (packet.bytes lib).length + 1 ≤ kIntMax := by
  have hbody := h.1
  have hid := Bytes.significant_le 8 packet.packetId
  simp only [ControlPacket.bytes, List.length_cons, List.length_append, Bytes.length_le]
  omega

/-! ## Reading a packet -/

/-- What the other side reads: the key comes out of its bytes. -/
def ControlPacket.received : ControlPacket Key → ControlPacket Key
  | .handshake packet =>
    .handshake { packet with
      pubKey := if packet.der lib = [] then none else lib.deserializePublicKey (packet.der lib) }
  | .connectionReady magic => .connectionReady magic

theorem scan_readHandshake (packet : HandshakePacket Key)
    (hlen : (packet.der lib).length < 2 ^ 32) :
    ((readHandshake lib).scan .littleEndian ⟨ControlPacket.body lib (.handshake packet), .none⟩).1 =
      some (ControlPacket.received lib (.handshake packet)) := by
  have hnumber := Reading.scan_readNumber .littleEndian 4 (packet.der lib).length
      (packet.der lib) .none
  rw [Nat.mod_eq_of_lt (by simpa using hlen)] at hnumber
  have hflag : ((if packet.encryption then (1 : UInt8) else 0).toNat != 0) = packet.encryption := by
    cases packet.encryption <;> rfl
  simp only [readHandshake, ControlPacket.body, Reading.scan_bind', Reading.scan_byte]
  rw [show Bytes.le 4 (packet.der lib).length =
    Endianness.littleEndian.bytes 4 (packet.der lib).length
    from rfl, hnumber]
  simp only [ControlPacket.received]
  by_cases hempty : packet.der lib = []
  · simp [hempty, hflag]
  · rw [if_neg (by simpa using hempty), if_neg hempty]
    simp [Reading.scan, hflag]

theorem scan_readReady {magic : List UInt8} (hlen : magic.length ≤ kMaxReadStringLength) :
    ((readReady : Reading (Option (ControlPacket Key))).scan .littleEndian
      ⟨ControlPacket.body lib (.connectionReady magic : ControlPacket Key), .none⟩).1 =
      some (.connectionReady magic) := by
  have hle : (Bytes.le (Bytes.significant 8 magic.length) magic.length).length ≤ 8 := by
    rw [Bytes.length_le]
    exact Bytes.significant_le 8 _
  have hcount := scan_readVarInt .littleEndian hle magic .none
  have hnumber : Endianness.littleEndian.number
      (Bytes.le (Bytes.significant 8 magic.length) magic.length) = magic.length := by
    show Bytes.ofLe _ = _
    unfold kMaxReadStringLength at hlen
    rw [Bytes.ofLe_le_significant, Nat.mod_eq_of_lt (by omega)]
  rw [hnumber, Bytes.length_le] at hcount
  have hcheck : (Reading.checkReadCount magic.length kMaxReadStringLength 1).scan .littleEndian
      ⟨magic, .none⟩ = (true, ⟨magic, .none⟩) := by
    unfold Reading.checkReadCount
    rw [if_neg (by omega)]
    simp [Reading.scan]
  simp only [readReady, Reading.scan_bind', ControlPacket.body, List.cons_append,
    Reading.readString,
    Reading.scan_bind, hcount, hcheck]
  simp [Reading.scan]

/-- **Reading a packet.**  A payload that is one packet's frame is dispatched as
that packet, and no frame failed. -/
theorem deserialize_control (h : packet.Fits lib)
    (hb : At b.data .littleEndian (packet.bytes lib) .none b) :
    deserialize (controlSerializers lib) b =
      { dispatched := [(b.readCursor, packet.received lib)] } := by
  rw [← packet.bytes_packetFrame lib h] at hb
  rw [deserialize_frame (controlSerializers lib) hb]
  have hid : (packetFrame packet.packetId (packet.body lib) h.body_lt).id .littleEndian =
      packet.packetId := by
    show Bytes.ofLe _ = _
    rw [packetFrame, Bytes.ofLe_le_significant]
    cases packet <;> rfl
  have hread : ((packetFrame packet.packetId (packet.body lib) h.body_lt).reading .littleEndian
      (controlSerializers lib)).map Prod.fst = some (some (packet.received lib)) := by
    rw [Frame.reading, hid]
    cases packet with
    | handshake packet =>
      have hlen : (packet.der lib).length < 2 ^ 32 := by
        have := h.body_lt
        simp only [ControlPacket.body, List.length_cons, List.length_append] at this
        omega
      have hscan := scan_readHandshake lib packet hlen
      simpa [controlSerializers, ControlPacket.packetId, packetFrame] using hscan
    | connectionReady magic =>
      have hscan := scan_readReady lib h.2
      have hne : kReadyId ≠ kHandshakeId := by decide
      simpa [controlSerializers, ControlPacket.packetId, hne, ControlPacket.received, packetFrame]
        using hscan
  unfold Frame.note
  generalize (packetFrame packet.packetId (packet.body lib) h.body_lt).reading .littleEndian
    (controlSerializers lib) = reading at hread
  rcases reading with _ | ⟨_ | read, view⟩
  · cases hread
  · cases hread
  · cases hread
    rfl

/-! ## Sending -/

/-- The uncompressed form of a payload, where there is headroom for its mark. -/
theorem handleOutWithType_none (h : Roomy (room + 1) b payload) :
    ∃ b', handleOutWithType lib 0 b = some b' ∧ Roomy room b' (0 :: payload) := by
  obtain ⟨b', hprepend, hroomy⟩ := h.prependInt8 0
  refine ⟨b', ?_, hroomy⟩
  rw [handleOutWithType, if_pos rfl, compressNone, hprepend]

/-- While nothing is compressed, the pipeline hands the uncompressed form to the
cipher. -/
theorem encode_uncompressed (hcompression : s.outCompression = 0) (h : Roomy (room + 1) b payload)
    (stream : UInt8) :
    ∃ b', s.encode lib b stream = s.handleOut lib b' stream ∧ Roomy room b' (0 :: payload) := by
  obtain ⟨b', hnone, hroomy⟩ := handleOutWithType_none lib h
  refine ⟨b', ?_, hroomy⟩
  rw [encode, hcompression, ite_self, hnone]

theorem handleOut_plain (henabled : s.enableEncryption = false) (h : Roomy (room + 1) b payload)
    (hsize : payload.length ≤ kIntMax) (stream : UInt8) :
    ∃ out, s.handleOut lib b stream = (some out, s) ∧ out.readableData = 0 :: payload := by
  obtain ⟨out, hprepend, hroomy⟩ := h.prependInt8 0
  refine ⟨out, ?_, hroomy.carries.readableData⟩
  rw [handleOut, h.carries.readableBytes, if_neg (by omega), henabled, if_neg Bool.false_ne_true,
    hprepend]

theorem handleOut_encrypted (henabled : s.enableEncryption = true) (h : Carries b payload)
    (hsize : payload.length ≤ kIntMax) (hcounter : s.counter stream ≠ kMaxCounter)
    (hencrypt : lib.encryptData (s.encKey.getD s.txKey)
      (buildNonce s.txSalt stream (s.counter stream)) kAad payload = some (ciphertext, tag)) :
    ∃ out, s.handleOut lib b stream =
        (some out, (s.takeCounter stream (s.counter stream)).keyCipher (s.encKey.getD s.txKey)) ∧
      out.readableData =
        2 :: stream :: Bytes.be kCounterLen (s.counter stream) ++ ciphertext ++ tag := by
  have hencrypted : ∃ out, s.encryptOut lib b stream =
      (some out, (s.takeCounter stream (s.counter stream)).keyCipher (s.encKey.getD s.txKey)) := by
    unfold encryptOut
    dsimp only
    rw [next_counter, if_neg hcounter, h.readableData, hencrypt]
    exact ⟨_, rfl⟩
  obtain ⟨out, hout⟩ := hencrypted
  refine ⟨out, ?_, ?_⟩
  · rw [handleOut, h.readableBytes, if_neg (by omega), if_pos henabled, hout]
  · obtain ⟨ciphertext', tag', hencrypt', hcarries⟩ :=
      encryptOut_carries lib (congrArg Prod.fst hout)
    rw [h.readableData, hencrypt] at hencrypt'
    obtain ⟨rfl, rfl⟩ := Prod.mk.inj (Option.some.inj hencrypt')
    exact hcarries.readableData

/-- A session that can send a packet of the handshake. -/
structure Speaks (s : PeerSession Key) : Prop where
  isClosed : s.isClosed = false
  handler : s.handler ≠ .cleared
  outCompression : s.outCompression = 0

theorem Speaks.sendImmediate (hs : Speaks s) (hfits : packet.Fits lib) :
    ∃ b, Roomy 3 b (0 :: packet.bytes lib) ∧
      ∀ out s', s.handleOut lib b 0 = (some out, s') →
        s.sendImmediate lib packet = s'.hand out.readableData := by
  obtain ⟨b, hserialize, hroomy⟩ : ∃ b, serialize packet.packetId
      (fun b => .written (packet.write lib b)) kSendHeadroom = some b ∧ Roomy kSendHeadroom b _ :=
    serialize_written hfits.body_lt (packet.appends_write lib)
  obtain ⟨b', hencode, hroomy'⟩ := encode_uncompressed lib hs.outCompression hroomy 0
  refine ⟨b', hroomy', fun out s' hout => ?_⟩
  rw [PeerSession.sendImmediate, hs.isClosed, if_neg Bool.false_ne_true, hserialize]
  unfold encodeAndSend
  rw [if_neg hs.handler]
  dsimp only
  rw [hencode, hout]

/-- **A packet in plaintext.** -/
theorem sendImmediate_plain (hs : Speaks s) (henabled : s.enableEncryption = false)
    (hfits : packet.Fits lib) :
    s.sendImmediate lib packet = s.hand (0 :: 0 :: packet.bytes lib) := by
  obtain ⟨b, hroomy, hsend⟩ := hs.sendImmediate lib hfits
  obtain ⟨out, hout, hmessage⟩ := handleOut_plain lib henabled hroomy hfits.length_bytes 0
  rw [hsend out _ hout, hmessage]

/-- **An encrypted packet.** -/
theorem sendImmediate_encrypted (hs : Speaks s) (henabled : s.enableEncryption = true)
    (hfits : packet.Fits lib) (hcounter : s.counter 0 ≠ kMaxCounter)
    (hencrypt : lib.encryptData (s.encKey.getD s.txKey) (buildNonce s.txSalt 0 (s.counter 0)) kAad
      (0 :: packet.bytes lib) = some (ciphertext, tag)) :
    s.sendImmediate lib packet =
      ((s.takeCounter 0 (s.counter 0)).keyCipher (s.encKey.getD s.txKey)).hand
        (2 :: 0 :: Bytes.be kCounterLen (s.counter 0) ++ ciphertext ++ tag) := by
  obtain ⟨b, hroomy, hsend⟩ := hs.sendImmediate lib hfits
  obtain ⟨out, hout, hmessage⟩ := handleOut_encrypted lib henabled hroomy.carries
    hfits.length_bytes hcounter hencrypt
  rw [hsend out _ hout, hmessage]

/-- A message that does not start with the mode of an encrypted one. -/
def Unencrypted (message : List UInt8) : Prop := message = [] ∨ ∃ rest, message = 0 :: rest

theorem unencrypted_prependInt8 {b' : Buffer} (h : b.prependInt8 0 = (true, b')) :
    Unencrypted b'.readableData := by
  unfold Buffer.prependInt8 at h
  split at h
  · cases h
  · obtain ⟨-, rfl⟩ := Prod.mk.inj h
    unfold Buffer.readableData
    generalize Buffer.readableBytes _ = count
    by_cases hin : b.readCursor - 1 < b.data.length
    · have hdrop : (b.data.set (b.readCursor - 1) 0).drop (b.readCursor - 1) =
          0 :: (b.data.set (b.readCursor - 1) 0).drop (b.readCursor - 1 + 1) := by
        rw [List.drop_eq_getElem_cons (by rwa [List.length_set]), List.getElem_set_self]
      rw [hdrop]
      cases count with
      | zero => exact .inl rfl
      | succ count => exact .inr ⟨_, rfl⟩
    · left
      dsimp only
      rw [List.drop_of_length_le (by rw [List.length_set]; omega), List.take_nil]

theorem handleOut_unencrypted (henabled : s.enableEncryption = false) {out : Buffer}
    (h : (s.handleOut lib b stream).1 = some out) :
    Unencrypted out.readableData := by
  unfold handleOut at h
  rw [henabled] at h
  split at h
  · cases h
  · generalize hprepend : b.prependInt8 0 = prepended at h
    obtain ⟨_ | _, b'⟩ := prepended
    · cases h
      have hcarries :=
        (((Carries.headroom 2).reserveExact (b.readableBytes + 3)).writeNumber 1 0).write
        b.readableData
      exact .inr ⟨b.readableData, hcarries.readableData⟩
    · cases h
      exact unencrypted_prependInt8 hprepend

theorem sent_handleOut (s : PeerSession Key) (b : Buffer) (stream : UInt8) :
    (s.handleOut lib b stream).2.sent = s.sent := by
  unfold handleOut
  split
  · rfl
  · split
    · unfold encryptOut
      dsimp only
      split
      · rfl
      · split <;> rfl
    · split <;> rfl

/-- Sending adds at most one message, and none that reads as encrypted while the
session does not encrypt. -/
theorem encodeAndSend_sent (s : PeerSession Key) (serialized : Option Buffer) (stream : UInt8) :
    ∃ messages, (s.encodeAndSend lib serialized stream).sent = s.sent ++ messages ∧
      (s.enableEncryption = false → ∀ message ∈ messages, Unencrypted message) := by
  unfold encodeAndSend
  split
  · exact ⟨[], by simp, by simp⟩
  · cases serialized with
    | none => exact ⟨[], by simp, by simp⟩
    | some b =>
      have hencode : (s.encode lib b stream).2.sent = s.sent ∧ (s.enableEncryption = false →
          ∀ out, (s.encode lib b stream).1 = some out → Unencrypted out.readableData) := by
        unfold encode
        dsimp only
        split
        · exact ⟨rfl, fun _ _ h => by cases h⟩
        · exact ⟨sent_handleOut lib s _ stream,
            fun henabled _ h => handleOut_unencrypted lib henabled h⟩
      dsimp only
      generalize s.encode lib b stream = result at hencode
      obtain ⟨_ | message, s'⟩ := result
      · exact ⟨[], by simpa using hencode.1, by simp⟩
      · refine ⟨[message.readableData], congrArg (· ++ _) hencode.1, fun henabled m hm => ?_⟩
        obtain rfl := List.mem_singleton.1 hm
        exact hencode.2 henabled message rfl

/-! ## Receiving -/

theorem handleInDynamic_none (h : At whole .littleEndian (0 :: payload) .none b) :
    ∃ b', handleInDynamic lib b = some b' ∧ At whole .littleEndian payload .none b' := by
  obtain ⟨hmark, hat⟩ := h.readByte
  refine ⟨_, ?_, hat⟩
  unfold handleInDynamic
  dsimp only
  rw [hmark]
  rfl

/-- What the cipher makes of a plaintext message, before there are keys. -/
theorem handleDecrypt_plain (hkey : s.keyFilled = false) (payload : List UInt8) :
    ∃ b, s.handleDecrypt lib (Buffer.ofData (0 :: payload)) = (some ⟨none, b⟩, s) ∧
      At (0 :: payload) .littleEndian payload .none b := by
  obtain ⟨hmode, hat⟩ := (At.ofData (0 :: payload)).readByte
  refine ⟨_, ?_, hat⟩
  unfold handleDecrypt
  dsimp only
  rw [hmode, if_pos (show UInt8.toNat 0 = kModePlaintext from rfl), hkey,
    if_neg Bool.false_ne_true]

/-- **A plaintext message**, before there are keys. -/
theorem decode_plain (hkey : s.keyFilled = false) (payload : List UInt8) :
    ∃ b, s.decode lib (Buffer.ofData (0 :: 0 :: payload)) = (some ⟨none, b⟩, s) ∧
      At b.data .littleEndian payload .none b := by
  obtain ⟨b', hdecrypt, hat⟩ := handleDecrypt_plain lib hkey (0 :: payload)
  obtain ⟨b, hb, hat⟩ := handleInDynamic_none lib hat
  refine ⟨b, ?_, hat.data ▸ hat⟩
  rw [decode, hdecrypt]
  dsimp only
  rw [hb]

section

-- a message of a session that has the same key, and whose counter is new
variable (hcounter : counter < 256 ^ kCounterLen) (htag : tag.length = kTagLen)
  (hdecrypt : lib.decryptData (s.decKey.getD s.rxKey) (buildNonce s.rxSalt stream counter) kAad
    ciphertext tag = some plaintext)
  (hfresh : (s.rxReplay.getD stream.toNat {}).accept counter = (true, window))

include hcounter htag hdecrypt hfresh

theorem decryptIn_opens
    (hheader : (b.copyOut kHeaderLen).1 = stream :: Bytes.be kCounterLen counter)
    (hbody : At whole .littleEndian (ciphertext ++ tag) .none (b.copyOut kHeaderLen).2) :
    s.decryptIn lib b =
      (some ⟨some (s.decKey.getD s.rxKey),
          (Buffer.reserveExact {} ciphertext.length).commitWrite plaintext⟩,
        s.openWith (s.decKey.getD s.rxKey) stream window) := by
  have hremaining : (b.copyOut kHeaderLen).2.readableBytes - kTagLen = ciphertext.length := by
    rw [hbody.readableBytes, List.length_append, htag, Nat.add_sub_cancel]
  have hdata : (b.copyOut kHeaderLen).2.readableData = ciphertext ++ tag := hbody.readTo.left
  unfold decryptIn
  dsimp only
  rw [hheader, hremaining, hdata, List.take_left, List.drop_left, List.headD_cons, List.tail_cons,
    Bytes.ofBe_be, Nat.mod_eq_of_lt hcounter, hdecrypt]
  rw [getD_grown, hfresh]
  rfl

/-- What the cipher makes of it. -/
theorem handleDecrypt_encrypted (hkey : s.keyFilled = true) :
    ∃ b, s.handleDecrypt lib (Buffer.ofData
        (2 :: stream :: Bytes.be kCounterLen counter ++ ciphertext ++ tag)) =
        (some ⟨some (s.decKey.getD s.rxKey), b⟩, s.openWith (s.decKey.getD s.rxKey) stream window) ∧
      Carries b plaintext := by
  rw [List.append_assoc]
  generalize hmessage : 2 :: stream :: Bytes.be kCounterLen counter ++ (ciphertext ++ tag) = message
  have hdata : At message .littleEndian
      (2 :: (stream :: Bytes.be kCounterLen counter ++ (ciphertext ++ tag))) .none
      (Buffer.ofData message) := by
    rw [← hmessage]
    exact At.ofData _
  obtain ⟨hmode, hat⟩ := hdata.readByte
  generalize hread : (Reading.readNumber 1).run (Buffer.ofData message) = read at hmode hat
  obtain ⟨m, b⟩ := read
  have hat' : At message .littleEndian
      ((stream :: Bytes.be kCounterLen counter) ++ (ciphertext ++ tag)) .none b := hat
  have hbytes := hat'.readableBytes
  obtain ⟨hheader, hbody⟩ := hat'.copyOut
  rw [show (stream :: Bytes.be kCounterLen counter).length = kHeaderLen by
    simp [kHeaderLen, kCounterLen]] at hheader hbody
  have hopened := decryptIn_opens lib hcounter htag hdecrypt hfresh hheader hbody
  have hempty : Carries ({} : Buffer) [] := Carries.headroom 0
  refine ⟨_, ?_, (hempty.reserveExact ciphertext.length).commitWrite plaintext⟩
  have hlong : ¬b.readableBytes < kHeaderLen + kTagLen := by
    rw [hbytes]
    simp [htag, kHeaderLen, kCounterLen]
    omega
  obtain rfl : m = kModeAesGcm := hmode
  rw [← hopened]
  unfold handleDecrypt
  rw [hread]
  dsimp only
  rw [if_neg (by decide), if_neg (by decide), if_neg (by decide), hkey, if_neg (by decide),
    if_neg hlong]

/-- **An encrypted message.** -/
theorem decode_encrypted (hkey : s.keyFilled = true) (hplaintext : plaintext = 0 :: payload) :
    ∃ b, s.decode lib (Buffer.ofData
        (2 :: stream :: Bytes.be kCounterLen counter ++ ciphertext ++ tag)) =
        (some ⟨some (s.decKey.getD s.rxKey), b⟩, s.openWith (s.decKey.getD s.rxKey) stream window) ∧
      At b.data .littleEndian payload .none b := by
  subst hplaintext
  obtain ⟨b, hopened, whole, hplain⟩ :=
    handleDecrypt_encrypted lib hcounter htag hdecrypt hfresh hkey
  obtain ⟨payload', hpayload, hnone⟩ := handleInDynamic_none lib hplain
  refine ⟨payload', ?_, hnone.data ▸ hnone⟩
  rw [decode, hopened]
  dsimp only
  rw [hpayload]

end

/-- Decoding touches the cipher's context and the replay windows, and nothing
else. -/
theorem decode_opens (s : PeerSession Key) (b : Buffer) :
    ∃ decKey rxReplay, (s.decode lib b).2 = { s with decKey := decKey, rxReplay := rxReplay } := by
  have hdecrypt : ∀ b, ∃ decKey rxReplay,
      (s.decryptIn lib b).2 = { s with decKey := decKey, rxReplay := rxReplay } := by
    intro b
    unfold decryptIn
    dsimp only
    split
    · exact ⟨_, _, rfl⟩
    · split <;> exact ⟨_, _, rfl⟩
  have hhandle : ∃ decKey rxReplay,
      (s.handleDecrypt lib b).2 = { s with decKey := decKey, rxReplay := rxReplay } := by
    unfold handleDecrypt
    repeat' split
    all_goals first | exact ⟨_, _, rfl⟩ | exact hdecrypt _
  unfold decode
  generalize s.handleDecrypt lib b = result at hhandle
  obtain ⟨_ | opened, s'⟩ := result
  · exact hhandle
  · dsimp only
    split <;> exact hhandle

/-- **Receiving a packet.**  A message that decodes to one packet's frame is
handled, and nothing else happens. -/
theorem receive_of_decode {s' : PeerSession Key} (hpulls : s.pulls = true) {message : List UInt8}
    {origin : Option (List UInt8)}
    (hdecode : s.decode lib (Buffer.ofData message) = (some ⟨origin, b⟩, s'))
    (hhandler : s'.handler = .handshake) (hfits : packet.Fits lib)
    (hb : At b.data .littleEndian (packet.bytes lib) .none b) :
    s.receive lib message = s'.handle lib origin (packet.received lib) := by
  rw [PeerSession.receive, if_pos hpulls, hdecode]
  dsimp only
  rw [if_pos hhandler, PeerSession.dispatch, deserialize_control lib hfits hb]
  rfl

end Peer
end Znet

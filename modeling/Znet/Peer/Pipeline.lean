import Znet.Peer.Handshake

/-!
# The pipeline, there and back

`MessagePipeline::Encode` serializes, compresses and encrypts; `Decode` decrypts and decompresses.
Each stage puts a byte in front of what it is given, in place while there is headroom and into a
new buffer otherwise.

* `pipeline_round_trip` — **`Decode` gives back the codec's frame**, for every serializer, headroom,
  compression and stream, encrypted or not.
-/

namespace Znet
namespace Peer

open PeerSession
open Crypto (ReplayWindow kMaxCounter)

variable {Key : Type} (lib : Libraries Key)

/-! ## What the stages make of a frame -/

/-- The frame behind the mark of its compression. -/
def packed (type : UInt8) (frame : List UInt8) : Option (List UInt8) :=
  if type = 0 then some (0 :: frame)
  else if type = 1 then
    if lib.useZstd then (lib.compressZstd frame).map (1 :: ·) else some (0 :: frame)
  else none

/-- The compression `Encode` picks for a frame. -/
def PeerSession.compressionFor (s : PeerSession Key) (frame : List UInt8) : UInt8 :=
  if frame.length < s.compressionThreshold then 0 else s.outCompression

/-- The message of what the compression has made. -/
def PeerSession.sealed (s : PeerSession Key) (stream : UInt8) (payload : List UInt8) :
    Option (List UInt8) :=
  if kIntMax < payload.length then none
  else if s.enableEncryption then
    if s.counter stream = kMaxCounter then none
    else
      (lib.encryptData (s.encKey.getD s.txKey) (buildNonce s.txSalt stream (s.counter stream)) kAad
        payload).map fun sealed =>
          2 :: stream :: Bytes.be kCounterLen (s.counter stream) ++ sealed.1 ++ sealed.2
  else some (0 :: payload)

/-- The message of a frame. -/
def PeerSession.message (s : PeerSession Key) (stream : UInt8) (frame : List UInt8) :
    Option (List UInt8) :=
  (packed lib (s.compressionFor frame) frame).bind (s.sealed lib stream)

/-! ## The stages -/

variable {b : Buffer} {payload frame : List UInt8} {stream type : UInt8}
  {sender receiver : PeerSession Key}

/-- A byte goes in front of the payload, in place or in front of a copy. -/
theorem prepended_or_copied (h : Carries b payload) (value : UInt8) {copy : Buffer}
    (hcopy : Carries copy (value :: payload)) :
    Carries (match b.prependInt8 value with
      | (true, b) => b
      | (false, _) => copy) (value :: payload) := by
  by_cases hroom : b.readCursor = 0 ∨ b.storage = none
  · rw [Buffer.prependInt8, if_pos hroom]
    exact hcopy
  · obtain ⟨hcursor, hstorage⟩ := not_or.1 hroom
    obtain ⟨htrue, hcarries⟩ := h.prependInt8 (by omega) hstorage value
    generalize b.prependInt8 value = prepended at htrue hcarries
    obtain ⟨done, b'⟩ := prepended
    obtain rfl : done = true := htrue
    exact hcarries

theorem carries_compressNone (h : Carries b payload) :
    Carries (compressNone b) (0 :: payload) := by
  have hcopy := (((Carries.headroom 3).reserveExact (b.readableBytes + 4)).writeNumber 1 0).write
    b.readableData
  exact prepended_or_copied h 0 (h.readableData ▸ hcopy)

theorem carries_compressZstandard {compressed : List UInt8} (h : Carries b payload)
    (hcompressed : lib.compressZstd payload = some compressed) :
    ∃ b', compressZstandard lib b = some b' ∧ Carries b' (1 :: compressed) := by
  have hout := ((Carries.headroom 4).reserveExact
      (4 + lib.compressBound b.readableBytes)).commitWrite
    compressed
  have hroomy : Roomy 4 (((Buffer.reserveHeadroom {} 4).reserveExact
      (4 + lib.compressBound b.readableBytes)).commitWrite compressed) compressed :=
    ⟨hout, le_rfl, by simp [Buffer.commitWrite, Buffer.reserveExact, Buffer.reserveHeadroom]⟩
  obtain ⟨b', hprepend, hcarries⟩ := hroomy.prependInt8 1
  refine ⟨b', ?_, hcarries.carries⟩
  rw [compressZstandard, h.readableData, hcompressed]
  dsimp only
  rw [hprepend]

/-- The compression makes what `packed` says. -/
theorem handleOutWithType_packed (type : UInt8) (h : Carries b frame) :
    packed lib type frame = none ∧ handleOutWithType lib type b = none ∨
      ∃ payload b', packed lib type frame = some payload ∧
        handleOutWithType lib type b = some b' ∧ Carries b' payload := by
  have hnone := carries_compressNone h
  unfold packed handleOutWithType
  split
  · exact .inr ⟨_, _, rfl, rfl, hnone⟩
  · split
    · split
      · cases hcompressed : lib.compressZstd frame with
        | none =>
          left
          rw [compressZstandard, h.readableData, hcompressed]
          exact ⟨rfl, rfl⟩
        | some compressed =>
          obtain ⟨b', hb', hcarries⟩ := carries_compressZstandard lib h hcompressed
          exact .inr ⟨_, b', rfl, hb', hcarries⟩
      · exact .inr ⟨_, _, rfl, rfl, hnone⟩
    · exact .inl ⟨rfl, rfl⟩

theorem encryptOut_none {s : PeerSession Key} (h : Carries b payload)
    (hfails : s.counter stream = kMaxCounter ∨ lib.encryptData (s.encKey.getD s.txKey)
      (buildNonce s.txSalt stream (s.counter stream)) kAad payload = none) :
    (s.encryptOut lib b stream).1 = none := by
  unfold encryptOut
  dsimp only
  rw [next_counter, h.readableData]
  split
  · rfl
  · next hcounter =>
    rw [hfails.resolve_left hcounter]

variable (s : PeerSession Key)

/-- The cipher makes what `sealed` says. -/
theorem handleOut_sealed (stream : UInt8) (h : Carries b payload) :
    (s.handleOut lib b stream).1.map Buffer.readableData = s.sealed lib stream payload := by
  unfold PeerSession.sealed
  by_cases hsize : kIntMax < payload.length
  · rw [if_pos hsize, handleOut, h.readableBytes, if_pos hsize]
    rfl
  rw [if_neg hsize]
  cases henabled : s.enableEncryption with
  | false =>
    have hcopy := (((Carries.headroom 2).reserveExact (b.readableBytes + 3)).writeNumber 1 0).write
      b.readableData
    rw [handleOut, h.readableBytes, if_neg hsize, henabled, if_neg Bool.false_ne_true,
      if_neg Bool.false_ne_true, ← h.readableBytes]
    have hout := prepended_or_copied h 0 (h.readableData ▸ hcopy)
    generalize b.prependInt8 0 = prepended at hout ⊢
    obtain ⟨done, b'⟩ := prepended
    cases done with
    | true => exact congrArg some hout.readableData
    | false =>
      rw [h.readableData]
      exact congrArg some hout.readableData
  | true =>
    rw [if_pos rfl]
    by_cases hcounter : s.counter stream = kMaxCounter
    · rw [if_pos hcounter, handleOut, h.readableBytes, if_neg hsize, if_pos henabled,
        encryptOut_none lib h (.inl hcounter)]
      rfl
    rw [if_neg hcounter]
    cases hencrypt : lib.encryptData (s.encKey.getD s.txKey)
        (buildNonce s.txSalt stream (s.counter stream)) kAad payload with
    | none =>
      rw [handleOut, h.readableBytes, if_neg hsize, if_pos henabled,
        encryptOut_none lib h (.inr hencrypt)]
      rfl
    | some sealed =>
      obtain ⟨out, hout, hmessage⟩ := handleOut_encrypted lib henabled h (not_lt.1 hsize) hcounter
        hencrypt
      rw [hout]
      exact congrArg some hmessage

/-- **`Encode`**, behind the codec: the bytes do not depend on the headroom. -/
theorem encode_message (stream : UInt8) (h : Carries b frame) :
    (s.encode lib b stream).1.map Buffer.readableData = s.message lib stream frame := by
  unfold encode PeerSession.message PeerSession.compressionFor
  dsimp only
  rw [h.readableBytes]
  rcases handleOutWithType_packed lib
      (if frame.length < s.compressionThreshold then 0 else s.outCompression) h with
    ⟨hpacked, hout⟩ | ⟨payload, b', hpacked, hout, hcarries⟩
  · rw [hpacked, hout]
    rfl
  · rw [hpacked, hout]
    exact handleOut_sealed lib s stream hcarries

/-! ## The way back -/

/-- The libraries undo what they do. -/
structure Inverse : Prop where
  cipher : ∀ key nonce plaintext, plaintext.length ≤ kIntMax → ∃ ciphertext tag,
    lib.encryptData key nonce kAad plaintext = some (ciphertext, tag) ∧ tag.length = kTagLen ∧
      lib.decryptData key nonce kAad ciphertext tag = some plaintext
  zstd : lib.useZstd = true → ∀ plain, ∃ compressed,
    lib.compressZstd plain = some compressed ∧ lib.decompressZstd compressed = some plain

/-- The one session reads what the other writes. -/
structure Agree (sender receiver : PeerSession Key) : Prop where
  mode : receiver.keyFilled = sender.enableEncryption
  key : receiver.decKey.getD receiver.rxKey = sender.encKey.getD sender.txKey
  salt : receiver.rxSalt = sender.txSalt

variable {lib}

/-- Decompression gives the frame back. -/
theorem handleInDynamic_packed (hlib : Inverse lib) (hpacked : packed lib type frame = some payload)
    (h : Carries b payload) :
    ∃ b', handleInDynamic lib b = some b' ∧ b'.readableData = frame := by
  obtain ⟨whole, h⟩ := h
  have hzero : payload = 0 :: frame → ∃ b', handleInDynamic lib b = some b' ∧
      b'.readableData = frame := by
    rintro rfl
    obtain ⟨b', hb', hat⟩ := handleInDynamic_none lib h
    exact ⟨b', hb', hat.readTo.left⟩
  unfold packed at hpacked
  split at hpacked
  · exact hzero (Option.some.inj hpacked).symm
  · obtain ⟨-, hpacked⟩ := Option.ite_none_right_eq_some.1 hpacked
    split at hpacked
    · next huse =>
      obtain ⟨compressed, hcompress, hdecompress⟩ := hlib.zstd huse frame
      rw [hcompress] at hpacked
      obtain rfl : 1 :: compressed = payload := Option.some.inj hpacked
      obtain ⟨hmark, hat⟩ := h.readByte
      have hleft : ((Reading.readNumber 1).run b).2.readableData = compressed := hat.readTo.left
      have hempty : Carries ({} : Buffer) [] := Carries.headroom 0
      have hplain := (hempty.reserveExact frame.length).commitWrite frame
      refine ⟨_, ?_, hplain.readableData⟩
      unfold handleInDynamic
      dsimp only
      rw [hmark, if_neg (by decide), if_pos (by decide), if_pos huse, hleft, hdecompress]
      rfl
    · exact hzero (Option.some.inj hpacked).symm

/-- **`Decode`** of a message that was sealed by a session it agrees with. -/
theorem handleDecrypt_sealed (hlib : Inverse lib) (hagree : Agree sender receiver)
    (hcounter : sender.counter stream < kMaxCounter) (hfresh : sender.enableEncryption = true →
      ((receiver.rxReplay.getD stream.toNat {}).accept (sender.counter stream)).1 = true)
    {message : List UInt8} (hsealed : sender.sealed lib stream payload = some message) :
    ∃ opened receiver', receiver.handleDecrypt lib (Buffer.ofData message) =
      (some opened, receiver') ∧
      Carries opened.payload payload := by
  unfold PeerSession.sealed at hsealed
  split at hsealed
  · cases hsealed
  next hsize =>
  cases henabled : sender.enableEncryption with
  | false =>
    rw [henabled, if_neg Bool.false_ne_true] at hsealed
    obtain rfl : 0 :: payload = message := Option.some.inj hsealed
    obtain ⟨b, hdecrypt, hat⟩ := handleDecrypt_plain lib (hagree.mode.trans henabled) payload
    exact ⟨_, _, hdecrypt, _, hat⟩
  | true =>
    rw [henabled, if_pos rfl, if_neg hcounter.ne] at hsealed
    obtain ⟨ciphertext, tag, hencrypt, htag, hdecrypt⟩ :=
      hlib.cipher (sender.encKey.getD sender.txKey)
      (buildNonce sender.txSalt stream (sender.counter stream)) payload (not_lt.1 hsize)
    rw [hencrypt] at hsealed
    obtain rfl := Option.some.inj hsealed
    rw [← hagree.key, ← hagree.salt] at hdecrypt
    have hlt : sender.counter stream < 256 ^ kCounterLen := by
      refine hcounter.trans_le ?_
      decide
    obtain ⟨b, hopened, hcarries⟩ := handleDecrypt_encrypted lib hlt htag hdecrypt
      (Prod.ext (hfresh henabled) rfl) (hagree.mode.trans henabled)
    exact ⟨_, _, hopened, hcarries⟩

theorem decode_message (hlib : Inverse lib) (hagree : Agree sender receiver)
    (hcounter : sender.counter stream < kMaxCounter) (hfresh : sender.enableEncryption = true →
      ((receiver.rxReplay.getD stream.toNat {}).accept (sender.counter stream)).1 = true)
    {message : List UInt8} (hmessage : sender.message lib stream frame = some message) :
    ∃ opened receiver', receiver.decode lib (Buffer.ofData message) = (some opened, receiver') ∧
      opened.payload.readableData = frame := by
  obtain ⟨payload, hpacked, hsealed⟩ := Option.bind_eq_some_iff.1 hmessage
  obtain ⟨opened, receiver', hdecrypt, hcarries⟩ :=
    handleDecrypt_sealed hlib hagree hcounter hfresh hsealed
  obtain ⟨b, hb, hdata⟩ := handleInDynamic_packed hlib hpacked hcarries
  refine ⟨{ opened with payload := b }, receiver', ?_, hdata⟩
  rw [decode, hdecrypt]
  dsimp only
  rw [hb]

/-! ## No stage fails -/

theorem exists_packed (hlib : Inverse lib) (htype : type = 0 ∨ type = 1) (frame : List UInt8) :
    ∃ payload, packed lib type frame = some payload := by
  rcases htype with rfl | rfl
  · exact ⟨_, rfl⟩
  · unfold packed
    rw [if_neg (by decide), if_pos rfl]
    split
    · next huse =>
      obtain ⟨compressed, hcompress, -⟩ := hlib.zstd huse frame
      exact ⟨_, by rw [hcompress, Option.map_some]⟩
    · exact ⟨_, rfl⟩

theorem exists_sealed (hlib : Inverse lib) (hcounter : sender.counter stream < kMaxCounter)
    (hsize : payload.length ≤ kIntMax) :
    ∃ message, sender.sealed lib stream payload = some message := by
  unfold PeerSession.sealed
  rw [if_neg (not_lt.2 hsize)]
  split
  · obtain ⟨ciphertext, tag, hencrypt, -⟩ := hlib.cipher (sender.encKey.getD sender.txKey)
      (buildNonce sender.txSalt stream (sender.counter stream)) payload hsize
    rw [if_neg hcounter.ne, hencrypt]
    exact ⟨_, rfl⟩
  · exact ⟨_, rfl⟩

/-! ## Serializers -/

/-- A serializer that writes a body into the buffer it is given, or returns a buffer of its own that
holds the body. -/
inductive Produces : (Buffer → Serialized) → List UInt8 → Prop
  | inPlace {writer : Buffer → Buffer} {body : List UInt8} (h : Appends writer body) :
      Produces (fun b => .written (writer b)) body
  | own (b : Buffer) : Produces (fun _ => .own b) b.readableData

theorem appends_write (bytes : List UInt8) : Appends (fun b => b.write bytes) bytes :=
  fun b _ h => ⟨h.write bytes, Buffer.readCursor_write b bytes, fun _ => b.storage_write bytes⟩

/-- Both make the packet's frame. -/
theorem carries_serialize {serializer : Buffer → Serialized} {body : List UInt8}
    (h : Produces serializer body) (hbody : body.length < 2 ^ 32) (packetId headroom : Nat) :
    ∃ b, serialize packetId serializer headroom = some b ∧
      Carries b ((packetFrame packetId body hbody).bytes .littleEndian) := by
  cases h with
  | inPlace hwriter =>
    obtain ⟨b, hserialize, hroomy⟩ := serialize_written hbody hwriter
    exact ⟨b, hserialize, hroomy.carries⟩
  | own own =>
    obtain ⟨b, hserialize, hroomy⟩ := serialize_written hbody (appends_write own.readableData)
    exact ⟨b, hserialize, hroomy.carries⟩

/-- **There and back.**  Two sessions agree on the mode, the keys and the salts, over libraries that
undo what they do.  For every packet, serializer, headroom, compression, threshold and stream:

* what `Encode` makes does not depend on where its stages found room;
* it makes a message unless the compressed frame is larger than an `int` can say;
* whatever it makes, `Decode` at the other end takes it back to the codec's frame, provided the
  counter is new to the replay window. -/
theorem pipeline_round_trip (hlib : Inverse lib) {sender receiver : PeerSession Key}
    (hagree : Agree sender receiver)
    (htype : sender.outCompression = 0 ∨ sender.outCompression = 1)
    {serializer : Buffer → Serialized} {body : List UInt8} (hproduces : Produces serializer body)
    (hbody : body.length < 2 ^ 32) (packetId headroom : Nat) {stream : UInt8}
    (hcounter : sender.counter stream < kMaxCounter)
    (hfresh : sender.enableEncryption = true →
      ((receiver.rxReplay.getD stream.toNat {}).accept (sender.counter stream)).1 = true) :
    ∃ serialized, serialize packetId serializer headroom = some serialized ∧
      serialized.readableData = (packetFrame packetId body hbody).bytes .littleEndian ∧
      (sender.encode lib serialized stream).1.map Buffer.readableData =
        sender.message lib stream ((packetFrame packetId body hbody).bytes .littleEndian) ∧
      ((∀ payload, packed lib (sender.compressionFor serialized.readableData)
          serialized.readableData = some payload → payload.length ≤ kIntMax) →
        ∃ out, (sender.encode lib serialized stream).1 = some out) ∧
      ∀ out, (sender.encode lib serialized stream).1 = some out →
        ∃ opened receiver', receiver.decode lib (Buffer.ofData out.readableData) =
            (some opened, receiver') ∧
          opened.payload.readableData = serialized.readableData := by
  obtain ⟨b, hserialize, hcarries⟩ := carries_serialize hproduces hbody packetId headroom
  have hencode := encode_message lib sender stream hcarries
  have hframe := hcarries.readableData
  refine ⟨b, hserialize, hframe, hencode, ?_, ?_⟩
  · intro hsize
    rw [hframe] at hsize
    have hpicked : sender.compressionFor
        ((packetFrame packetId body hbody).bytes .littleEndian) = 0 ∨
        sender.compressionFor ((packetFrame packetId body hbody).bytes .littleEndian) = 1 := by
      unfold PeerSession.compressionFor
      split
      · exact .inl rfl
      · exact htype
    obtain ⟨payload, hpacked⟩ := exists_packed hlib hpicked
      ((packetFrame packetId body hbody).bytes .littleEndian)
    obtain ⟨message, hsealed⟩ := exists_sealed hlib hcounter (hsize payload hpacked)
    rw [PeerSession.message, hpacked, Option.bind_some, hsealed] at hencode
    obtain ⟨out, hout, -⟩ := Option.map_eq_some_iff.1 hencode
    exact ⟨out, hout⟩
  · intro out hout
    rw [hout, Option.map_some] at hencode
    rw [hframe]
    exact decode_message hlib hagree hcounter hfresh hencode.symm

theorem inverse_plainLibraries : Inverse plainLibraries where
  cipher _ _ plaintext _ := ⟨plaintext, List.replicate 16 0, rfl, List.length_replicate, rfl⟩
  zstd h := by cases h

/-- The initiator and the acceptor behind their handshake, encrypted, and a serializer that forwards
a payload it already has. -/
theorem pipeline_round_trip_forwarded :
    ∃ d serialized out opened receiver',
      (duplex plainHonest.lib).exec plainHonest.begin handshakeRun = some d ∧
      serialize 7 (fun _ => .own (Buffer.ofData [1, 2, 3])) kSendHeadroom = some serialized ∧
      ((d.session .initiator).encode plainLibraries serialized 5).1 = some out ∧
      (d.session .acceptor).decode plainLibraries (Buffer.ofData out.readableData) =
        (some opened, receiver') ∧
      opened.payload.readableData = serialized.readableData := by
  have hexec : (((duplex plainHonest.lib).exec plainHonest.begin handshakeRun).map fun d =>
      (decide ((d.session .acceptor).keyFilled = (d.session .initiator).enableEncryption),
        decide ((d.session .acceptor).decKey.getD (d.session .acceptor).rxKey =
          (d.session .initiator).encKey.getD (d.session .initiator).txKey),
        decide ((d.session .acceptor).rxSalt = (d.session .initiator).txSalt),
        (d.session .initiator).outCompression, (d.session .initiator).counter 5,
        (((d.session .acceptor).rxReplay.getD 5 {}).accept 0).1)) =
      some (true, true, true, 0, 0, true) := by
    decide +kernel
  obtain ⟨d, hrun, hfacts⟩ := Option.map_eq_some_iff.1 hexec
  simp only [Prod.mk.injEq, decide_eq_true_eq] at hfacts
  obtain ⟨hmode, hkey, hsalt, htype, hcounter, haccept⟩ := hfacts
  have hlt : (d.session .initiator).counter 5 < kMaxCounter := by
    rw [hcounter]
    decide
  have hfresh : (d.session .initiator).enableEncryption = true →
      (((d.session .acceptor).rxReplay.getD (5 : UInt8).toNat {}).accept
        ((d.session .initiator).counter 5)).1 = true := by
    intro _
    rw [hcounter]
    exact haccept
  obtain ⟨serialized, hserialize, hframe, -, hmakes, hback⟩ :=
    pipeline_round_trip inverse_plainLibraries ⟨hmode, hkey, hsalt⟩ (.inl htype)
      (.own (Buffer.ofData [1, 2, 3])) (by decide) 7 kSendHeadroom hlt hfresh
  obtain ⟨out, hout⟩ := hmakes (by
    intro payload hpacked
    have hpacked' : packed plainLibraries 0 serialized.readableData = some payload := by
      rw [PeerSession.compressionFor, htype, ite_self] at hpacked
      exact hpacked
    obtain rfl := Option.some.inj hpacked'
    rw [hframe]
    decide)
  obtain ⟨opened, receiver', hdecode, hdata⟩ := hback out hout
  exact ⟨d, serialized, out, opened, receiver', hrun, hserialize, hout, hdecode, hdata⟩

end Peer
end Znet

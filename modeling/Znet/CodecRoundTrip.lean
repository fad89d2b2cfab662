import Znet.Peer.Pipeline

/-!
# Packets through the codec and back

`Codec::Serialize` frames a packet; `Codec::Deserialize` takes a run of frames apart.  A serializer
that reads back the packet it wrote, to the last byte, can still leave `last_error_` set, if it
tried to read more: the packet behind it is then lost, with everything that follows.

* `codec_round_trip_iff` — **the packets come out, in order and with nothing noted as invalid,
  exactly when no packet but the last one leaves an error.**
-/

namespace Znet

/-! ## The codec -/

/-- A registered serializer. -/
structure PacketSerializer (Packet : Type) where
  serialize : Packet → Buffer → Serialized
  deserialize : Serializer Packet

/-- The ids of packets, and the serializers that are registered for them. -/
structure Codec (Packet : Type) where
  id : Packet → BitVec 64
  serializers : Nat → Option (PacketSerializer Packet)

namespace Codec

variable {Packet : Type} (codec : Codec Packet)

/-- `Codec::Serialize`. -/
def serialize (packet : Packet) (headroom : Nat) : Option Buffer :=
  (codec.serializers (codec.id packet).toNat).bind fun serializer =>
    Znet.serialize (codec.id packet).toNat (serializer.serialize packet) headroom

/-- What the loop of `Deserialize` looks up. -/
def readers : Serializers Packet := fun id => (codec.serializers id).map (·.deserialize)

/-- `Codec::Deserialize`. -/
def deserialize (b : Buffer) : Decoded Packet := Znet.deserialize codec.readers b

/-- The packet's serializer writes this body, in place or in a buffer of its own, and reads exactly
these bytes as the packet, to the last one. -/
def RoundTrips (packet : Packet) (body : List UInt8) : Prop :=
  ∃ serializer, codec.serializers (codec.id packet).toNat = some serializer ∧
    Peer.Produces (serializer.serialize packet) body ∧
    (serializer.deserialize.run (Buffer.ofData body)).1 = some packet ∧
    (serializer.deserialize.run (Buffer.ofData body)).2.readableBytes = 0

/-- The error that reading a body of the packet leaves in the buffer. -/
def leftError (packet : Packet) (body : List UInt8) : BufferError :=
  ((codec.readers (codec.id packet).toNat).map fun serializer =>
    (serializer.run (Buffer.ofData body)).2.lastError).getD .none

end Codec

/-- A packet on its way: its serializer writes the body behind so much headroom, and reads it back.
A frame's length has four bytes. -/
structure Parcel {Packet : Type} (codec : Codec Packet) where
  packet : Packet
  headroom : Nat
  body : List UInt8
  body_lt : body.length < 2 ^ 32
  roundTrips : codec.RoundTrips packet body

/-! ## Frames of packets -/

section Frames

variable {Packet : Type} {codec : Codec Packet}

/-- The frame `Serialize` makes. -/
def Parcel.frame (parcel : Parcel codec) : Frame :=
  packetFrame (codec.id parcel.packet).toNat parcel.body parcel.body_lt

variable (parcel : Parcel codec) (parcels : List (Parcel codec)) (start : Nat)
  (out : Decoded Packet)

/-- The id reads back. -/
theorem Parcel.id_frame : parcel.frame.id .littleEndian = (codec.id parcel.packet).toNat := by
  have hlt := (codec.id parcel.packet).isLt
  show Bytes.ofLe (Bytes.le (Bytes.significant 8 _) _) = _
  rw [Bytes.ofLe_le_significant]
  exact Nat.mod_eq_of_lt (lt_of_lt_of_le hlt (by decide))

/-- Read inside the frame, the body is the packet. -/
theorem Parcel.reading_frame :
    ∃ view, parcel.frame.reading .littleEndian codec.readers = some (some parcel.packet, view) ∧
      view.lastError = codec.leftError parcel.packet parcel.body := by
  obtain ⟨serializer, hregistered, -, hpacket, -⟩ := parcel.roundTrips
  obtain ⟨hresult, hat⟩ := (At.ofData parcel.body).run serializer.deserialize
  have hreader : codec.readers (codec.id parcel.packet).toNat = some serializer.deserialize := by
    unfold Codec.readers
    rw [hregistered]
    rfl
  refine ⟨(serializer.deserialize.scan .littleEndian ⟨parcel.body, .none⟩).2, ?_, ?_⟩
  · unfold Frame.reading
    rw [parcel.id_frame, hreader, Option.map_some]
    refine congrArg some (Prod.ext ?_ rfl)
    rw [← hpacket, hresult]
    rfl
  · unfold Codec.leftError
    rw [hreader, Option.map_some, Option.getD_some, hat.lastError]

theorem Parcel.note_frame :
    parcel.frame.note .littleEndian codec.readers start out = out.dispatch start parcel.packet := by
  obtain ⟨view, hreading, -⟩ := parcel.reading_frame
  unfold Frame.note
  rw [hreading]

theorem Parcel.leftError_frame : parcel.frame.leftError .littleEndian codec.readers =
      codec.leftError parcel.packet parcel.body := by
  obtain ⟨view, hreading, herror⟩ := parcel.reading_frame
  unfold Frame.leftError
  rw [hreading, Option.map_some, Option.getD_some, herror]

/-- **`Serialize`** makes the packet's frame. -/
theorem Parcel.serialize : ∃ b, codec.serialize parcel.packet parcel.headroom = some b ∧
      b.readableData = parcel.frame.bytes .littleEndian := by
  obtain ⟨serializer, hregistered, hproduces, -, -⟩ := parcel.roundTrips
  obtain ⟨b, hserialize, hcarries⟩ := Peer.carries_serialize hproduces parcel.body_lt
    (codec.id parcel.packet).toNat parcel.headroom
  refine ⟨b, ?_, hcarries.readableData⟩
  unfold Codec.serialize
  rw [hregistered, Option.bind_some]
  exact hserialize

/-- Frames that leave no error behind are all dispatched. -/
theorem decodedFrames_clean
    (hclean : ∀ parcel ∈ parcels.dropLast, codec.leftError parcel.packet parcel.body = .none) :
    (decodedFrames codec.readers .littleEndian (parcels.map Parcel.frame) start out).stats =
        out.stats ∧
      (decodedFrames codec.readers .littleEndian (parcels.map Parcel.frame) start
        out).dispatched.map Prod.snd =
        out.dispatched.map Prod.snd ++ parcels.map Parcel.packet := by
  induction parcels generalizing start out with
  | nil => simp [decodedFrames]
  | cons parcel parcels ih =>
    rw [List.map_cons, decodedFrames, parcel.note_frame, parcel.leftError_frame]
    cases parcels with
    | nil =>
      -- the last one may leave an error: nothing follows
      split <;> simp [decodedFrames, Decoded.dispatch]
    | cons next rest =>
      rw [List.dropLast_cons_cons, List.forall_mem_cons] at hclean
      obtain ⟨hstats, hdispatched⟩ := ih (start + (parcel.frame.bytes .littleEndian).length)
        (out.dispatch start parcel.packet) hclean.2
      rw [if_pos hclean.1]
      refine ⟨hstats, ?_⟩
      rw [hdispatched]
      simp [Decoded.dispatch]

/-- A frame that leaves an error takes the framing with it, if another one follows. -/
theorem decodedFrames_lost
    (hleft : ∃ parcel ∈ parcels.dropLast, codec.leftError parcel.packet parcel.body ≠ .none) :
    (decodedFrames codec.readers .littleEndian (parcels.map Parcel.frame) start
      out).stats.framingLost = true := by
  induction parcels generalizing start out with
  | nil =>
    obtain ⟨parcel, hmem, -⟩ := hleft
    cases hmem
  | cons parcel parcels ih =>
    rw [List.map_cons, decodedFrames, parcel.note_frame, parcel.leftError_frame]
    cases parcels with
    | nil =>
      obtain ⟨other, hmem, -⟩ := hleft
      cases hmem
    | cons next rest =>
      by_cases herror : codec.leftError parcel.packet parcel.body = .none
      · rw [if_pos herror]
        apply ih
        obtain ⟨other, hmem, hother⟩ := hleft
        rcases List.mem_cons.1 hmem with rfl | hmem
        · exact absurd herror hother
        · exact ⟨other, hmem, hother⟩
      · rw [if_neg herror]
        rfl

end Frames

/-- **There and back through the codec.**  For any packets whose serializers read back what they
wrote, each written behind any headroom, in place or in a buffer of the serializer's own:
`Serialize` makes a buffer for each, and `Deserialize` of their readable bytes one after the other
dispatches exactly the packets, in order, with no frame invalid and the framing kept, if and only if
reading a packet other than the last one leaves no error in the buffer. -/
theorem codec_round_trip_iff {Packet : Type} (codec : Codec Packet)
    (parcels : List (Parcel codec)) :
    ∃ buffers : List Buffer,
      parcels.map (fun parcel => codec.serialize parcel.packet parcel.headroom) =
          buffers.map some ∧
      (((codec.deserialize (Buffer.ofData (buffers.flatMap Buffer.readableData))).dispatched.map
            Prod.snd = parcels.map Parcel.packet ∧
          (codec.deserialize (Buffer.ofData (buffers.flatMap Buffer.readableData))).stats =
            { invalidFrames := 0, framingLost := false }) ↔
        ∀ parcel ∈ parcels.dropLast, codec.leftError parcel.packet parcel.body = .none) := by
  obtain ⟨buffers, hserialize, hbytes⟩ : ∃ buffers : List Buffer,
      parcels.map (fun parcel => codec.serialize parcel.packet parcel.headroom) =
          buffers.map some ∧
      buffers.flatMap Buffer.readableData =
        framesBytes .littleEndian (parcels.map Parcel.frame) := by
    induction parcels with
    | nil => exact ⟨[], rfl, rfl⟩
    | cons parcel parcels ih =>
      obtain ⟨b, hb, hdata⟩ := parcel.serialize
      obtain ⟨buffers, hserialize, hbytes⟩ := ih
      refine ⟨b :: buffers, ?_, ?_⟩
      · rw [List.map_cons, List.map_cons, hb, hserialize]
      · rw [List.flatMap_cons, List.map_cons, framesBytes_cons, hdata, hbytes]
  refine ⟨buffers, hserialize, ?_⟩
  rw [hbytes, Codec.deserialize, deserialize_eq codec.readers (At.ofData _)]
  constructor
  · rintro ⟨-, hstats⟩
    by_contra hleft
    push Not at hleft
    have hlost := decodedFrames_lost parcels 0 {} hleft
    rw [show (Buffer.ofData (framesBytes .littleEndian (parcels.map Parcel.frame))).readCursor = 0
      from rfl] at hstats
    rw [hstats] at hlost
    cases hlost
  · intro hclean
    obtain ⟨hstats, hdispatched⟩ := decodedFrames_clean parcels 0 {} hclean
    exact ⟨hdispatched, hstats⟩

/-! ## An optional last field -/

/-- A codec for packets of one byte. -/
def byteCodec (deserialize : Reading (Option Nat)) : Codec Nat where
  id _ := 7
  serializers
    | 7 => some { serialize := fun n b => .written (b.write [UInt8.ofNat n]), deserialize }
    | _ => none

theorem byteCodec_roundTrips {deserialize : Reading (Option Nat)} {n : Nat}
    (hpacket : (deserialize.run (Buffer.ofData [UInt8.ofNat n])).1 = some n)
    (hwhole : (deserialize.run (Buffer.ofData [UInt8.ofNat n])).2.readableBytes = 0) :
    (byteCodec deserialize).RoundTrips n [UInt8.ofNat n] :=
  ⟨_, rfl, .inPlace (Peer.appends_write _), hpacket, hwhole⟩

/-- It reads the byte and no more. -/
def plainField : Codec Nat :=
  byteCodec ((Reading.readNumber 1).bind fun n => .done (some n))

/-- Two packets, one with room in front, come back. -/
theorem codec_round_trip_two :
    ∃ b₁ b₂, plainField.serialize 1 0 = some b₁ ∧ plainField.serialize 2 8 = some b₂ ∧
      (plainField.deserialize (Buffer.ofData (b₁.readableData ++ b₂.readableData))).dispatched.map
        Prod.snd = [1, 2] := by
  have hparcel : ∀ n, n = 1 ∨ n = 2 → plainField.RoundTrips n [UInt8.ofNat n] := by
    rintro n (rfl | rfl) <;> exact byteCodec_roundTrips (by decide +kernel) (by decide +kernel)
  obtain ⟨buffers, hserialize, hiff⟩ := codec_round_trip_iff plainField
    [⟨1, 0, [1], by decide, hparcel 1 (.inl rfl)⟩, ⟨2, 8, [2], by decide, hparcel 2 (.inr rfl)⟩]
  obtain ⟨b₁, b₂, rfl⟩ : ∃ b₁ b₂, buffers = [b₁, b₂] := by
    have hlength := congrArg List.length hserialize
    simp only [List.length_map] at hlength
    exact List.length_eq_two.1 hlength.symm
  injection hserialize with hfirst hrest
  injection hrest with hsecond
  have hclean : plainField.leftError 1 [1] = .none := by decide +kernel
  have hdispatched := (hiff.2 (List.forall_mem_singleton.2 hclean)).1
  exact ⟨b₁, b₂, hfirst, hsecond, by simpa using hdispatched⟩

/-- It also asks for a second byte, and does without it when there is none. -/
def optionalField : Codec Nat :=
  byteCodec ((Reading.readNumber 1).bind fun n =>
    (Reading.readNumber 1).bind fun _ => .done (some n))

/-- **The packet behind it is lost.**  Both packets read back alone, to the last byte; of the two in
a row only the first is dispatched. -/
theorem optional_field_loses_next :
    optionalField.RoundTrips 1 [1] ∧ optionalField.RoundTrips 2 [2] ∧
      ∃ b₁ b₂, optionalField.serialize 1 0 = some b₁ ∧ optionalField.serialize 2 0 = some b₂ ∧
        (optionalField.deserialize
          (Buffer.ofData (b₁.readableData ++ b₂.readableData))).dispatched = [(0, 1)] ∧
        (optionalField.deserialize (Buffer.ofData (b₁.readableData ++ b₂.readableData))).stats =
          { invalidFrames := 1, framingLost := true } := by
  refine ⟨byteCodec_roundTrips (by decide +kernel) (by decide +kernel),
    byteCodec_roundTrips (by decide +kernel) (by decide +kernel), _, _, rfl, rfl, ?_, ?_⟩
  · decide +kernel
  · decide +kernel

end Znet

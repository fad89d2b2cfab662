import Znet.Buffer

/-!
# Framed packets

`Codec::Deserialize` (`codec.cc`): a payload is a run of frames, each a packet
id, a four-byte length and a body, and each body is read by the serializer its
id names.  The loop keeps three pieces of buffer state from one frame to the
next, the read cursor, the read limit and the sticky error.

* `frame_dispatched_iff` — **a frame is decoded as if it were alone exactly when
  no frame before it left an error behind.**
-/

namespace Znet

/-! ## The codec -/

/-- `PacketSerializerBase::Deserialize`: reads one packet, or returns null. -/
abbrev Serializer (Packet : Type) := Reading (Option Packet)

/-- The registered serializers, by packet id. -/
abbrev Serializers (Packet : Type) := Nat → Option (Serializer Packet)

/-- What `Deserialize` found besides the packets it delivered. -/
structure DecodeStats where
  invalidFrames : Nat := 0
  framingLost : Bool := false
  deriving DecidableEq, Repr

/-- What `Deserialize` has done: its statistics, and the calls of the handler,
each with the offset of the frame it is for.  A handler never touches the
buffer. -/
structure Decoded (Packet : Type) where
  stats : DecodeStats := {}
  dispatched : List (Nat × Packet) := []
  deriving DecidableEq, Repr

namespace Decoded

variable {Packet : Type}

/-- `note_invalid`, without the dump. -/
def noteInvalid (out : Decoded Packet) : Decoded Packet :=
  { out with stats := { out.stats with invalidFrames := out.stats.invalidFrames + 1 } }

/-- A frame is invalid and nothing behind it can be located. -/
def loseFraming (out : Decoded Packet) : Decoded Packet :=
  { out.noteInvalid with stats := { out.noteInvalid.stats with framingLost := true } }

/-- `handler.Handle`. -/
def dispatch (out : Decoded Packet) (frameStart : Nat) (packet : Packet) : Decoded Packet :=
  { out with dispatched := out.dispatched ++ [(frameStart, packet)] }

end Decoded

/-- What the loop does next. -/
inductive Pass (Packet : Type) where
  | continue (b : Buffer) (out : Decoded Packet)
  | break (out : Decoded Packet)

section Deserialize

variable {Packet : Type} (serializers : Serializers Packet)

/-- Rewind to a frame's body, skip all of it and lift the limit. -/
def skipBody (b : Buffer) (readCursor size : Nat) : Buffer :=
  ((b.setReadCursor readCursor).skipRead size).setReadLimit 0

/-- What follows a serializer's answer. -/
def finishFrame (frameStart readCursor size : Nat) (out : Decoded Packet) :
    Option Packet × Buffer → Pass Packet
  | (none, b) => .continue (skipBody b readCursor size) out.noteInvalid
  | (some packet, b) =>
    let readBytes := b.readCursor - readCursor
    if readBytes < size then .continue (skipBody b readCursor size) (out.dispatch frameStart packet)
    else if size < readBytes then .break out.loseFraming
    else .continue (b.setReadLimit 0) (out.dispatch frameStart packet)

/-- One pass of the loop of `Deserialize`. -/
def decodeFrame (b : Buffer) (out : Decoded Packet) : Pass Packet :=
  let frameStart := b.readCursor
  let (packetId, b) := (Reading.readVarInt 8).run b
  let (size, b) := (Reading.readNumber 4).run b
  let (error, b) := b.getAndClearLastError
  if error ≠ .none then .break out.loseFraming
  else if b.readableBytes < size then .break out.loseFraming
  else
    let readCursor := b.readCursor
    match serializers packetId with
    | none => .continue (b.skipRead size) out
    | some serializer =>
      -- fences the serializer inside its own frame
      finishFrame frameStart readCursor size out
        (serializer.run (b.setReadLimit (readCursor + size)))

/-- The loop.  Every pass that goes on has taken a byte, so as many passes as
there are readable bytes are enough. -/
def deserializeLoop : Nat → Buffer → Decoded Packet → Decoded Packet
  | 0, _, out => out
  | fuel + 1, b, out =>
    if b.readableBytes = 0 then out
    else
      match decodeFrame serializers b out with
      | .continue b out => deserializeLoop fuel b out
      | .break out => out

/-- `Codec::Deserialize`. -/
def deserialize (b : Buffer) : Decoded Packet := deserializeLoop serializers b.readableBytes b {}

end Deserialize

/-- What a serializer returns: the buffer it was given, a buffer of its own, or
nothing. -/
inductive Serialized where
  | written (b : Buffer)
  | own (b : Buffer)
  | nothing

/-- `Codec::Serialize`, with the registered serializer of the packet. -/
def serialize (packetId : Nat) (serializer : Buffer → Serialized) (headroom : Nat) :
    Option Buffer :=
  let b : Buffer := if headroom ≠ 0 then Buffer.reserveHeadroom {} headroom else {}
  let b := b.writeVarInt 8 packetId
  let b := b.writeNumber 4 0
  let writeCursor := b.data.length
  -- the length placeholder in front of the body
  let finish (b : Buffer) : Buffer :=
    b.backfill (writeCursor - 4) (b.endianness.bytes 4 (b.data.length - writeCursor))
  match serializer b with
  | .nothing => none
  | .written b => some (finish b)
  | .own out => some (finish (b.write out.readableData))

/-! ## Frames -/

/-- A well-formed frame: an id of at most eight bytes, and a body whose length
fits four. -/
structure Frame where
  idBytes : List UInt8
  body : List UInt8
  id_le : idBytes.length ≤ 8
  body_lt : body.length < 2 ^ 32

namespace Frame

/-- The bytes of a frame, in a buffer of the given byte order. -/
def bytes (order : Endianness) (f : Frame) : List UInt8 :=
  UInt8.ofNat f.idBytes.length :: (f.idBytes ++ (order.bytes 4 f.body.length ++ f.body))

/-- The id the bytes spell. -/
def id (order : Endianness) (f : Frame) : Nat := order.number f.idBytes

variable {Packet : Type} (order : Endianness) (serializers : Serializers Packet) (f : Frame)

/-- What the frame's serializer does on its body. -/
def reading : Option (Option Packet × Reading.View) :=
  (serializers (f.id order)).map fun serializer => serializer.scan order ⟨f.body, .none⟩

/-- The packet the frame's serializer makes of its body. -/
def packet : Option Packet := (f.reading order serializers).bind Prod.fst

/-- The error the frame's serializer leaves in the buffer. -/
def leftError : BufferError :=
  ((f.reading order serializers).map fun r => r.2.lastError).getD .none

/-- What the loop notes about the frame. -/
def note (start : Nat) (out : Decoded Packet) : Decoded Packet :=
  match f.reading order serializers with
  | none => out
  | some (none, _) => out.noteInvalid
  | some (some packet, _) => out.dispatch start packet

theorem dispatched_note (start : Nat) (out : Decoded Packet) :
    (f.note order serializers start out).dispatched =
      out.dispatched ++ (f.packet order serializers).toList.map (start, ·) := by
  unfold note packet
  rcases f.reading order serializers with _ | ⟨_ | packet, view⟩ <;>
    simp [Decoded.noteInvalid, Decoded.dispatch]

theorem length_bytes (f : Frame) :
    (f.bytes order).length = f.idBytes.length + 5 + f.body.length := by
  simp only [bytes, List.length_cons, List.length_append, Endianness.length_bytes]
  omega

end Frame

/-- The bytes of a run of frames. -/
def framesBytes (order : Endianness) (frames : List Frame) : List UInt8 :=
  frames.flatMap (Frame.bytes order)

/-! ## One pass -/

theorem scan_readVarInt (order : Endianness) {idBytes : List UInt8} (hid : idBytes.length ≤ 8)
    (rest : List UInt8) (e : BufferError) :
    (Reading.readVarInt 8).scan order ⟨UInt8.ofNat idBytes.length :: (idBytes ++ rest), e⟩ =
      (order.number idBytes, ⟨rest, e⟩) := by
  have hcount : (Reading.readNumber 1).scan order
      ⟨UInt8.ofNat idBytes.length :: (idBytes ++ rest), e⟩ =
      (idBytes.length, ⟨idBytes ++ rest, e⟩) := by
    have hbyte : UInt8.ofNat idBytes.length :: (idBytes ++ rest) =
        order.bytes 1 idBytes.length ++ (idBytes ++ rest) := by
      cases order <;> rfl
    rw [hbyte, Reading.scan_readNumber, Nat.mod_eq_of_lt (by omega)]
  have hread : (Reading.readNumber idBytes.length).scan order ⟨idBytes ++ rest, e⟩ =
      (order.number idBytes, ⟨rest, e⟩) := by
    simp [Reading.readNumber, Reading.scan]
  unfold Reading.readVarInt
  simp only [Reading.scan, List.length_cons]
  rw [if_neg (by omega), Reading.scan_bind, hcount]
  rw [if_neg (by omega)]
  simp only [Reading.scan, List.length_append]
  rw [if_neg (by omega), hread]

section At

variable {whole left : List UInt8} {order : Endianness} {e : BufferError} {b : Buffer}

/-- A limit behind a frame's body makes the body all there is to read. -/
theorem At.fenced {body rest : List UInt8} (h : At whole order (body ++ rest) e b)
    (hpos : b.readCursor ≠ 0) :
    Reading.ReadTo (b.setReadLimit (b.readCursor + body.length))
      (b.setReadLimit (b.readCursor + body.length)) ⟨body, e⟩ := by
  have hcursor := h.cursor
  rw [List.length_append] at hcursor
  have hfence : (b.setReadLimit (b.readCursor + body.length)).fence =
      b.readCursor + body.length := by
    simp only [Buffer.fence, Buffer.setReadLimit]
    rw [if_neg (by omega)]
    simp only [h.data]
    omega
  have hwithin : (b.setReadLimit (b.readCursor + body.length)).Within := by
    rw [Buffer.Within, hfence]
    exact Nat.le_add_right _ _
  have hbytes : (b.setReadLimit (b.readCursor + body.length)).readableBytes = body.length := by
    rw [Buffer.readableBytes, hfence]
    show b.readCursor + body.length - b.readCursor = body.length
    omega
  have hleft : (b.setReadLimit (b.readCursor + body.length)).readableData = body := by
    rw [Buffer.readableData, hbytes]
    show (b.data.drop b.readCursor).take body.length = body
    rw [h.data, h.left, List.take_left]
  have hrefl := Reading.ReadTo.refl hwithin
  rw [hleft] at hrefl
  rwa [show (b.setReadLimit (b.readCursor + body.length)).lastError = e from h.lastError] at hrefl

end At

section Frames

variable {Packet : Type} {whole : List UInt8} {order : Endianness}
  (serializers : Serializers Packet)

variable {rest : List UInt8} {frames : List Frame}

/-- The header of a frame is read back, whatever error stands in the buffer. -/
theorem At.header {f : Frame} {e : BufferError} {b : Buffer}
    (h : At whole order (f.bytes order ++ rest) e b) :
    ((Reading.readVarInt 8).run b).1 = f.id order ∧
      ((Reading.readNumber 4).run ((Reading.readVarInt 8).run b).2).1 = f.body.length ∧
      At whole order (f.body ++ rest) e
        ((Reading.readNumber 4).run ((Reading.readVarInt 8).run b).2).2 := by
  have hid : (Reading.readVarInt 8).scan order ⟨f.bytes order ++ rest, e⟩ =
      (f.id order, ⟨order.bytes 4 f.body.length ++ (f.body ++ rest), e⟩) := by
    have := scan_readVarInt order f.id_le (order.bytes 4 f.body.length ++ (f.body ++ rest)) e
    rw [Frame.bytes, List.cons_append, List.append_assoc, List.append_assoc]
    exact this
  have hsize : (Reading.readNumber 4).scan order
      ⟨order.bytes 4 f.body.length ++ (f.body ++ rest), e⟩ =
        (f.body.length, ⟨f.body ++ rest, e⟩) := by
    have hlt := f.body_lt
    rw [Reading.scan_readNumber, Nat.mod_eq_of_lt (by omega)]
  obtain ⟨h₁, hat₁⟩ := h.run (Reading.readVarInt 8)
  rw [hid] at h₁ hat₁
  obtain ⟨h₂, hat₂⟩ := hat₁.run (Reading.readNumber 4)
  rw [hsize] at h₂ hat₂
  exact ⟨h₁, h₂, hat₂⟩

/-- A frame behind an error is not decoded, and nothing behind it is. -/
theorem decodeFrame_of_error {f : Frame} {e : BufferError} {b : Buffer}
    (h : At whole order (f.bytes order ++ rest) e b) (he : e ≠ .none) (out : Decoded Packet) :
    decodeFrame serializers b out = .break out.loseFraming := by
  obtain ⟨-, -, hat⟩ := h.header
  unfold decodeFrame
  simp only [Buffer.getAndClearLastError, hat.lastError]
  rw [if_pos he]

/-- A serializer fenced inside a frame's body ends on or before its end. -/
theorem finishFrame_fenced {body : List UInt8} {b b' : Buffer} {v : Reading.View}
    (hat : At whole order (body ++ rest) .none b)
    (hread : Reading.ReadTo (b.setReadLimit (b.readCursor + body.length)) b' v)
    (hfence : (b.setReadLimit (b.readCursor + body.length)).fence = b.readCursor + body.length)
    (start : Nat) (out : Decoded Packet) (packet : Option Packet) :
    ∃ b'', finishFrame start b.readCursor body.length out (packet, b') =
        .continue b'' (match packet with
          | none => out.noteInvalid
          | some packet => out.dispatch start packet) ∧
      At whole order rest v.lastError b'' := by
  have hcursor := hread.readCursor
  have hforward : b.readCursor ≤ b'.readCursor := hread.forward
  have hskip : At whole order rest v.lastError (skipBody b' b.readCursor body.length) := by
    have := hat.skip (skipBody b' b.readCursor body.length) hread.endianness hread.data rfl rfl
    rwa [show (skipBody b' b.readCursor body.length).lastError = v.lastError from
      hread.lastError] at this
  cases packet with
  | none => exact ⟨_, rfl, hskip⟩
  | some packet =>
    unfold finishFrame
    dsimp only
    by_cases hshort : b'.readCursor - b.readCursor < body.length
    · rw [if_pos hshort]
      exact ⟨_, rfl, hskip⟩
    · rw [if_neg hshort, if_neg (by omega)]
      refine ⟨_, rfl, ?_⟩
      have hend : b'.readCursor = b.readCursor + body.length := by omega
      have := hat.skip (b'.setReadLimit 0) hread.endianness hread.data rfl hend
      rwa [show (b'.setReadLimit 0).lastError = v.lastError from hread.lastError] at this

/-- **One frame.**  A pass notes what the frame's serializer makes of the body
alone, and goes on in front of what follows with the error it left. -/
theorem decodeFrame_frame {f : Frame} {b : Buffer}
    (h : At whole order (f.bytes order ++ rest) .none b) (out : Decoded Packet) :
    ∃ b', decodeFrame serializers b out =
        .continue b' (f.note order serializers b.readCursor out) ∧
      At whole order rest (f.leftError order serializers) b' := by
  obtain ⟨hid, hsize, hat⟩ := h.header
  unfold decodeFrame
  simp only [Buffer.getAndClearLastError, hat.lastError, hid, hsize]
  generalize ((Reading.readNumber 4).run ((Reading.readVarInt 8).run b).2).2 = b₂ at hat
  have hclear : { b₂ with lastError := BufferError.none } = b₂ := by
    rw [← hat.lastError]
  have hroom : ¬ b₂.readableBytes < f.body.length := by
    rw [hat.readableBytes, List.length_append]
    omega
  rw [if_neg (by simp), hclear, if_neg hroom]
  unfold Frame.note Frame.leftError Frame.reading
  cases hser : serializers (f.id order) with
  | none =>
    have := hat.skip (b₂.skipRead f.body.length) rfl rfl hat.readLimit rfl
    refine ⟨_, rfl, ?_⟩
    rwa [show (b₂.skipRead f.body.length).lastError = .none from hat.lastError] at this
  | some serializer =>
    have hpos : b₂.readCursor ≠ 0 := by
      have h₁ := h.cursor
      have h₂ := hat.cursor
      rw [List.length_append, Frame.length_bytes] at h₁
      rw [List.length_append] at h₂
      omega
    have hfenced := hat.fenced hpos
    have hcursor := hfenced.readCursor
    obtain ⟨hresult, hread⟩ := Reading.run_scan serializer hfenced
    rw [show (b₂.setReadLimit (b₂.readCursor + f.body.length)).endianness = order from
      hat.endianness] at hresult hread
    have hpair : serializer.run (b₂.setReadLimit (b₂.readCursor + f.body.length)) =
        ((serializer.scan order ⟨f.body, .none⟩).1,
          (serializer.run (b₂.setReadLimit (b₂.readCursor + f.body.length))).2) :=
      Prod.ext hresult rfl
    obtain ⟨b', hfinish, hat'⟩ := finishFrame_fenced hat hread hcursor.symm b.readCursor out
      (serializer.scan order ⟨f.body, .none⟩).1
    simp only
    rw [hpair, hfinish]
    refine ⟨b', ?_, hat'⟩
    simp only [Option.map_some]
    rcases serializer.scan order ⟨f.body, .none⟩ with ⟨_ | packet, view⟩ <;> rfl

/-! ## The loop -/

/-- What the loop dispatches from a run of frames that starts at an offset: what
each frame holds, up to the first one that leaves an error. -/
def dispatchedFrames (order : Endianness) : List Frame → Nat → List (Nat × Packet)
  | [], _ => []
  | f :: frames, start =>
    (f.packet order serializers).toList.map (start, ·) ++
      if f.leftError order serializers = .none then
        dispatchedFrames order frames (start + (f.bytes order).length)
      else []

theorem framesBytes_cons (order : Endianness) (f : Frame) (frames : List Frame) :
    framesBytes order (f :: frames) = f.bytes order ++ framesBytes order frames := by
  simp [framesBytes]

theorem length_le_framesBytes (order : Endianness) (frames : List Frame) :
    frames.length ≤ (framesBytes order frames).length := by
  induction frames with
  | nil => simp
  | cons f frames ih =>
    rw [framesBytes_cons, List.length_append, Frame.length_bytes, List.length_cons]
    omega

/-- What the loop has noted after a run of frames that starts at an offset: what each frame holds,
up to the first one that leaves an error, and that the framing is lost if another frame follows
it. -/
def decodedFrames (order : Endianness) : List Frame → Nat → Decoded Packet → Decoded Packet
  | [], _, out => out
  | f :: frames, start, out =>
    if f.leftError order serializers = .none then
      decodedFrames order frames (start + (f.bytes order).length)
        (f.note order serializers start out)
    else if frames.isEmpty then f.note order serializers start out
    else (f.note order serializers start out).loseFraming

/-- **The loop.**  From in front of any run of frames, with no error standing. -/
theorem deserializeLoop_eq (frames : List Frame) {fuel : Nat} (hfuel : frames.length ≤ fuel)
    {b : Buffer} (h : At whole order (framesBytes order frames) .none b) (out : Decoded Packet) :
    deserializeLoop serializers fuel b out =
      decodedFrames serializers order frames b.readCursor out := by
  induction frames generalizing fuel b out with
  | nil =>
    have hempty : b.readableBytes = 0 := h.readableBytes
    cases fuel with
    | zero => rfl
    | succ fuel => simp [deserializeLoop, decodedFrames, hempty]
  | cons f frames ih =>
    obtain ⟨fuel, rfl⟩ : ∃ n, fuel = n + 1 := ⟨fuel - 1, by simp at hfuel; omega⟩
    rw [framesBytes_cons] at h
    have hsome : b.readableBytes ≠ 0 := by
      rw [h.readableBytes, List.length_append, Frame.length_bytes]
      omega
    obtain ⟨b', hpass, hat⟩ := decodeFrame_frame serializers h out
    have hstart : b'.readCursor = b.readCursor + (f.bytes order).length := by
      have h₁ := h.cursor
      have h₂ := hat.cursor
      rw [List.length_append] at h₁
      omega
    rw [deserializeLoop, if_neg hsome, hpass, decodedFrames]
    simp only
    by_cases hleft : f.leftError order serializers = .none
    · rw [hleft] at hat
      rw [ih (by simpa using hfuel) hat, if_pos hleft, hstart]
    · rw [if_neg hleft]
      -- the error stands: the next pass, if there is one, gives the rest up
      cases frames with
      | nil =>
        have hempty : b'.readableBytes = 0 := hat.readableBytes
        cases fuel with
        | zero => rfl
        | succ fuel =>
          rw [deserializeLoop, if_pos hempty]
          rfl
      | cons g frames =>
        obtain ⟨fuel, rfl⟩ : ∃ n, fuel = n + 1 := ⟨fuel - 1, by simp at hfuel; omega⟩
        rw [framesBytes_cons] at hat
        have hmore : b'.readableBytes ≠ 0 := by
          rw [hat.readableBytes, List.length_append, Frame.length_bytes]
          omega
        rw [deserializeLoop, if_neg hmore, decodeFrame_of_error serializers hat hleft]
        rfl

theorem dispatched_decodedFrames (frames : List Frame) (start : Nat) (out : Decoded Packet) :
    (decodedFrames serializers order frames start out).dispatched =
      out.dispatched ++ dispatchedFrames serializers order frames start := by
  induction frames generalizing start out with
  | nil => simp [decodedFrames, dispatchedFrames]
  | cons f frames ih =>
    rw [decodedFrames, dispatchedFrames]
    by_cases hleft : f.leftError order serializers = .none
    · rw [if_pos hleft, if_pos hleft, ih, Frame.dispatched_note, List.append_assoc]
    · rw [if_neg hleft, if_neg hleft, List.append_nil, ← Frame.dispatched_note]
      split <;> rfl

/-- What is dispatched starts no earlier than the run. -/
theorem le_of_mem_dispatchedFrames (frames : List Frame) {start off : Nat} {packet : Packet}
    (h : (off, packet) ∈ dispatchedFrames serializers order frames start) : start ≤ off := by
  induction frames generalizing start with
  | nil => simp [dispatchedFrames] at h
  | cons f frames ih =>
    rw [dispatchedFrames, List.mem_append] at h
    rcases h with h | h
    · obtain ⟨_, -, heq⟩ := List.mem_map.1 h
      exact (congrArg Prod.fst heq).le
    · split at h
      · exact (Nat.le_add_right _ _).trans (ih h)
      · simp at h

/-- Which frame of a run is dispatched. -/
theorem mem_dispatchedFrames_iff (before after : List Frame) (f : Frame) (start : Nat)
    (packet : Packet) :
    (start + (framesBytes order before).length, packet) ∈
        dispatchedFrames serializers order (before ++ f :: after) start ↔
      (∀ g ∈ before, g.leftError order serializers = .none) ∧
        f.packet order serializers = some packet := by
  induction before generalizing start with
  | nil =>
    have hlater : (start, packet) ∉
        if f.leftError order serializers = .none then
          dispatchedFrames serializers order after (start + (f.bytes order).length)
        else [] := by
      split
      · intro hmem
        have := le_of_mem_dispatchedFrames serializers after hmem
        rw [Frame.length_bytes] at this
        omega
      · simp
    simp [dispatchedFrames, framesBytes, hlater]
  | cons g before ih =>
    have hpast : start + (framesBytes order (g :: before)).length =
        start + (g.bytes order).length + (framesBytes order before).length := by
      rw [framesBytes_cons, List.length_append]
      omega
    have hfirst : (start + (framesBytes order (g :: before)).length, packet) ∉
        (g.packet order serializers).toList.map (start, ·) := by
      intro hmem
      obtain ⟨_, -, heq⟩ := List.mem_map.1 hmem
      have hoff := congrArg Prod.fst heq
      simp only [framesBytes_cons, List.length_append, Frame.length_bytes] at hoff
      omega
    rw [List.cons_append, dispatchedFrames, List.mem_append, or_iff_right hfirst, hpast]
    by_cases hleft : g.leftError order serializers = .none
    · rw [if_pos hleft, ih]
      simp [hleft]
    · rw [if_neg hleft]
      simp [hleft]

/-- The whole of a payload that is a run of frames. -/
theorem deserialize_eq {b : Buffer} (hb : At b.data order (framesBytes order frames) .none b) :
    deserialize serializers b = decodedFrames serializers order frames b.readCursor {} := by
  rw [deserialize, deserializeLoop_eq serializers frames _ hb]
  rw [hb.readableBytes]
  exact length_le_framesBytes order frames

theorem deserialize_frames {b : Buffer} (hb : At b.data order (framesBytes order frames) .none b) :
    (deserialize serializers b).dispatched =
      dispatchedFrames serializers order frames b.readCursor := by
  rw [deserialize_eq serializers hb, dispatched_decodedFrames, List.nil_append]

/-- A payload that is one frame. -/
theorem deserialize_frame {f : Frame} {b : Buffer} (hb : At b.data order (f.bytes order) .none b) :
    deserialize serializers b = f.note order serializers b.readCursor {} := by
  have hone : framesBytes order [f] = f.bytes order := by simp [framesBytes]
  rw [← hone] at hb
  rw [deserialize_eq serializers hb, decodedFrames, decodedFrames]
  split <;> rfl

/-- A buffer that holds one frame. -/
theorem at_ofData (order : Endianness) (f : Frame) :
    At (Buffer.ofData (f.bytes order) order).data order (framesBytes order [f]) .none
      (Buffer.ofData (f.bytes order) order) := by
  refine ⟨rfl, rfl, rfl, ?_, ?_, rfl⟩ <;> simp [framesBytes, Buffer.ofData]

end Frames

/-! ## Serialized packets -/

/-- The frame of a packet. -/
def packetFrame (packetId : Nat) (body : List UInt8) (hbody : body.length < 2 ^ 32) : Frame where
  idBytes := Bytes.le (Bytes.significant 8 packetId) packetId
  body := body
  id_le := by
    rw [Bytes.length_le]
    exact Bytes.significant_le 8 packetId
  body_lt := hbody

/-- A writer that appends a body. -/
def Appends (writer : Buffer → Buffer) (body : List UInt8) : Prop :=
  ∀ (b : Buffer) (payload : List UInt8), Carries b payload →
    Carries (writer b) (payload ++ body) ∧ (writer b).readCursor = b.readCursor ∧
      (b.storage ≠ none → (writer b).storage ≠ none)

/-- **`Serialize`.**  A serializer that appends a body makes the packet's frame,
behind the headroom that was asked for. -/
theorem serialize_written {packetId headroom : Nat} {writer : Buffer → Buffer} {body : List UInt8}
    (hbody : body.length < 2 ^ 32) (hwriter : Appends writer body) :
    ∃ b, serialize packetId (fun b => .written (writer b)) headroom = some b ∧
      Roomy headroom b ((packetFrame packetId body hbody).bytes .littleEndian) := by
  refine ⟨_, rfl, ?_⟩
  dsimp only
  have hempty : Carries (if headroom ≠ 0 then Buffer.reserveHeadroom {} headroom else {}) [] ∧
      (if headroom ≠ 0 then Buffer.reserveHeadroom {} headroom else {}).readCursor = headroom := by
    split
    · exact ⟨Carries.headroom headroom, rfl⟩
    · next hzero =>
      obtain rfl : headroom = 0 := by simpa using hzero
      exact ⟨Carries.headroom 0, rfl⟩
  generalize (if headroom ≠ 0 then Buffer.reserveHeadroom {} headroom else {}) = b₀ at hempty
  obtain ⟨hb₀, hcursor₀⟩ := hempty
  have hb₁ := (hb₀.writeVarInt 8 packetId).writeNumber 4 0
  have hcursor₁ : ((b₀.writeVarInt 8 packetId).writeNumber 4 0).readCursor = headroom := by
    simp [Buffer.writeNumber, Buffer.writeVarInt, hcursor₀]
  have hstorage₁ : ((b₀.writeVarInt 8 packetId).writeNumber 4 0).storage ≠ none :=
    Buffer.storage_write _ _
  generalize (b₀.writeVarInt 8 packetId).writeNumber 4 0 = b₁ at hb₁ hcursor₁ hstorage₁
  obtain ⟨hb₂, hcursor₂, hstorage₂⟩ := hwriter b₁ _ hb₁
  rw [List.nil_append] at hb₁ hb₂
  have hlen₁ := hb₁.length_data
  have hlen₂ := hb₂.length_data
  rw [List.length_append] at hlen₁ hlen₂
  rw [List.length_append] at hlen₂
  generalize hid : (UInt8.ofNat (Bytes.significant 8 packetId) ::
    Bytes.le (Bytes.significant 8 packetId) packetId) = idPart at hb₂ hlen₁ hlen₂
  -- the placeholder stands right behind the id
  have hpos : b₁.data.length - 4 = (writer b₁).readCursor + idPart.length := by
    rw [hcursor₂, hlen₁, Bytes.length_le]
    omega
  have hsize : (writer b₁).data.length - b₁.data.length = body.length := by
    omega
  rw [hpos, hsize, hb₂.endianness]
  have hfilled := hb₂.backfill (show (Endianness.littleEndian.bytes 4 body.length).length =
    (Bytes.le 4 0).length by simp)
  refine ⟨?_, ?_, hstorage₂ hstorage₁⟩
  · have hframe : (packetFrame packetId body hbody).bytes .littleEndian =
        idPart ++ Endianness.littleEndian.bytes 4 body.length ++ body := by
      rw [← hid]
      simp [packetFrame, Frame.bytes]
    rw [hframe]
    exact hfilled
  · show headroom ≤ (writer b₁).readCursor
    omega

/-- **Frame isolation.**  In any payload that is a run of well-formed frames, a
frame that is dispatched when it is alone in a buffer is dispatched with the
same packet exactly when no serializer of a frame before it left an error in the
buffer: only the header of the next frame takes the error, and gives up on it. -/
theorem frame_dispatched_iff {Packet : Type} (serializers : Serializers Packet)
    (order : Endianness) (before after : List Frame) (f : Frame) (b : Buffer)
    (hb : At b.data order (framesBytes order (before ++ f :: after)) .none b) (packet : Packet)
    (halone : (deserialize serializers (Buffer.ofData (f.bytes order) order)).dispatched =
      [(0, packet)]) :
    (b.readCursor + (framesBytes order before).length, packet) ∈
        (deserialize serializers b).dispatched ↔
      ∀ g ∈ before, g.leftError order serializers = .none := by
  have hpacket : f.packet order serializers = some packet := by
    have hmem : (0 + (framesBytes order []).length, packet) ∈
        dispatchedFrames serializers order ([] ++ [f]) 0 := by
      have := deserialize_frames serializers (at_ofData order f)
      rw [halone] at this
      rw [List.nil_append]
      exact this ▸ List.mem_singleton_self _
    exact ((mem_dispatchedFrames_iff serializers [] [] f 0 packet).1 hmem).2
  rw [deserialize_frames serializers hb, mem_dispatchedFrames_iff, and_iff_left hpacket]

/-! ## A serializer that is refused by the fence -/

/-- Packet 7 is one byte; packet 8 is a number of four, null when the body is
shorter; packet 9 is refused unread. -/
def sampleSerializers : Serializers Nat
  | 7 => some ((Reading.readNumber 1).bind fun n => .done (some n))
  | 8 => some (.readable fun n => (Reading.readNumber 4).bind fun v =>
    .done (if n < 4 then none else some v))
  | 9 => some (.done none)
  | _ => none

/-- A frame with a one-byte id and a one-byte body. -/
def sampleFrame (id body : UInt8) : Frame := ⟨[id], [body], by simp, by simp⟩

/-- A refused frame in front does no harm when its serializer touches nothing. -/
theorem frame_dispatched_after_refused :
    (7, 5) ∈ (deserialize sampleSerializers (Buffer.ofData
      (framesBytes .littleEndian [sampleFrame 9 1, sampleFrame 7 5]))).dispatched :=
  (frame_dispatched_iff sampleSerializers .littleEndian [sampleFrame 9 1] [] (sampleFrame 7 5)
    (Buffer.ofData (framesBytes .littleEndian [sampleFrame 9 1, sampleFrame 7 5]))
    ⟨rfl, rfl, rfl, by decide, by decide, rfl⟩ 5 (by decide +kernel)).2 (by decide +kernel)

/-- Packet 8 with too short a body: its serializer returns null, and the good
frame behind it is lost. -/
theorem frame_lost_after_short_read :
    (deserialize sampleSerializers (Buffer.ofData
        ((sampleFrame 7 5).bytes .littleEndian))).dispatched = [(0, 5)] ∧
      (deserialize sampleSerializers (Buffer.ofData
        (framesBytes .littleEndian [sampleFrame 8 1, sampleFrame 7 5]))).dispatched = [] ∧
      (deserialize sampleSerializers (Buffer.ofData
        (framesBytes .littleEndian [sampleFrame 8 1, sampleFrame 7 5]))).stats =
        { invalidFrames := 2, framingLost := true } := by
  decide +kernel

end Znet

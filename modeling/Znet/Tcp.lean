import Znet.Buffer

/-!
# Framing over TCP

`TCPTransportLayer` (`tcp.cc`): a message goes out behind a two-byte length, and
a zero length announces a control frame of one byte.  The receiver appends what
`recv()` returns to one buffer of a fixed size and takes complete frames off its
front; a frame that is not complete yet is left where it is, and the consumed
front is reclaimed only when there is nothing to take.

* `framing_independent` — **however the stream is cut, the messages come out in
  order**, `recv()` always has room and the connection stays open.
-/

namespace Znet
namespace Tcp

/-- `ZNET_MAX_BUFFER_SIZE`. -/
def kMaxBufferSize : Nat := 4096

def kControlPing : Nat := 1
def kControlPong : Nat := 2

/-- The parts of `TCPTransportLayer` that carry the stream. -/
structure TcpTransport where
  recvBuffer : Buffer := Buffer.reserveExact { endianness := .bigEndian } kMaxBufferSize
  isClosed : Bool := false
  /-- History: the frames written to the socket. -/
  sent : List (List UInt8) := []
  /-- History: how much room each `recv()` was given. -/
  rooms : List Nat := []

namespace TcpTransport

/-! ## Sending -/

variable (t : TcpTransport)

/-- `WriteAll`, on a socket that takes everything: the readable region goes out. -/
def writeAll (b : Buffer) : TcpTransport :=
  { t with sent := t.sent ++ [b.readableData] }

/-- `SendControl`. -/
def sendControl (type : Nat) : TcpTransport :=
  if t.isClosed then t
  else
    let frame := Buffer.reserveExact {} 3
    t.writeAll (((frame.writeNumber 1 0).writeNumber 1 0).writeNumber 1 type)

/-- The size of the payloads `Send` takes. -/
def sendLimit : Nat := kMaxBufferSize - 48

/-- The two bytes of the length in front of the payload. -/
def frameInPlace (b : Buffer) (high low : UInt8) : Buffer :=
  ((b.prependInt8 low).2.prependInt8 high).2

/-- The length and the payload in a buffer of their own. -/
def frameCopied (b : Buffer) (payloadSize : Nat) (high low : UInt8) : Buffer :=
  let framed := Buffer.reserveExact {} (payloadSize + 2)
  ((framed.writeNumber 1 high.toNat).writeNumber 1 low.toNat).write b.readableData

/-- `Send`. -/
def send (b : Buffer) : Bool × TcpTransport :=
  if t.isClosed then (false, t)
  else
    let payloadSize := b.readableBytes
    if payloadSize = 0 then (false, t)
    else if sendLimit ≤ payloadSize + 2 ∨ 0xFFFF < payloadSize then (false, t)
    else
      let high := UInt8.ofNat (payloadSize >>> 8)
      let low := UInt8.ofNat (payloadSize &&& 0xFF)
      if 2 ≤ b.readCursor then (true, t.writeAll (frameInPlace b high low))
      else (true, t.writeAll (frameCopied b payloadSize high low))

/-! ## Receiving -/

/-- `HandleControl`. -/
def handleControl (type : Nat) : TcpTransport :=
  if type = kControlPing then t.sendControl kControlPong else t

/-- `ReadBuffer`: every pass but the last takes a control frame off the front. -/
def readBufferLoop : Nat → TcpTransport → Option (List UInt8) × TcpTransport
  | 0, t => (none, { t with recvBuffer := t.recvBuffer.compact })
  | fuel + 1, t =>
    if t.recvBuffer.readableBytes < 2 then (none, { t with recvBuffer := t.recvBuffer.compact })
    else
      let frameStart := t.recvBuffer.readCursor
      let (size, b) := (Reading.readNumber 2).run t.recvBuffer
      if b.capacity < size + 2 then (none, { t with isClosed := true, recvBuffer := b.reset })
      else
        let need := if size = 0 then 1 else size
        if b.readableBytes < need then
          -- the body is still in flight: rewind the prefix
          (none, { t with recvBuffer := (b.setReadCursor frameStart).compact })
        else if size = 0 then
          let (type, b) := (Reading.readNumber 1).run b
          readBufferLoop fuel ({ t with recvBuffer := b }.handleControl type)
        else
          (some ((b.data.drop b.readCursor).take size), { t with recvBuffer := b.skipRead size })

def readBuffer : Option (List UInt8) × TcpTransport :=
  readBufferLoop t.recvBuffer.readableBytes t

end TcpTransport

/-- What `recv()` returns. -/
inductive Received where
  | data (bytes : List UInt8)
  /-- Zero: the peer has closed, or there was no room. -/
  | zero
  | wouldBlock

/-- `SocketRecv` into some room while the kernel has `n` of the pending bytes
ready, with the bytes that are pending afterwards.  Without room it returns
zero. -/
def socketRecv (pending : List UInt8) (n room : Nat) : Received × List UInt8 :=
  if room = 0 then (.zero, pending)
  else if (pending.take (min n room)).isEmpty then (.wouldBlock, pending)
  else (.data (pending.take (min n room)), pending.drop (min n room))

/-- `Receive`. -/
def TcpTransport.receive (t : TcpTransport) (pending : List UInt8) (n : Nat) :
    Option (List UInt8) × TcpTransport × List UInt8 :=
  match t.readBuffer with
  | (some frame, t) => (some frame, t, pending)
  | (none, t) =>
    let room := t.recvBuffer.writableBytes
    let t := { t with rooms := t.rooms ++ [room] }
    match socketRecv pending n room with
    | (.zero, pending) => (none, { t with isClosed := true }, pending)
    | (.wouldBlock, pending) => (none, t, pending)
    | (.data bytes, pending) =>
      let (frame, t) := { t with recvBuffer := t.recvBuffer.commitWrite bytes }.readBuffer
      (frame, t, pending)

/-! ## A connection -/

/-- A receiver, the bytes the kernel still has for it, and what `Receive` has
returned so far. -/
structure Connection where
  transport : TcpTransport := {}
  pending : List UInt8
  results : List (List UInt8) := []

/-- One call of `Receive`, when the kernel has `n` bytes ready. -/
def Connection.receive (c : Connection) (n : Nat) : Connection :=
  let (result, t, pending) := c.transport.receive c.pending n
  { transport := t, pending := pending, results := c.results ++ result.toList }

/-- A run of calls. -/
def Connection.receiveAll (c : Connection) (ns : List Nat) : Connection :=
  ns.foldl Connection.receive c

/-! ## What goes onto the stream -/

/-- What a peer puts onto the stream between two frame boundaries. -/
inductive Item where
  | message (payload : List UInt8)
  | control (type : UInt8)

/-- The frame of a message. -/
def frameBytes (payload : List UInt8) : List UInt8 := Bytes.be 2 payload.length ++ payload

def Item.bytes : Item → List UInt8
  | .message payload => frameBytes payload
  | .control type => [0, 0, type]

/-- `Send` takes a payload of this size. -/
def Sendable (size : Nat) : Prop := size ≠ 0 ∧ size + 2 < TcpTransport.sendLimit ∧ size ≤ 0xFFFF

instance (size : Nat) : Decidable (Sendable size) := inferInstanceAs (Decidable (_ ∧ _ ∧ _))

def Item.Ok : Item → Prop
  | .message payload => Sendable payload.length
  | .control _ => True

instance (item : Item) : Decidable item.Ok := by
  cases item
  · exact inferInstanceAs (Decidable (Sendable _))
  · exact inferInstanceAs (Decidable True)

def streamBytes (items : List Item) : List UInt8 := items.flatMap Item.bytes

/-- The messages of a stream. -/
def payloads : List Item → List (List UInt8)
  | [] => []
  | .message payload :: items => payload :: payloads items
  | .control _ :: items => payloads items

/-! ## `Send` -/

variable {b : Buffer} {item : Item} {t : TcpTransport} {left : List UInt8} {items rest : List Item}
  {c : Connection}

/-- The frame written in place, in the headroom. -/
theorem readableData_frameInPlace (hroom : 2 ≤ b.readCursor) (hdata : b.storage ≠ none)
    (hwithin : b.Within) (high low : UInt8) :
    (TcpTransport.frameInPlace b high low).readableData = high :: low :: b.readableData := by
  obtain ⟨order, data, storage, cursor, limit, e, reached⟩ := b
  obtain ⟨cursor, rfl⟩ : ∃ n, cursor = n + 2 := ⟨cursor - 2, by simp at hroom; omega⟩
  have hfence : cursor + 2 ≤ data.length :=
    (show cursor + 2 ≤ Buffer.fence ⟨order, data, storage, cursor + 2, limit, e, reached⟩ from
      hwithin).trans (Buffer.fence_le _)
  have hone : Buffer.prependInt8 ⟨order, data, storage, cursor + 2, limit, e, reached⟩ low =
      (true, ⟨order, data.set (cursor + 1) low, storage, cursor + 1, limit, e, reached⟩) := by
    simp [Buffer.prependInt8, hdata]
  have htwo : Buffer.prependInt8
      ⟨order, data.set (cursor + 1) low, storage, cursor + 1, limit, e, reached⟩ high =
      (true, ⟨order, (data.set (cursor + 1) low).set cursor high, storage, cursor, limit, e,
        reached⟩) := by
    simp [Buffer.prependInt8, hdata]
  have hsame : Buffer.fence ⟨order, (data.set (cursor + 1) low).set cursor high, storage, cursor,
      limit, e, reached⟩ = Buffer.fence ⟨order, data, storage, cursor + 2, limit, e, reached⟩ := by
    simp [Buffer.fence]
  rw [TcpTransport.frameInPlace, hone, htwo]
  have hbytes : Buffer.readableBytes ⟨order, (data.set (cursor + 1) low).set cursor high, storage,
      cursor, limit, e, reached⟩ =
      Buffer.readableBytes ⟨order, data, storage, cursor + 2, limit, e, reached⟩ + 1 + 1 := by
    have := hwithin
    rw [Buffer.Within] at this
    rw [Buffer.readableBytes, Buffer.readableBytes, hsame]
    simp only at this ⊢
    omega
  have hdrop : ((data.set (cursor + 1) low).set cursor high).drop cursor =
      high :: low :: data.drop (cursor + 2) := by
    rw [List.drop_eq_getElem_cons (by simp; omega), List.drop_eq_getElem_cons (by simp; omega)]
    simp [List.drop_set]
  simp only [Buffer.readableData]
  rw [hbytes, hdrop, List.take_succ_cons, List.take_succ_cons]

/-- The two bytes of a length. -/
theorem be_two (n : Nat) :
    Bytes.be 2 n = [UInt8.ofNat (n >>> 8), UInt8.ofNat (n &&& 0xFF)] := by
  have hhigh : n >>> 8 = n / 256 := Nat.shiftRight_eq_div_pow n 8
  have hlow : n &&& 0xFF = n % 256 := Nat.and_two_pow_sub_one_eq_mod n 8
  have hmod : UInt8.ofNat (n % 256) = UInt8.ofNat n := by
    apply UInt8.toNat_inj.1
    simp
  rw [hhigh, hlow, hmod]
  rfl

/-- The frame written into a buffer of its own. -/
theorem readableData_frameCopied (b : Buffer) (payloadSize : Nat) (high low : UInt8) :
    (TcpTransport.frameCopied b payloadSize high low).readableData =
      high :: low :: b.readableData := by
  have hbyte : ∀ x : UInt8, Bytes.le 1 x.toNat = [x] := by
    intro x
    simp [Bytes.le]
  have hempty : Carries (Buffer.reserveExact {} (payloadSize + 2)) [] :=
    (Carries.headroom 0).reserveExact (payloadSize + 2)
  have hframed := ((hempty.writeNumber 1 high.toNat).writeNumber 1 low.toNat).write b.readableData
  rw [hbyte, hbyte] at hframed
  exact hframed.readableData

/-- **`Send`.**  A payload of a size it takes goes out as one frame, the same
one whether or not there is headroom to write it in place. -/
theorem send_eq (t : TcpTransport) (hopen : t.isClosed = false) (hwithin : b.Within)
    (hdata : b.storage ≠ none) (hsize : Sendable b.readableBytes) :
    t.send b = (true, { t with sent := t.sent ++ [frameBytes b.readableData] }) := by
  have hframe : frameBytes b.readableData = UInt8.ofNat (b.readableBytes >>> 8) ::
      UInt8.ofNat (b.readableBytes &&& 0xFF) :: b.readableData := by
    rw [frameBytes, Buffer.length_readableData, be_two]
    rfl
  obtain ⟨hne, hlt, hle⟩ := hsize
  unfold TcpTransport.send
  dsimp only
  rw [if_neg (by simp [hopen]), if_neg hne, if_neg (by omega)]
  split
  · next hroom =>
    rw [TcpTransport.writeAll, readableData_frameInPlace hroom hdata hwithin, hframe]
  · rw [TcpTransport.writeAll, readableData_frameCopied, hframe]

/-! ## The parser -/

/-- The receiver has these bytes in its buffer, still unread. -/
structure Fed (t : TcpTransport) (left : List UInt8) : Prop where
  stands : At t.recvBuffer.data .bigEndian left .none t.recvBuffer
  storage : t.recvBuffer.storage = some kMaxBufferSize
  fits : t.recvBuffer.data.length ≤ kMaxBufferSize
  isClosed : t.isClosed = false

/-- The length in front of an item, and what follows it. -/
def Item.size : Item → Nat
  | .message payload => payload.length
  | .control _ => 0

def Item.body : Item → List UInt8
  | .message payload => payload
  | .control type => [type]

theorem Item.bytes_eq (item : Item) : item.bytes = Bytes.be 2 item.size ++ item.body := by
  cases item with
  | message payload => rfl
  | control type =>
    have hzero : Bytes.be 2 0 = [0, 0] := by decide
    rw [Item.size, hzero]
    rfl

/-- The parser waits for exactly the body. -/
theorem Item.Ok.need (h : item.Ok) :
    (if item.size = 0 then 1 else item.size) = item.body.length := by
  cases item with
  | message payload => exact if_neg h.1
  | control type => rfl

/-- No item fills the buffer. -/
theorem Item.Ok.length_lt (h : item.Ok) :
    item.size + 2 < kMaxBufferSize ∧ item.bytes.length < kMaxBufferSize := by
  cases item with
  | message payload =>
    have hlt := h.2.1
    unfold TcpTransport.sendLimit kMaxBufferSize at hlt
    simp only [Item.size, Item.bytes, frameBytes, List.length_append, Bytes.length_be,
      kMaxBufferSize]
    omega
  | control type =>
    exact ⟨by simp [Item.size, kMaxBufferSize], by simp [Item.bytes, kMaxBufferSize]⟩

/-- Compacting keeps what is unread. -/
theorem Fed.compact (h : Fed t left) (hstorage : b.storage = some kMaxBufferSize)
    (hb : At t.recvBuffer.data .bigEndian left .none b) :
    Fed { t with recvBuffer := b.compact } left ∧ b.compact.data = left := by
  have hat := hb.compact
  have hdata := hat.data
  have hlen : left.length ≤ t.recvBuffer.data.length := by
    have := hb.cursor
    omega
  refine ⟨⟨?_, ?_, ?_, h.isClosed⟩, hdata⟩
  · show At b.compact.data _ _ _ _
    rw [hdata]
    exact hat
  · show b.compact.storage = some kMaxBufferSize
    unfold Buffer.compact
    split <;> exact hstorage
  · show b.compact.data.length ≤ kMaxBufferSize
    rw [hdata]
    exact hlen.trans h.fits

/-- The length of an item is read off the front. -/
theorem scan_size (item : Item) (hok : item.Ok) (rest : List UInt8) :
    (Reading.readNumber 2).scan .bigEndian ⟨Bytes.be 2 item.size ++ rest, .none⟩ =
      (item.size, ⟨rest, .none⟩) := by
  have hlt := hok.length_lt.1
  unfold kMaxBufferSize at hlt
  have := Reading.scan_readNumber .bigEndian 2 item.size rest .none
  rwa [Nat.mod_eq_of_lt (by omega)] at this

/-- The length of an item at the front is read, and found to fit the buffer. -/
theorem Fed.readSize (hok : item.Ok) {part : List UInt8}
    (h : Fed t (Bytes.be 2 item.size ++ part)) :
    ∃ b, (Reading.readNumber 2).run t.recvBuffer = (item.size, b) ∧
      At t.recvBuffer.data .bigEndian part .none b ∧ b.storage = some kMaxBufferSize ∧
      ¬ b.capacity < item.size + 2 := by
  obtain ⟨hsize, hat⟩ := h.stands.run (Reading.readNumber 2)
  have hstorage := h.stands.storage_run (Reading.readNumber 2)
  rw [scan_size item hok] at hsize hat
  rw [h.storage] at hstorage
  refine ⟨_, Prod.ext hsize rfl, hat, hstorage, ?_⟩
  rw [Buffer.capacity, hstorage, Option.getD_some]
  have := hok.length_lt.1
  omega

theorem Fed.handleControl (h : Fed t left) (type : Nat) :
    Fed (t.handleControl type) left ∧ (t.handleControl type).rooms = t.rooms := by
  unfold TcpTransport.handleControl TcpTransport.sendControl
  split
  · split
    · exact ⟨h, rfl⟩
    · exact ⟨{ h with }, rfl⟩
  · exact ⟨h, rfl⟩

/-- `ReadBuffer` found nothing: what it leaves is less than the next item, and
nothing else is in the buffer. -/
structure Waiting (items : List Item) (pending : List UInt8) (t t' : TcpTransport)
    (items' : List Item) (left : List UInt8) : Prop where
  fed : Fed t' left
  compacted : t'.recvBuffer.data = left
  stream : left ++ pending = streamBytes items'
  suffix : items' <:+ items
  same : payloads items' = payloads items
  room : left.length < kMaxBufferSize
  done : pending = [] → items' = []
  rooms : t'.rooms = t.rooms

/-- `ReadBuffer` found a message. -/
structure Taken (items : List Item) (pending : List UInt8) (t t' : TcpTransport)
    (payload : List UInt8) (items' : List Item) (left : List UInt8) : Prop where
  fed : Fed t' left
  stream : left ++ pending = streamBytes items'
  suffix : items' <:+ items
  next : payloads items = payload :: payloads items'
  rooms : t'.rooms = t.rooms

/-- An item that is not complete is left where it is. -/
theorem readBufferLoop_partial (hok : item.Ok) {missing : List UInt8}
    (hitem : item.bytes = left ++ missing) (hmissing : missing ≠ []) (h : Fed t left) (fuel : Nat) :
    ∃ t', TcpTransport.readBufferLoop fuel t = (none, t') ∧
      Waiting (item :: items) (missing ++ streamBytes items) t t' (item :: items) left := by
  have hshort : left.length < item.bytes.length := by
    rw [hitem, List.length_append]
    have := List.length_pos_iff.2 hmissing
    omega
  have hwaiting : ∀ b : Buffer, b.storage = some kMaxBufferSize →
      At t.recvBuffer.data .bigEndian left .none b →
      Waiting (item :: items) (missing ++ streamBytes items) t
        { t with recvBuffer := b.compact } (item :: items) left := by
    intro b hstorage hb
    obtain ⟨hfed, hdata⟩ := h.compact hstorage hb
    refine ⟨hfed, hdata, ?_, List.suffix_rfl, rfl, hshort.trans hok.length_lt.2, ?_, rfl⟩
    · rw [← List.append_assoc, ← hitem]
      rfl
    · intro hnil
      exact absurd (List.append_eq_nil_iff.1 hnil).1 hmissing
  have hreadable := h.stands.readableBytes
  cases fuel with
  | zero => exact ⟨_, rfl, hwaiting _ h.storage h.stands⟩
  | succ fuel =>
    rw [TcpTransport.readBufferLoop]
    by_cases htwo : t.recvBuffer.readableBytes < 2
    · rw [if_pos htwo]
      exact ⟨_, rfl, hwaiting _ h.storage h.stands⟩
    · rw [if_neg htwo]
      -- the length is complete, the body is not
      rw [Item.bytes_eq] at hitem
      obtain ⟨part, rfl, hbody⟩ : ∃ part, left = Bytes.be 2 item.size ++ part ∧
          item.body = part ++ missing := by
        rcases List.append_eq_append_iff.1 hitem with ⟨part, hleft, hbody⟩ | ⟨rest, hbe, -⟩
        · exact ⟨part, hleft, hbody⟩
        · have hlen := congrArg List.length hbe
          rw [Bytes.length_be, List.length_append] at hlen
          have : rest = [] := List.length_eq_zero_iff.1 (by omega)
          subst this
          refine ⟨[], by simpa using hbe.symm, ?_⟩
          rw [hbe] at hitem
          simpa using hitem
      obtain ⟨b, hsize, hat, hstorage, hcapacity⟩ := h.readSize hok
      have hneed : b.readableBytes < if item.size = 0 then 1 else item.size := by
        rw [hok.need, hat.readableBytes, hbody, List.length_append]
        have := List.length_pos_iff.2 hmissing
        omega
      simp only [hsize]
      rw [if_neg hcapacity, if_pos hneed]
      refine ⟨_, rfl, hwaiting _ hstorage ?_⟩
      exact { hat with cursor := h.stands.cursor, left := h.stands.left }

/-- A complete item is taken off the front: a message is handed up, and a
control frame is handled before the loop goes on. -/
theorem readBufferLoop_complete (hok : item.Ok) {rest : List UInt8} (h : Fed t (item.bytes ++ rest))
    (fuel : Nat) :
    ∃ t', Fed t' rest ∧ t'.rooms = t.rooms ∧
      TcpTransport.readBufferLoop (fuel + 1) t =
        match item with
        | .message payload => (some payload, t')
        | .control _ => TcpTransport.readBufferLoop fuel t' := by
  have hreadable := h.stands.readableBytes
  have hlong : ¬ t.recvBuffer.readableBytes < 2 := by
    rw [hreadable, Item.bytes_eq, List.length_append, List.length_append, Bytes.length_be]
    omega
  rw [Item.bytes_eq, List.append_assoc] at h
  obtain ⟨b, hsize, hat, hstorage, hcapacity⟩ := h.readSize hok
  rw [TcpTransport.readBufferLoop, if_neg hlong]
  have hneed : ¬ b.readableBytes < if item.size = 0 then 1 else item.size := by
    rw [hok.need, hat.readableBytes, List.length_append]
    omega
  -- the buffer after the body, with the same bytes and storage
  have hfed : ∀ b' : Buffer, b'.storage = b.storage →
      At t.recvBuffer.data .bigEndian rest .none b' →
      Fed { t with recvBuffer := b' } rest := by
    intro b' hstorage' hat'
    refine ⟨?_, ?_, ?_, h.isClosed⟩
    · show At b'.data _ _ _ _
      rw [hat'.data]
      exact hat'
    · exact hstorage'.trans hstorage
    · show b'.data.length ≤ _
      rw [hat'.data]
      exact h.fits
  simp only [hsize]
  rw [if_neg hcapacity, if_neg hneed]
  cases item with
  | message payload =>
    have hskip := hat.skipRead (show payload.length ≤ _ by simp [Item.body])
    simp only [Item.body, List.drop_left] at hskip
    refine ⟨_, hfed (b.skipRead payload.length) rfl hskip, rfl, ?_⟩
    have hbody : (b.data.drop b.readCursor).take payload.length = payload := by
      rw [hat.data, hat.left]
      exact List.take_left
    rw [if_neg (show (Item.message payload).size ≠ 0 from hok.1)]
    simp only [Item.size]
    rw [hbody]
  | control type =>
    obtain ⟨htype, hat'⟩ := hat.run (Reading.readNumber 1)
    have hstorage' := hat.storage_run (Reading.readNumber 1)
    have hscan : (Reading.readNumber 1).scan .bigEndian ⟨Item.body (.control type) ++ rest, .none⟩ =
        ((Reading.readNumber 1).scan .bigEndian ⟨Item.body (.control type) ++ rest, .none⟩ |>.1,
          ⟨rest, .none⟩) := by
      rw [Reading.scan_readNumber_of_le _ (by simp [Item.body])]
      rfl
    obtain ⟨hhandled, hrooms⟩ := (hfed _ hstorage' hat').handleControl
      ((Reading.readNumber 1).run b).1
    exact ⟨_, hhandled, hrooms, if_pos (show (Item.control type).size = 0 from rfl)⟩

/-- **`ReadBuffer`.**  Whatever part of the stream is in the buffer, the parser
hands up its next message, or leaves less than one item and room for more. -/
theorem readBufferLoop_spec (items : List Item) (hok : ∀ item ∈ items, item.Ok)
    (pending : List UInt8) {fuel : Nat} (h : Fed t left)
    (hstream : left ++ pending = streamBytes items) (hfuel : left.length ≤ fuel) :
    (∃ t' items' left', TcpTransport.readBufferLoop fuel t = (none, t') ∧
        Waiting items pending t t' items' left') ∨
      ∃ t' payload items' left', TcpTransport.readBufferLoop fuel t = (some payload, t') ∧
        Taken items pending t t' payload items' left' := by
  induction items generalizing fuel t left with
  | nil =>
    obtain ⟨rfl, rfl⟩ : left = [] ∧ pending = [] := List.append_eq_nil_iff.1 hstream
    obtain ⟨hfed, hdata⟩ := h.compact h.storage h.stands
    refine .inl ⟨_, [], [], ?_, hfed, hdata, rfl, List.suffix_rfl,
      rfl, by decide, fun _ => rfl, rfl⟩
    have hempty : t.recvBuffer.readableBytes < 2 := by
      rw [h.stands.readableBytes]
      decide
    cases fuel with
    | zero => rfl
    | succ fuel => rw [TcpTransport.readBufferLoop, if_pos hempty]
  | cons item items ih =>
    have hitem : item.Ok := hok item List.mem_cons_self
    have hbytes : streamBytes (item :: items) = item.bytes ++ streamBytes items := rfl
    rw [hbytes] at hstream
    by_cases hcomplete : item.bytes <+: left
    · obtain ⟨mid, rfl⟩ := hcomplete
      rw [List.append_assoc, List.append_right_inj] at hstream
      rw [List.length_append] at hfuel
      have hpos : 2 ≤ item.bytes.length := by
        rw [Item.bytes_eq, List.length_append, Bytes.length_be]
        omega
      obtain ⟨fuel, rfl⟩ : ∃ n, fuel = n + 1 := ⟨fuel - 1, by omega⟩
      obtain ⟨t', hfed, hrooms, hloop⟩ := readBufferLoop_complete hitem h fuel
      rw [hloop]
      cases item with
      | message payload =>
        exact .inr ⟨t', payload, items, mid, rfl, hfed, hstream, List.suffix_cons _ _, rfl,
          hrooms⟩
      | control type =>
        have hrest : ∀ item ∈ items, item.Ok := fun i hi => hok i (List.mem_cons_of_mem _ hi)
        have hless : mid.length ≤ fuel := by omega
        rcases ih hrest hfed hstream hless with
          ⟨t'', items', left', hrun, hw⟩ | ⟨t'', payload, items', left', hrun, ht⟩
        · exact .inl ⟨t'', items', left', hrun, hw.fed, hw.compacted, hw.stream,
            hw.suffix.trans (List.suffix_cons _ _), hw.same, hw.room, hw.done,
            hw.rooms.trans hrooms⟩
        · exact .inr ⟨t'', payload, items', left', hrun, ht.fed, ht.stream,
            ht.suffix.trans (List.suffix_cons _ _), ht.next, ht.rooms.trans hrooms⟩
    · rcases List.append_eq_append_iff.1 hstream with ⟨missing, hsplit, rfl⟩ | ⟨mid, rfl, -⟩
      · have hmissing : missing ≠ [] := by
          rintro rfl
          rw [List.append_nil] at hsplit
          exact hcomplete (hsplit ▸ List.prefix_rfl)
        obtain ⟨t', hrun, hw⟩ := readBufferLoop_partial hitem hsplit hmissing h fuel
        exact .inl ⟨t', _, _, hrun, hw⟩
      · exact absurd (List.prefix_append _ _) hcomplete

/-! ## Runs of `Receive` -/

/-- Where a receiver of a stream stands: what it has not handed up yet is in
its buffer and in the kernel. -/
structure Standing (items : List Item) (c : Connection) (rest : List Item) (left : List UInt8) :
    Prop where
  fed : Fed c.transport left
  stream : left ++ c.pending = streamBytes rest
  suffix : rest <:+ items
  results : c.results ++ payloads rest = payloads items
  rooms : ∀ room ∈ c.transport.rooms, 0 < room

/-- How much a run has still to do: every call with something to read takes a
message out of the buffer or a byte out of the kernel. -/
def todo (c : Connection) (rest : List Item) : Nat := c.pending.length + (payloads rest).length

/-- Bytes received after a search that found nothing stand behind what it left. -/
theorem Waiting.commitWrite {items' : List Item} {pending : List UInt8} {t' : TcpTransport}
    (h : Waiting items pending t t' items' left) {bytes : List UInt8}
    (hroom : bytes.length ≤ t'.recvBuffer.writableBytes) (rooms : List Nat) :
    Fed { t' with rooms := rooms, recvBuffer := t'.recvBuffer.commitWrite bytes }
      (left ++ bytes) := by
  have hstands := h.fed.stands
  have hcursor : t'.recvBuffer.readCursor = 0 := by
    have := hstands.cursor
    rw [h.compacted] at this
    omega
  have hfits : left.length + bytes.length ≤ kMaxBufferSize := by
    have := h.room
    rw [Buffer.writableBytes, h.fed.storage, h.compacted, Option.getD_some] at hroom
    omega
  refine ⟨{ hstands with data := rfl, cursor := ?_, left := ?_ }, h.fed.storage,
    ?_, h.fed.isClosed⟩
  · simp [Buffer.commitWrite, h.compacted, hcursor]
  · simp [Buffer.commitWrite, h.compacted, hcursor]
  · simpa [Buffer.commitWrite, h.compacted] using hfits

/-- One search of the buffer keeps the receiver on the stream: it hands up the
next message, or there is none to hand up yet. -/
theorem Standing.readBuffer (hok : ∀ item ∈ items, item.Ok) (h : Standing items c rest left) :
    ∃ frame t rest' left', c.transport.readBuffer = (frame, t) ∧
      Standing items { c with transport := t, results := c.results ++ frame.toList } rest' left' ∧
      (payloads rest').length + frame.toList.length = (payloads rest).length ∧
      (frame = none → Waiting rest c.pending c.transport t rest' left') := by
  have hrest : ∀ item ∈ rest, item.Ok := fun i hi => hok i (h.suffix.subset hi)
  have hfuel : left.length ≤ c.transport.recvBuffer.readableBytes := h.fed.stands.readableBytes.ge
  have hresults := h.results
  have hrooms := h.rooms
  rcases readBufferLoop_spec rest hrest c.pending h.fed h.stream hfuel with
    ⟨t, rest', left', hrun, hw⟩ | ⟨t, payload, rest', left', hrun, ht⟩
  · rw [← hw.same] at hresults
    rw [← hw.rooms] at hrooms
    refine ⟨none, t, rest', left', hrun, ⟨hw.fed, hw.stream, hw.suffix.trans h.suffix, ?_, hrooms⟩,
      congrArg List.length hw.same, fun _ => hw⟩
    rwa [Option.toList_none, List.append_nil]
  · rw [ht.next] at hresults
    rw [← ht.rooms] at hrooms
    refine ⟨some payload, t, rest', left', hrun,
      ⟨ht.fed, ht.stream, ht.suffix.trans h.suffix, ?_, hrooms⟩, ?_, nofun⟩
    · rwa [List.append_assoc]
    · rw [ht.next]
      rfl

/-- **One call of `Receive`.**  It keeps the receiver on the stream, gives
`recv()` room, and with something to read it gets on unless every message has
been handed up. -/
theorem Standing.receive (hok : ∀ item ∈ items, item.Ok)
    (h : Standing items c rest left) (n : Nat) :
    ∃ rest' left', Standing items (c.receive n) rest' left' ∧
      (0 < n → payloads rest' = [] ∨ todo (c.receive n) rest' < todo c rest) := by
  obtain ⟨frame, t, rest₁, left₁, hrun, h₁, hcount, hw⟩ := h.readBuffer hok
  cases frame with
  | none =>
    -- nothing in the buffer: `recv()` is asked, with room
    have hw := hw rfl
    rw [Option.toList_none, List.append_nil] at h₁
    have hroom : 0 < t.recvBuffer.writableBytes := by
      have := hw.room
      rw [Buffer.writableBytes, hw.fed.storage, hw.compacted, Option.getD_some]
      omega
    have hrooms : ∀ room ∈ t.rooms ++ [t.recvBuffer.writableBytes], 0 < room :=
      List.forall_mem_append.2 ⟨h₁.rooms, List.forall_mem_singleton.2 hroom⟩
    by_cases hnone : c.pending.take (min n t.recvBuffer.writableBytes) = []
    · -- the kernel has nothing: the call changes nothing else
      have hreceive : c.receive n =
          { c with transport := { t with rooms := t.rooms ++ [t.recvBuffer.writableBytes] } } := by
        simp [Connection.receive, TcpTransport.receive, hrun, socketRecv, hroom.ne', hnone]
      rw [hreceive]
      refine ⟨rest₁, left₁, ⟨{ hw.fed with },
        h₁.stream, h₁.suffix, h₁.results, hrooms⟩, fun hpos => .inl ?_⟩
      have hempty : c.pending = [] := by
        rcases List.take_eq_nil_iff.1 hnone with hzero | hnil
        · omega
        · exact hnil
      rw [hw.done hempty]
      rfl
    · -- some bytes arrive, and the buffer is searched again
      have hsplit := List.take_append_drop (min n t.recvBuffer.writableBytes) c.pending
      generalize hchunk : c.pending.take (min n t.recvBuffer.writableBytes) = chunk at hnone hsplit
      generalize hlater : c.pending.drop (min n t.recvBuffer.writableBytes) = later at hsplit
      have hfits : chunk.length ≤ t.recvBuffer.writableBytes := by
        rw [← hchunk, List.length_take]
        omega
      have hless : later.length < c.pending.length := by
        have := List.length_pos_iff.2 hnone
        rw [← hsplit, List.length_append]
        omega
      have h₂ : Standing items
          { transport := { t with rooms := t.rooms ++ [t.recvBuffer.writableBytes],
                                  recvBuffer := t.recvBuffer.commitWrite chunk },
            pending := later, results := c.results } rest₁ (left₁ ++ chunk) := by
        refine ⟨hw.commitWrite hfits _, ?_, h₁.suffix, h₁.results, hrooms⟩
        rw [List.append_assoc, hsplit]
        exact h₁.stream
      obtain ⟨frame, t', rest₃, left₃, hrun', h₃, hcount', -⟩ := h₂.readBuffer hok
      have hreceive : c.receive n = ⟨t', later, c.results ++ frame.toList⟩ := by
        simp [Connection.receive, TcpTransport.receive, hrun, socketRecv, hroom.ne', hchunk,
          hlater, hnone, hrun']
      rw [hreceive]
      refine ⟨rest₃, left₃, h₃, fun _ => .inr ?_⟩
      simp only [todo]
      omega
  | some payload =>
    -- a message was complete already
    have hreceive : c.receive n = ⟨t, c.pending, c.results ++ [payload]⟩ := by
      simp [Connection.receive, TcpTransport.receive, hrun]
    rw [hreceive]
    refine ⟨rest₁, left₁, h₁, fun _ => .inr ?_⟩
    rw [Option.toList_some, List.length_singleton] at hcount
    simp only [todo]
    omega

/-- What has been handed up stays handed up. -/
theorem results_receiveAll (c : Connection) (ns : List Nat) :
    c.results <+: (c.receiveAll ns).results := by
  induction ns generalizing c with
  | nil => exact List.prefix_rfl
  | cons n ns ih => exact (List.prefix_append _ _).trans (ih (c.receive n))

/-- A run of calls: when each finds something to read, it has got on with every
call, or every message has been handed up. -/
theorem Standing.receiveAll (hok : ∀ item ∈ items, item.Ok) (ns : List Nat)
    (h : Standing items c rest left) :
    ∃ rest' left', Standing items (c.receiveAll ns) rest' left' ∧
      ((∀ n ∈ ns, 0 < n) → payloads rest' = [] ∨
        todo (c.receiveAll ns) rest' + ns.length ≤ todo c rest) := by
  induction ns generalizing c rest left with
  | nil => exact ⟨rest, left, h, fun _ => .inr le_rfl⟩
  | cons n ns ih =>
    obtain ⟨rest₁, left₁, h₁, hstep⟩ := h.receive hok n
    obtain ⟨rest₂, left₂, h₂, hrun⟩ := ih h₁
    refine ⟨rest₂, left₂, h₂, fun hpos => ?_⟩
    have hlater := hrun fun m hm => hpos m (List.mem_cons_of_mem _ hm)
    rcases hstep (hpos n List.mem_cons_self) with hall | hless
    · -- every message was up already, and no call takes one back
      have htotal := (congrArg List.length h₁.results).trans (congrArg List.length h₂.results).symm
      have hgrown := (results_receiveAll (c.receive n) ns).length_le
      rw [hall, List.append_nil, List.length_append] at htotal
      exact .inl (List.length_eq_zero_iff.1 (by omega))
    · rcases hlater with hdone | hsteps
      · exact .inl hdone
      · refine .inr ?_
        simp only [Connection.receiveAll, List.foldl_cons, List.length_cons] at hsteps ⊢
        omega

/-! ## The contract of the framing -/

/-- A fresh receiver stands at the front of the stream. -/
theorem standing_start (items : List Item) :
    Standing items { pending := streamBytes items } items [] where
  fed := ⟨⟨rfl, rfl, rfl, rfl, rfl, rfl⟩, rfl, Nat.zero_le _, rfl⟩
  stream := rfl
  suffix := List.suffix_rfl
  results := rfl
  rooms := by simp

/-- A control frame of an open transport is an item of the stream. -/
theorem sent_sendControl (t : TcpTransport) (type : Nat) (hopen : t.isClosed = false) :
    (t.sendControl type).sent = t.sent ++ [(Item.control (UInt8.ofNat type)).bytes] := by
  have hzero : Bytes.le 1 0 = [0] := by decide
  have htype : Bytes.le 1 type = [UInt8.ofNat type] := by simp [Bytes.le]
  simp [TcpTransport.sendControl, hopen, TcpTransport.writeAll, Item.bytes, Buffer.readableData,
    Buffer.readableBytes, Buffer.fence, Buffer.reserveExact, Buffer.writeNumber, Buffer.write,
    Buffer.reserve, Endianness.bytes, hzero, htype]

/-- An open transport accepts exactly the payloads of a sendable size. -/
theorem send_accepts (t : TcpTransport) (b : Buffer) (hopen : t.isClosed = false) :
    (t.send b).1 = true ↔ Sendable b.readableBytes := by
  unfold TcpTransport.send Sendable
  dsimp only
  rw [if_neg (by simp [hopen])]
  split
  · next hzero => simp [hzero]
  · next hzero =>
    split
    · next hlarge =>
      simp only [Bool.false_eq_true, false_iff]
      omega
    · next hsmall =>
      have hsize : Sendable b.readableBytes := ⟨hzero, by omega, by omega⟩
      split <;> exact iff_of_true rfl hsize

/-- **Framing is independent of segmentation.**  Take any items a peer can put
onto the stream, and any run of `Receive` calls, each with any number of bytes
ready in the kernel.

* The results so far are the first payloads of the stream, in order, and they
  are all of them once the run has had a byte or a message for every call.
* Every `recv()` was given room, and the connection is open.
* What an open transport accepts is such an item, both ways of framing it
  write its bytes, and so does `SendControl` for a control frame. -/
theorem framing_independent (items : List Item) (hok : ∀ item ∈ items, item.Ok) (ns : List Nat) :
    ((Connection.receiveAll { pending := streamBytes items } ns).results <+: payloads items ∧
      ((∀ n ∈ ns, 0 < n) → (streamBytes items).length + (payloads items).length ≤ ns.length →
        (Connection.receiveAll { pending := streamBytes items } ns).results = payloads items)) ∧
    (∀ room ∈ (Connection.receiveAll { pending := streamBytes items } ns).transport.rooms,
      0 < room) ∧
    (Connection.receiveAll { pending := streamBytes items } ns).transport.isClosed = false ∧
    ∀ (t : TcpTransport) (b : Buffer), t.isClosed = false → b.Within → b.storage ≠ none →
      ((t.send b).1 = true ↔ (Item.message b.readableData).Ok) ∧
      ((t.send b).1 = true →
        (t.send b).2.sent = t.sent ++ [(Item.message b.readableData).bytes]) ∧
      (∀ high low, 2 ≤ b.readCursor →
        (TcpTransport.frameInPlace b high low).readableData =
          (TcpTransport.frameCopied b b.readableBytes high low).readableData) ∧
      ∀ type, (t.sendControl type).sent = t.sent ++ [(Item.control (UInt8.ofNat type)).bytes] := by
  obtain ⟨rest, left, h, hrun⟩ := (standing_start items).receiveAll hok ns
  refine ⟨⟨⟨payloads rest, h.results⟩, fun hpos hlong => ?_⟩, h.rooms, h.fed.isClosed, ?_⟩
  · have hall : payloads rest = [] := by
      rcases hrun hpos with hall | hless
      · exact hall
      · refine List.length_eq_zero_iff.1 ?_
        simp only [todo] at hless
        omega
    have := h.results
    rwa [hall, List.append_nil] at this
  · intro t b hopen hwithin hdata
    have haccepts : (t.send b).1 = true ↔ (Item.message b.readableData).Ok := by
      rw [send_accepts t b hopen]
      simp only [Item.Ok, Buffer.length_readableData]
    refine ⟨haccepts, fun hsent => ?_, fun high low hroom => ?_,
      fun type => sent_sendControl t type hopen⟩
    · rw [send_eq t hopen hwithin hdata ((send_accepts t b hopen).1 hsent)]
      rfl
    · rw [readableData_frameInPlace hroom hdata hwithin, readableData_frameCopied]

/-- A message, a ping and a message, read one and two bytes at a time. -/
theorem framing_independent_bytewise :
    (Connection.receiveAll
      { pending := streamBytes [.message [7, 8], .control 1, .message [9]] }
      [1, 2, 1, 1, 2, 1, 1, 1, 2, 1, 1, 1]).results = [[7, 8], [9]] :=
  (framing_independent [.message [7, 8], .control 1, .message [9]] (by decide)
    [1, 2, 1, 1, 2, 1, 1, 1, 2, 1, 1, 1]).1.2 (by decide) (by decide)

end Tcp
end Znet

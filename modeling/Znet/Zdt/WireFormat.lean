import Znet.Buffer
import Znet.Zdt.Wire

/-!
# The datagram format

`WriteZDTHeader`, `ReadZDTHeader`, `WriteZDTRecord`, `ReadZDTRecord`
(`zdt_wire.cc`) and the loop of `ProcessInbound` that takes a datagram apart.
Two optional fields change the layout, the connection id of a header and the
fragment pair of a record, and every length is checked against the bytes that
are left before it is believed.

* `parseDatagram_written` — **the round trip**: what was written comes back, with
  the fields the wire does not carry at their defaults.
* `parseDatagram_safe` — **any bytes**: the loop ends, no read is refused or goes
  past the end, and every payload lies inside the datagram.
-/

namespace Znet
namespace Zdt

/-! ## Writing -/

def writeZDTAckBlock (b : Buffer) (block : ZDTAckBlock) : Buffer :=
  (b.writeNumber 1 block.numAck.toNat).writeNumber 1 block.numNack.toNat

/-- `WriteZDTHeader`. -/
def writeZDTHeader (b : Buffer) (header : ZDTHeader) : Buffer :=
  let b := b.writeNumber 1 header.flags.toNat
  let b := if hasFlag header.flags kFlagHasCid then b.writeNumber 8 header.cid.toNat else b
  let b := b.writeNumber 2 header.packetSeq.toNat
  let b := b.writeNumber 2 header.ack.toNat
  let b := b.writeNumber 1 header.blocks.length
  header.blocks.foldl writeZDTAckBlock b

/-- `WriteZDTRecord`. -/
def writeZDTRecord (b : Buffer) (record : ZDTRecord) : Buffer :=
  let b := b.writeNumber 1 record.flags.toNat
  let b := b.writeNumber 1 record.channel.toNat
  let b := b.writeNumber 2 record.messageSeq.toNat
  let b := if hasFlag record.flags kRecFragment then
      (b.writeNumber 1 record.fragIndex.toNat).writeNumber 1 record.fragCount.toNat
    else b
  b.writeNumber 2 record.length.toNat

/-- A datagram: the header, then each record with its payload behind it. -/
def writeDatagram (b : Buffer) (header : ZDTHeader) (records : List (ZDTRecord × List UInt8)) :
    Buffer :=
  records.foldl (fun b r => (writeZDTRecord b r.1).write r.2) (writeZDTHeader b header)

/-! ## Reading -/

/-- The blocks of a header, as many as it announces. -/
def readZDTAckBlocks : Nat → Reading (List ZDTAckBlock)
  | 0 => pure []
  | count + 1 => do
      let numAck ← Reading.readNumber 1
      let numNack ← Reading.readNumber 1
      let blocks ← readZDTAckBlocks count
      pure (⟨BitVec.ofNat 8 numAck, BitVec.ofNat 8 numNack⟩ :: blocks)

/-- What follows the flags and the connection id. -/
def readZDTHeaderTail (flags : BitVec 8) (cid : BitVec 64) : Reading (Option ZDTHeader) := do
  let packetSeq ← Reading.readNumber 2
  let ack ← Reading.readNumber 2
  let count ← Reading.readNumber 1
  let left ← Reading.readableBytes
  if kZDTMaxAckBlocks < count ∨ left < count * kZDTAckBlockSize then pure none
  else
    let blocks ← readZDTAckBlocks count
    pure (some
      { flags, cid, packetSeq := BitVec.ofNat 16 packetSeq, ack := BitVec.ofNat 16 ack, blocks })

/-- `ReadZDTHeader`; `none` where it returns false. -/
def readZDTHeader : Reading (Option ZDTHeader) := do
  let left ← Reading.readableBytes
  if left < 1 then pure none
  else
    let flagsByte ← Reading.readNumber 1
    let flags := BitVec.ofNat 8 flagsByte
    if !hasFlag flags kFlagOnline then pure none
    else
      let cidSize := if hasFlag flags kFlagHasCid then kZDTCidSize else 0
      let left ← Reading.readableBytes
      if left < kZDTHeaderSize - 1 + cidSize then pure none
      else if cidSize ≠ 0 then
        let cid ← Reading.readNumber 8
        readZDTHeaderTail flags (BitVec.ofNat 64 cid)
      else readZDTHeaderTail flags 0

/-- The length of a record, checked against what is left. -/
def readZDTRecordTail (record : ZDTRecord) : Reading (Option ZDTRecord) := do
  let length ← Reading.readNumber 2
  let left ← Reading.readableBytes
  if left < length then pure none
  else pure (some { record with length := BitVec.ofNat 16 length })

/-- `ReadZDTRecord`; `none` where it returns false. -/
def readZDTRecord : Reading (Option ZDTRecord) := do
  let left ← Reading.readableBytes
  if left < kZDTRecordHeaderSize then pure none
  else
    let flags ← Reading.readNumber 1
    let channel ← Reading.readNumber 1
    let messageSeq ← Reading.readNumber 2
    let record : ZDTRecord :=
      { flags := BitVec.ofNat 8 flags, channel := BitVec.ofNat 8 channel
        messageSeq := BitVec.ofNat 16 messageSeq }
    if hasFlag record.flags kRecFragment then
      let left ← Reading.readableBytes
      if left < 4 then pure none
      else
        let fragIndex ← Reading.readNumber 1
        let fragCount ← Reading.readNumber 1
        readZDTRecordTail
          { record with
            fragIndex := BitVec.ofNat 8 fragIndex, fragCount := BitVec.ofNat 8 fragCount }
    else readZDTRecordTail { record with fragIndex := 0, fragCount := 1 }

/-- A record as the loop hands it on: its payload begins at an offset of the
datagram. -/
structure ParsedRecord where
  record : ZDTRecord
  start : Nat
  deriving DecidableEq, Repr

/-- The bytes of the payload. -/
def ParsedRecord.payload (datagram : List UInt8) (r : ParsedRecord) : List UInt8 :=
  (datagram.drop r.start).take r.record.length.toNat

/-- The loop of `ProcessInbound` over the records of a datagram. -/
def parseRecords : Nat → Buffer → List ParsedRecord × Buffer
  | 0, b => ([], b)
  | fuel + 1, b =>
    if b.readableBytes = 0 then ([], b)
    else
      match readZDTRecord.run b with
      | (none, b) => ([], b)
      | (some record, b) =>
        let rest := parseRecords fuel (b.skipRead record.length.toNat)
        ({ record, start := b.readCursor } :: rest.1, rest.2)

/-- Take a datagram apart, in at most the given number of rounds. -/
def parseWithin (fuel : Nat) (datagram : List UInt8) :
    Option (ZDTHeader × List ParsedRecord) × Buffer :=
  match readZDTHeader.run (Buffer.ofData datagram .bigEndian) with
  | (none, b) => (none, b)
  | (some header, b) =>
    let records := parseRecords fuel b
    (some (header, records.1), records.2)

/-- Take a datagram apart; every round takes a byte. -/
def parseDatagram (datagram : List UInt8) : Option (ZDTHeader × List ParsedRecord) × Buffer :=
  parseWithin datagram.length datagram

/-! ## What is written -/

variable (order : Endianness)

def ackBlockBytes (block : ZDTAckBlock) : List UInt8 :=
  order.bytes 1 block.numAck.toNat ++ order.bytes 1 block.numNack.toNat

/-- What follows the flags and the connection id. -/
def headerTailBytes (header : ZDTHeader) : List UInt8 :=
  order.bytes 2 header.packetSeq.toNat ++ (order.bytes 2 header.ack.toNat ++
    (order.bytes 1 header.blocks.length ++ header.blocks.flatMap (ackBlockBytes order)))

def headerBytes (header : ZDTHeader) : List UInt8 :=
  order.bytes 1 header.flags.toNat ++
    ((if hasFlag header.flags kFlagHasCid then order.bytes 8 header.cid.toNat else []) ++
      headerTailBytes order header)

def recordBytes (record : ZDTRecord) : List UInt8 :=
  order.bytes 1 record.flags.toNat ++ (order.bytes 1 record.channel.toNat ++
    (order.bytes 2 record.messageSeq.toNat ++
      ((if hasFlag record.flags kRecFragment then
          order.bytes 1 record.fragIndex.toNat ++ order.bytes 1 record.fragCount.toNat
        else []) ++ order.bytes 2 record.length.toNat)))

/-- The records of a datagram, each with its payload behind it. -/
def recordsBytes (records : List (ZDTRecord × List UInt8)) : List UInt8 :=
  records.flatMap fun r => recordBytes order r.1 ++ r.2

theorem data_writeZDTHeader (b : Buffer) (header : ZDTHeader) :
    (writeZDTHeader b header).data = b.data ++ headerBytes b.endianness header ∧
      (writeZDTHeader b header).endianness = b.endianness := by
  have hblocks : ∀ (blocks : List ZDTAckBlock) (b : Buffer),
      (blocks.foldl writeZDTAckBlock b).data =
          b.data ++ blocks.flatMap (ackBlockBytes b.endianness) ∧
        (blocks.foldl writeZDTAckBlock b).endianness = b.endianness := by
    intro blocks
    induction blocks with
    | nil => simp
    | cons block blocks ih =>
      intro b
      obtain ⟨hdata, horder⟩ := ih (writeZDTAckBlock b block)
      rw [List.foldl_cons, hdata, horder]
      simp [writeZDTAckBlock, ackBlockBytes]
  unfold writeZDTHeader headerBytes headerTailBytes
  dsimp only
  split <;> simp [(hblocks _ _).1, (hblocks _ _).2]

theorem data_writeZDTRecord (b : Buffer) (record : ZDTRecord) :
    (writeZDTRecord b record).data = b.data ++ recordBytes b.endianness record ∧
      (writeZDTRecord b record).endianness = b.endianness := by
  unfold writeZDTRecord recordBytes
  dsimp only
  split <;> simp

theorem data_writeDatagram (b : Buffer) (header : ZDTHeader)
    (records : List (ZDTRecord × List UInt8)) :
    (writeDatagram b header records).data =
      b.data ++ (headerBytes b.endianness header ++ recordsBytes b.endianness records) := by
  have hrecords : ∀ (records : List (ZDTRecord × List UInt8)) (b : Buffer),
      (records.foldl (fun b r => (writeZDTRecord b r.1).write r.2) b).data =
        b.data ++ recordsBytes b.endianness records := by
    intro records
    induction records with
    | nil => simp [recordsBytes]
    | cons r records ih =>
      intro b
      rw [List.foldl_cons, ih]
      simp [recordsBytes, (data_writeZDTRecord b r.1).1, (data_writeZDTRecord b r.1).2]
  rw [writeDatagram, hrecords, (data_writeZDTHeader b header).1, (data_writeZDTHeader b header).2,
    List.append_assoc]

/-! ## Reading back -/

/-- A header as it comes back: a connection id the flags do not announce is not
on the wire. -/
def ZDTHeader.onWire (header : ZDTHeader) : ZDTHeader :=
  if hasFlag header.flags kFlagHasCid then header else { header with cid := 0 }

/-- A record as it comes back: a fragment pair the flags do not announce is not
on the wire. -/
def ZDTRecord.onWire (record : ZDTRecord) : ZDTRecord :=
  if hasFlag record.flags kRecFragment then record
  else { record with fragIndex := 0, fragCount := 1 }

section RoundTrip

variable (order : Endianness)

/-- Reading back the fields of a header or a record. -/
theorem scan_readByte (x : BitVec 8) (rest : List UInt8) (e : BufferError) :
    (Reading.readNumber 1).scan order ⟨order.bytes 1 x.toNat ++ rest, e⟩ =
      (x.toNat, ⟨rest, e⟩) := by
  have hx : x.toNat < 256 ^ 1 := x.isLt
  rw [Reading.scan_readNumber, Nat.mod_eq_of_lt hx]

theorem scan_readSeq (x : BitVec 16) (rest : List UInt8) (e : BufferError) :
    (Reading.readNumber 2).scan order ⟨order.bytes 2 x.toNat ++ rest, e⟩ =
      (x.toNat, ⟨rest, e⟩) := by
  have hx : x.toNat < 256 ^ 2 := x.isLt
  rw [Reading.scan_readNumber, Nat.mod_eq_of_lt hx]

theorem scan_readCid (x : BitVec 64) (rest : List UInt8) (e : BufferError) :
    (Reading.readNumber 8).scan order ⟨order.bytes 8 x.toNat ++ rest, e⟩ =
      (x.toNat, ⟨rest, e⟩) := by
  have hx : x.toNat < 256 ^ 8 := x.isLt
  rw [Reading.scan_readNumber, Nat.mod_eq_of_lt hx]

variable (record : ZDTRecord) (blocks : List ZDTAckBlock) (rest : List UInt8)

theorem scan_readZDTAckBlocks (e : BufferError) : (readZDTAckBlocks blocks.length).scan order
        ⟨blocks.flatMap (ackBlockBytes order) ++ rest, e⟩ = (blocks, ⟨rest, e⟩) := by
  induction blocks with
  | nil => rfl
  | cons block blocks ih =>
    simp only [List.length_cons, readZDTAckBlocks, List.flatMap_cons, ackBlockBytes,
      List.append_assoc, Reading.scan_bind', Reading.scan_pure, scan_readByte, ih,
      BitVec.ofNat_toNat, BitVec.setWidth_eq]

theorem length_flatMap_ackBlockBytes :
    (blocks.flatMap (ackBlockBytes order)).length = blocks.length * kZDTAckBlockSize := by
  induction blocks with
  | nil => rfl
  | cons block blocks ih =>
    simp only [List.flatMap_cons, List.length_append, ih, ackBlockBytes, Endianness.length_bytes,
      List.length_cons, kZDTAckBlockSize]
    omega

theorem scan_readZDTHeaderTail (header : ZDTHeader) (cid : BitVec 64)
    (hblocks : header.blocks.length ≤ kZDTMaxAckBlocks) (rest : List UInt8) (e : BufferError) :
    (readZDTHeaderTail header.flags cid).scan order ⟨headerTailBytes order header ++ rest, e⟩ =
      (some { header with cid := cid }, ⟨rest, e⟩) := by
  have hcount : ∀ rest, (Reading.readNumber 1).scan order
      ⟨order.bytes 1 header.blocks.length ++ rest, e⟩ = (header.blocks.length, ⟨rest, e⟩) := by
    intro rest
    unfold kZDTMaxAckBlocks at hblocks
    rw [Reading.scan_readNumber, Nat.mod_eq_of_lt (by omega)]
  have hroom : ¬ (kZDTMaxAckBlocks < header.blocks.length ∨
      (header.blocks.flatMap (ackBlockBytes order) ++ rest).length <
        header.blocks.length * kZDTAckBlockSize) := by
    rw [List.length_append, length_flatMap_ackBlockBytes]
    omega
  simp only [readZDTHeaderTail, headerTailBytes, List.append_assoc, Reading.scan_bind',
    scan_readSeq, hcount, Reading.scan_readableBytes, hroom, if_false,
    scan_readZDTAckBlocks, Reading.scan_pure, BitVec.ofNat_toNat, BitVec.setWidth_eq]

/-- `ReadZDTHeader` on what `WriteZDTHeader` wrote. -/
theorem scan_readZDTHeader (header : ZDTHeader) (honline : hasFlag header.flags kFlagOnline = true)
    (hblocks : header.blocks.length ≤ kZDTMaxAckBlocks) (rest : List UInt8) (e : BufferError) :
    readZDTHeader.scan order ⟨headerBytes order header ++ rest, e⟩ =
      (some header.onWire, ⟨rest, e⟩) := by
  have hfirst : ¬ (headerBytes order header ++ rest).length < 1 := by
    simp only [headerBytes, List.length_append, Endianness.length_bytes]
    omega
  have htail : (headerTailBytes order header).length = 5 + header.blocks.length * 2 := by
    simp only [headerTailBytes, List.length_append, Endianness.length_bytes,
      length_flatMap_ackBlockBytes, kZDTAckBlockSize]
    omega
  simp only [readZDTHeader, Reading.scan_bind', Reading.scan_readableBytes, hfirst, if_false]
  simp only [headerBytes, List.append_assoc, scan_readByte, BitVec.ofNat_toNat, BitVec.setWidth_eq,
    honline, Bool.not_true, Bool.false_eq_true,
    if_false, Reading.scan_bind', Reading.scan_readableBytes]
  by_cases hcid : hasFlag header.flags kFlagHasCid = true
  · have hlong : ¬ (order.bytes 8 header.cid.toNat ++
        (headerTailBytes order header ++ rest)).length < kZDTHeaderSize - 1 + kZDTCidSize := by
      simp only [List.length_append, Endianness.length_bytes, htail, kZDTHeaderSize, kZDTCidSize]
      omega
    have hsize : kZDTCidSize ≠ 0 := by decide
    simp only [hcid, if_true, hlong, if_false, hsize, ne_eq, not_false_eq_true, Reading.scan_bind',
      scan_readCid, BitVec.ofNat_toNat, BitVec.setWidth_eq]
    rw [scan_readZDTHeaderTail order header header.cid hblocks, ZDTHeader.onWire, if_pos hcid]
  · have hlong : ¬ (headerTailBytes order header ++ rest).length < kZDTHeaderSize - 1 + 0 := by
      simp only [List.length_append, htail, kZDTHeaderSize]
      omega
    simp only [hcid, Bool.false_eq_true, if_false, hlong, ne_eq, not_true_eq_false, List.nil_append]
    rw [scan_readZDTHeaderTail order header 0 hblocks, ZDTHeader.onWire, if_neg hcid]

theorem scan_readZDTRecordTail (length : BitVec 16) (rest : List UInt8)
    (hlen : length.toNat ≤ rest.length) (e : BufferError) :
    (readZDTRecordTail record).scan order ⟨order.bytes 2 length.toNat ++ rest, e⟩ =
      (some { record with length := length }, ⟨rest, e⟩) := by
  have hroom : ¬ rest.length < length.toNat := Nat.not_lt.2 hlen
  simp only [readZDTRecordTail, Reading.scan_bind', scan_readSeq, Reading.scan_readableBytes, hroom,
    if_false, Reading.scan_pure, BitVec.ofNat_toNat, BitVec.setWidth_eq]

/-- `ReadZDTRecord` on what `WriteZDTRecord` wrote. -/
theorem scan_readZDTRecord (hlen : record.length.toNat ≤ rest.length) (e : BufferError) :
    readZDTRecord.scan order ⟨recordBytes order record ++ rest, e⟩ =
      (some record.onWire, ⟨rest, e⟩) := by
  have hfirst : ¬ (recordBytes order record ++ rest).length < kZDTRecordHeaderSize := by
    simp only [recordBytes, List.length_append, Endianness.length_bytes, kZDTRecordHeaderSize]
    omega
  simp only [readZDTRecord, Reading.scan_bind', Reading.scan_readableBytes, hfirst, if_false]
  simp only [recordBytes, List.append_assoc, scan_readByte, scan_readSeq, BitVec.ofNat_toNat,
    BitVec.setWidth_eq]
  by_cases hfrag : hasFlag record.flags kRecFragment = true
  · have hpair : ¬ (order.bytes 1 record.fragIndex.toNat ++ (order.bytes 1 record.fragCount.toNat ++
        (order.bytes 2 record.length.toNat ++ rest))).length < 4 := by
      simp only [List.length_append, Endianness.length_bytes]
      omega
    simp only [hfrag, if_true, Reading.scan_bind', Reading.scan_readableBytes, List.append_assoc,
      hpair, if_false, scan_readByte, BitVec.ofNat_toNat, BitVec.setWidth_eq,
      scan_readZDTRecordTail order _ record.length rest hlen]
    rw [ZDTRecord.onWire, if_pos hfrag]
  · simp only [hfrag, Bool.false_eq_true, if_false, List.nil_append,
      scan_readZDTRecordTail order _ record.length rest hlen]
    rw [ZDTRecord.onWire, if_neg hfrag]

theorem ZDTRecord.length_onWire : record.onWire.length = record.length := by
  unfold ZDTRecord.onWire
  split <;> rfl

/-- The loop gives back the records that were written, with their payloads. -/
theorem parseRecords_written (records : List (ZDTRecord × List UInt8))
    (hlen : ∀ r ∈ records, r.2.length = r.1.length.toNat) {whole : List UInt8} {e : BufferError}
    {b : Buffer} (h : At whole order (recordsBytes order records) e b) {fuel : Nat}
    (hfuel : records.length ≤ fuel) :
    (parseRecords fuel b).1.map (fun r => (r.record, r.payload whole)) =
      records.map fun r => (r.1.onWire, r.2) := by
  induction records generalizing b fuel with
  | nil =>
    have hempty : b.readableBytes = 0 := h.readableBytes
    cases fuel with
    | zero => rfl
    | succ fuel => simp [parseRecords, hempty]
  | cons r records ih =>
    obtain ⟨fuel, rfl⟩ : ∃ n, fuel = n + 1 := ⟨fuel - 1, by simp at hfuel; omega⟩
    obtain ⟨record, payload⟩ := r
    have hpayload : payload.length = record.length.toNat := hlen (record, payload) (by simp)
    have hbytes : recordsBytes order ((record, payload) :: records) =
        recordBytes order record ++ (payload ++ recordsBytes order records) := by
      simp [recordsBytes]
    rw [hbytes] at h
    have hsome : b.readableBytes ≠ 0 := by
      rw [h.readableBytes, recordBytes]
      simp only [List.length_append, Endianness.length_bytes]
      omega
    obtain ⟨hread, hat⟩ := h.run readZDTRecord
    rw [scan_readZDTRecord order record _ (by simp; omega)] at hread hat
    generalize hrun : readZDTRecord.run b = result at hread hat
    obtain ⟨result, b'⟩ := result
    simp only at hread hat
    subst hread
    have hrest := hat.skip (b'.skipRead record.length.toNat) rfl rfl hat.readLimit
      (by rw [hpayload]; rfl)
    have hslice : ((whole.drop b'.readCursor).take record.length.toNat) = payload := by
      rw [hat.left, ← hpayload, List.take_left]
    rw [parseRecords, if_neg hsome, hrun]
    simp only [List.map_cons, ParsedRecord.payload, ZDTRecord.length_onWire, hslice]
    rw [show (b'.skipRead record.length.toNat).lastError = e from hat.lastError] at hrest
    rw [← ih (fun r hr => hlen r (List.mem_cons_of_mem _ hr)) hrest (by simpa using hfuel)]
    rfl

end RoundTrip

/-! ## Any bytes -/

section Safe

variable {order : Endianness}

/-- `ReadZDTRecord` never reads what is not there, and the payload it announces
is. -/
structure RecordRead (v : Reading.View) (result : Option ZDTRecord × Reading.View) : Prop where
  lastError : result.2.lastError = v.lastError
  fits : ∀ record ∈ result.1, record.length.toNat ≤ result.2.left.length
  shorter : result.1.isSome → result.2.left.length < v.left.length

variable {left whole : List UInt8} {e : BufferError} {b : Buffer}

theorem readZDTRecordTail_spec (record : ZDTRecord) (e : BufferError) (hleft : 2 ≤ left.length) :
    RecordRead ⟨left, e⟩ ((readZDTRecordTail record).scan order ⟨left, e⟩) := by
  have hlt : order.number (left.take 2) < 2 ^ 16 := by
    have := order.number_lt (left.take 2)
    rwa [List.length_take, Nat.min_eq_left hleft] at this
  simp only [readZDTRecordTail, Reading.scan_bind', Reading.scan_readNumber_of_le order hleft,
    Reading.scan_readableBytes]
  by_cases hroom : (left.drop 2).length < order.number (left.take 2)
  · simp only [hroom, if_true, Reading.scan_pure]
    exact ⟨rfl, by simp, by simp⟩
  · simp only [hroom, if_false, Reading.scan_pure]
    refine ⟨rfl, ?_, ?_⟩
    · intro record hrecord
      simp only [Option.mem_def, Option.some.injEq] at hrecord
      subst hrecord
      simp only [BitVec.toNat_ofNat]
      omega
    · intro _
      simp only [List.length_drop]
      omega

theorem readZDTRecord_spec (left : List UInt8) (e : BufferError) :
    RecordRead ⟨left, e⟩ (readZDTRecord.scan order ⟨left, e⟩) := by
  by_cases hfirst : left.length < kZDTRecordHeaderSize
  · simp only [readZDTRecord, Reading.scan_bind', Reading.scan_readableBytes, hfirst, if_true,
      Reading.scan_pure]
    exact ⟨rfl, by simp, by simp⟩
  · unfold kZDTRecordHeaderSize at hfirst
    have h₁ : 1 ≤ left.length := by omega
    have h₂ : 1 ≤ (left.drop 1).length := by rw [List.length_drop]; omega
    have h₃ : 2 ≤ ((left.drop 1).drop 1).length := by simp only [List.length_drop]; omega
    have h₄ : 2 ≤ (((left.drop 1).drop 1).drop 2).length := by simp only [List.length_drop]; omega
    -- whatever the tail finds, it finds behind the four bytes read so far
    have hlater : ∀ {left' : List UInt8} {result}, left'.length ≤ left.length →
        RecordRead ⟨left', e⟩ result → RecordRead ⟨left, e⟩ result := by
      intro left' result hle hread
      exact { hread with shorter := fun hsome => (hread.shorter hsome).trans_le hle }
    simp only [readZDTRecord, Reading.scan_bind', Reading.scan_readableBytes, kZDTRecordHeaderSize,
      hfirst, if_false, Reading.scan_readNumber_of_le order h₁,
      Reading.scan_readNumber_of_le order h₂, Reading.scan_readNumber_of_le order h₃]
    split
    · simp only [Reading.scan_bind', Reading.scan_readableBytes]
      by_cases hpair : (((left.drop 1).drop 1).drop 2).length < 4
      · simp only [hpair, if_true, Reading.scan_pure]
        exact ⟨rfl, by simp, by simp⟩
      · have h₅ : 1 ≤ (((left.drop 1).drop 1).drop 2).length := by omega
        have h₆ : 1 ≤ ((((left.drop 1).drop 1).drop 2).drop 1).length := by
          rw [List.length_drop]
          omega
        simp only [hpair, if_false, Reading.scan_bind', Reading.scan_readNumber_of_le order h₅,
          Reading.scan_readNumber_of_le order h₆]
        refine hlater ?_ (readZDTRecordTail_spec _ e ?_)
        · simp only [List.length_drop]
          omega
        · simp only [List.length_drop] at hpair ⊢
          omega
    · refine hlater ?_ (readZDTRecordTail_spec _ e h₄)
      simp only [List.length_drop]
      omega

/-- One round of the loop: it ends, or a record is taken and fewer bytes are left. -/
theorem parseRecords_round (h : At whole order left e b) (hreached : b.reached ≤ whole.length) :
    (∃ b', (∀ fuel, parseRecords (fuel + 1) b = ([], b')) ∧
        b'.reached ≤ whole.length ∧ b'.lastError = e) ∨
      ∃ r b' left', (∀ fuel, parseRecords (fuel + 1) b =
          (r :: (parseRecords fuel b').1, (parseRecords fuel b').2)) ∧
        r.start + r.record.length.toNat ≤ whole.length ∧ left'.length < left.length ∧
        At whole order left' e b' ∧ b'.reached ≤ whole.length := by
  by_cases hempty : b.readableBytes = 0
  · exact .inl ⟨b, fun fuel => by rw [parseRecords, if_pos hempty], hreached, h.lastError⟩
  · obtain ⟨hread, hat⟩ := h.run readZDTRecord
    have hspec := @readZDTRecord_spec order left e
    have hreached' := h.reached_run hreached readZDTRecord
    generalize readZDTRecord.scan order ⟨left, e⟩ = found at hread hat hspec
    generalize hrun : readZDTRecord.run b = result at hread hat hreached'
    obtain ⟨found, v⟩ := found
    obtain ⟨result, b'⟩ := result
    simp only at hread hat hreached'
    subst hread
    have herror : v.lastError = e := hspec.lastError
    cases result with
    | none =>
      refine .inl ⟨b', fun fuel => ?_, hreached', hat.lastError.trans herror⟩
      rw [parseRecords, if_neg hempty, hrun]
    | some record =>
      have hfits : record.length.toNat ≤ v.left.length := hspec.fits record rfl
      have hshorter : v.left.length < left.length := hspec.shorter rfl
      have hcursor := hat.cursor
      refine .inr ⟨⟨record, b'.readCursor⟩, b'.skipRead record.length.toNat,
        v.left.drop record.length.toNat, fun fuel => ?_, ?_, ?_, ?_, hreached'⟩
      · rw [parseRecords, if_neg hempty, hrun]
      · show b'.readCursor + record.length.toNat ≤ whole.length
        omega
      · rw [List.length_drop]
        omega
      · rw [← herror]
        exact hat.skipRead hfits

/-- **The loop on any bytes.** -/
theorem parseRecords_safe (fuel : Nat) (h : At whole order left e b)
    (hreached : b.reached ≤ whole.length) :
    (∀ r ∈ (parseRecords fuel b).1, r.start + r.record.length.toNat ≤ whole.length) ∧
      (parseRecords fuel b).2.reached ≤ whole.length ∧ (parseRecords fuel b).2.lastError = e := by
  induction fuel generalizing b left with
  | zero => exact ⟨by simp [parseRecords], hreached, h.lastError⟩
  | succ fuel ih =>
    rcases parseRecords_round h hreached with
      ⟨b', hend, hreached', herror⟩ | ⟨r, b', left', hstep, hinside, -, hat, hreached'⟩
    · rw [hend]
      exact ⟨by simp, hreached', herror⟩
    · obtain ⟨hslices, hreached'', herror⟩ := ih hat hreached'
      rw [hstep]
      refine ⟨?_, hreached'', herror⟩
      intro r' hr'
      rcases List.mem_cons.1 hr' with rfl | hr'
      · exact hinside
      · exact hslices r' hr'

/-- As many rounds as there are bytes are enough. -/
theorem parseRecords_enough (fuel fuel' : Nat) (h : At whole order left e b)
    (hreached : b.reached ≤ whole.length) (hfuel : left.length ≤ fuel)
    (hfuel' : left.length ≤ fuel') :
    parseRecords fuel b = parseRecords fuel' b := by
  induction fuel generalizing b left fuel' with
  | zero =>
    have hempty : b.readableBytes = 0 := by
      rw [h.readableBytes]
      omega
    cases fuel' with
    | zero => rfl
    | succ fuel' => rw [parseRecords, parseRecords, if_pos hempty]
  | succ fuel ih =>
    cases fuel' with
    | zero =>
      have hempty : b.readableBytes = 0 := by
        rw [h.readableBytes]
        omega
      rw [parseRecords, parseRecords, if_pos hempty]
    | succ fuel' =>
      rcases parseRecords_round h hreached with
        ⟨b', hend, -, -⟩ | ⟨r, b', left', hstep, -, hshorter, hat, hreached'⟩
      · rw [hend, hend]
      · rw [hstep, hstep, ih fuel' hat hreached' (by omega) (by omega)]

/-! ## The header of any bytes -/

theorem readZDTAckBlocks_spec (count : Nat) (e : BufferError)
    (hleft : count * kZDTAckBlockSize ≤ left.length) :
    ((readZDTAckBlocks count).scan order ⟨left, e⟩).2.lastError = e := by
  induction count generalizing left with
  | zero => rfl
  | succ count ih =>
    unfold kZDTAckBlockSize at hleft ih
    have h₁ : 1 ≤ left.length := by omega
    have h₂ : 1 ≤ (left.drop 1).length := by rw [List.length_drop]; omega
    simp only [readZDTAckBlocks, Reading.scan_bind', Reading.scan_readNumber_of_le order h₁,
      Reading.scan_readNumber_of_le order h₂, Reading.scan_pure]
    refine ih ?_
    simp only [List.length_drop]
    omega

theorem readZDTHeaderTail_spec (flags : BitVec 8) (cid : BitVec 64) (e : BufferError)
    (hleft : 5 ≤ left.length) :
    ((readZDTHeaderTail flags cid).scan order ⟨left, e⟩).2.lastError = e := by
  have h₁ : 2 ≤ left.length := by omega
  have h₂ : 2 ≤ (left.drop 2).length := by rw [List.length_drop]; omega
  have h₃ : 1 ≤ ((left.drop 2).drop 2).length := by simp only [List.length_drop]; omega
  simp only [readZDTHeaderTail, Reading.scan_bind', Reading.scan_readNumber_of_le order h₁,
    Reading.scan_readNumber_of_le order h₂, Reading.scan_readNumber_of_le order h₃,
    Reading.scan_readableBytes]
  by_cases hcount : kZDTMaxAckBlocks < order.number (((left.drop 2).drop 2).take 1) ∨
      (((left.drop 2).drop 2).drop 1).length <
        order.number (((left.drop 2).drop 2).take 1) * kZDTAckBlockSize
  · simp only [hcount, if_true, Reading.scan_pure]
  · simp only [hcount, if_false, Reading.scan_bind', Reading.scan_pure]
    exact readZDTAckBlocks_spec _ e (Nat.not_lt.1 (not_or.1 hcount).2)

/-- `ReadZDTHeader` never reads what is not there. -/
theorem readZDTHeader_spec (left : List UInt8) (e : BufferError) :
    (readZDTHeader.scan order ⟨left, e⟩).2.lastError = e := by
  by_cases hfirst : left.length < 1
  · simp only [readZDTHeader, Reading.scan_bind', Reading.scan_readableBytes, hfirst, if_true,
      Reading.scan_pure]
  · have h₁ : 1 ≤ left.length := by omega
    simp only [readZDTHeader, Reading.scan_bind', Reading.scan_readableBytes, hfirst, if_false,
      Reading.scan_readNumber_of_le order h₁]
    split
    · rfl
    · simp only [Reading.scan_bind', Reading.scan_readableBytes]
      by_cases hcid : hasFlag (BitVec.ofNat 8 (order.number (left.take 1))) kFlagHasCid = true
      · by_cases hlong : (left.drop 1).length < kZDTHeaderSize - 1 + kZDTCidSize
        · simp only [hcid, if_true, hlong, Reading.scan_pure]
        · have hsize : kZDTCidSize ≠ 0 := by decide
          have h₂ : 8 ≤ (left.drop 1).length := by
            unfold kZDTHeaderSize kZDTCidSize at hlong
            omega
          simp only [hcid, if_true, hlong, if_false, hsize, ne_eq, not_false_eq_true,
            Reading.scan_bind', Reading.scan_readNumber_of_le order h₂]
          refine readZDTHeaderTail_spec _ _ e ?_
          unfold kZDTHeaderSize kZDTCidSize at hlong
          simp only [List.length_drop] at hlong ⊢
          omega
      · by_cases hlong : (left.drop 1).length < kZDTHeaderSize - 1 + 0
        · simp only [hcid, Bool.false_eq_true, if_false, hlong, if_true, Reading.scan_pure]
        · simp only [hcid, Bool.false_eq_true, if_false, hlong, ne_eq, not_true_eq_false]
          refine readZDTHeaderTail_spec _ _ e ?_
          unfold kZDTHeaderSize at hlong
          simp only [List.length_drop] at hlong ⊢
          omega

end Safe

/-! ## Whole datagrams -/

variable (datagram : List UInt8)

theorem at_datagram :
    At datagram .bigEndian datagram .none (Buffer.ofData datagram .bigEndian) := by
  refine ⟨rfl, rfl, rfl, ?_, ?_, rfl⟩ <;> simp [Buffer.ofData]

/-- What taking a datagram apart does, whatever its bytes are. -/
structure SafeParse (datagram : List UInt8) : Prop where
  /-- It ends: more rounds change nothing. -/
  ends : ∀ fuel, datagram.length ≤ fuel → parseWithin fuel datagram = parseDatagram datagram
  /-- No byte past the end is looked at. -/
  reached : (parseDatagram datagram).2.reached ≤ datagram.length
  /-- No read is refused: the lengths are checked before. -/
  lastError : (parseDatagram datagram).2.lastError = .none
  inside : ∀ header records, (parseDatagram datagram).1 = some (header, records) →
    ∀ r ∈ records, r.start + r.record.length.toNat ≤ datagram.length

/-- **Any bytes.** -/
theorem parseDatagram_safe : SafeParse datagram := by
  have hstart := at_datagram datagram
  have hreached : (Buffer.ofData datagram .bigEndian).reached ≤ datagram.length := Nat.zero_le _
  obtain ⟨-, hat⟩ := hstart.run readZDTHeader
  have hspec := @readZDTHeader_spec .bigEndian datagram .none
  have hreached' := hstart.reached_run hreached readZDTHeader
  have hsuffix := Reading.left_scan_suffix .bigEndian readZDTHeader ⟨datagram, .none⟩
  rw [hspec] at hat
  generalize hrun : readZDTHeader.run (Buffer.ofData datagram .bigEndian) = result at hat hreached'
  obtain ⟨found, b⟩ := result
  simp only at hat hreached'
  cases found with
  | none =>
    have hparse : ∀ fuel, parseWithin fuel datagram = (none, b) := by
      intro fuel
      rw [parseWithin, hrun]
    refine ⟨fun fuel _ => ?_, ?_, ?_, ?_⟩
    · rw [parseDatagram, hparse, hparse]
    · rw [parseDatagram, hparse]
      exact hreached'
    · rw [parseDatagram, hparse]
      exact hat.lastError
    · intro header records h
      rw [parseDatagram, hparse] at h
      cases h
  | some header =>
    have hparse : ∀ fuel, parseWithin fuel datagram =
        (some (header, (parseRecords fuel b).1), (parseRecords fuel b).2) := by
      intro fuel
      rw [parseWithin, hrun]
    obtain ⟨hinside, hreached'', herror⟩ := parseRecords_safe datagram.length hat hreached'
    have hleft := hsuffix.length_le
    refine ⟨fun fuel hfuel => ?_, ?_, ?_, ?_⟩
    · rw [parseDatagram, hparse, hparse,
        parseRecords_enough fuel datagram.length hat hreached' (hleft.trans hfuel) hleft]
    · rw [parseDatagram, hparse]
      exact hreached''
    · rw [parseDatagram, hparse]
      exact herror
    · intro header' records h
      rw [parseDatagram, hparse] at h
      cases h
      exact hinside

/-- The datagram `SendBatch` would write. -/
def datagramOf (header : ZDTHeader) (records : List (ZDTRecord × List UInt8)) : List UInt8 :=
  (writeDatagram { endianness := .bigEndian } header records).data

/-- **The round trip.** -/
theorem parseDatagram_written (header : ZDTHeader) (records : List (ZDTRecord × List UInt8))
    (honline : hasFlag header.flags kFlagOnline = true)
    (hblocks : header.blocks.length ≤ kZDTMaxAckBlocks)
    (hlen : ∀ r ∈ records, r.2.length = r.1.length.toNat) :
    ∃ parsed, (parseDatagram (datagramOf header records)).1 = some (header.onWire, parsed) ∧
      parsed.map (fun r => (r.record, r.payload (datagramOf header records))) =
        records.map fun r => (r.1.onWire, r.2) := by
  have hbytes : datagramOf header records =
      headerBytes .bigEndian header ++ recordsBytes .bigEndian records := by
    rw [datagramOf, data_writeDatagram]
    rfl
  have hstart := at_datagram (datagramOf header records)
  obtain ⟨hread, hat⟩ := hstart.run readZDTHeader
  have hscan := scan_readZDTHeader .bigEndian header honline hblocks
    (recordsBytes .bigEndian records) .none
  rw [← hbytes] at hscan
  rw [hscan] at hread hat
  have hfuel : records.length ≤ (datagramOf header records).length := by
    rw [hbytes, List.length_append]
    have : records.length ≤ (recordsBytes .bigEndian records).length := by
      clear * -
      induction records with
      | nil => simp
      | cons r records ih =>
        simp only [recordsBytes, List.flatMap_cons, List.length_append, recordBytes,
          Endianness.length_bytes, List.length_cons] at ih ⊢
        omega
    omega
  generalize hrun : readZDTHeader.run (Buffer.ofData (datagramOf header records) .bigEndian) =
    result at hread hat
  obtain ⟨found, b⟩ := result
  simp only at hread hat
  subst hread
  refine ⟨(parseRecords (datagramOf header records).length b).1, ?_,
    parseRecords_written .bigEndian records hlen hat hfuel⟩
  rw [parseDatagram, parseWithin, hrun]

/-- **The datagram format.**  What `WriteZDTHeader` and `WriteZDTRecord` write is
parsed back, with a fragment pair (and a connection id) that the flags do not
announce at its default; and any byte string at all is parsed to the end without
a read past it, into payloads that lie inside it. -/
theorem datagram_format :
    (∀ (header : ZDTHeader) (records : List (ZDTRecord × List UInt8)),
      hasFlag header.flags kFlagOnline = true → header.blocks.length ≤ kZDTMaxAckBlocks →
      (∀ r ∈ records, r.2.length = r.1.length.toNat) →
      ∃ parsed, (parseDatagram (datagramOf header records)).1 = some (header.onWire, parsed) ∧
        parsed.map (fun r => (r.record, r.payload (datagramOf header records))) =
          records.map fun r => (r.1.onWire, r.2)) ∧
      ∀ datagram, SafeParse datagram :=
  ⟨parseDatagram_written, parseDatagram_safe⟩

/-- A datagram with a connection id, two blocks, a fragment and a whole message. -/
def sampleHeader : ZDTHeader :=
  { flags := kFlagOnline ||| kFlagHasCid, cid := 0x0102030405060708, packetSeq := 0xBEEF
    ack := 0x1234, blocks := [⟨5, 3⟩, ⟨17, 0⟩] }

def sampleRecords : List (ZDTRecord × List UInt8) :=
  [({ flags := kRecReliable ||| kRecFragment, channel := 7, messageSeq := 0xCAFE, fragIndex := 3
      fragCount := 5, length := 2 }, [10, 20]),
    ({ flags := kRecOrdered, messageSeq := 1, length := 3 }, [1, 2, 3])]

theorem datagram_format_sample :
    ∃ parsed, (parseDatagram (datagramOf sampleHeader sampleRecords)).1 =
        some (sampleHeader, parsed) ∧
      parsed.map (fun r => (r.record, r.payload (datagramOf sampleHeader sampleRecords))) =
        sampleRecords :=
  datagram_format.1 sampleHeader sampleRecords (by decide) (by decide) (by decide)

/-- A whole message whose record carries a fragment index: the index is not on
the wire. -/
theorem fragment_pair_not_written :
    hasFlag ({} : ZDTHeader).flags kFlagOnline = true ∧
      ((parseDatagram (datagramOf {} [({ fragIndex := 3 }, [])])).1.map fun p =>
        p.2.map ParsedRecord.record) = some [{ fragIndex := 0 }] ∧
      [({ fragIndex := 0 } : ZDTRecord)] ≠ [{ fragIndex := 3 }] := by
  decide +kernel

end Zdt
end Znet

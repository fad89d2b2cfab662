import Znet.Lib.Bytes

/-!
# Byte buffers

The `Buffer` of `buffer.h`: bytes with a write cursor, a read cursor, a read
limit and a sticky error.  The bytes below the write cursor are a list here, so
the write cursor is its length.  Every read of the API first asks
`CheckReadableBytes`, which stops it at the *fence*, the smaller of the write
cursor and the read limit; a refused read sets the error and moves nothing.

Code that only reads through the API is a program of the type `Reading`, and
`Reading.run` executes it on a buffer.

* `Reading.run_scan` — **a read is local**: on any buffer a program does what it
  does on the readable bytes, wherever they stand and whatever lies behind the
  fence, and looks at none of the bytes there.

An allocation never fails here, and the machine is little-endian.
-/

namespace Znet

inductive Endianness where
  | littleEndian
  | bigEndian
  deriving DecidableEq, Repr

inductive BufferError where
  | none
  | cannotAllocate
  | readOutOfBounds
  | corruptedFormat
  /-- A length on the wire exceeded the configured cap. -/
  | readLimitExceeded
  deriving DecidableEq, Repr

/-- `ZNET_MAX_READ_STRING_LENGTH`. -/
def kMaxReadStringLength : Nat := 65536

structure Buffer where
  endianness : Endianness := .littleEndian
  /-- What lies below the write cursor. -/
  data : List UInt8 := []
  /-- `allocated_size_`; `none` while `data_` is null. -/
  storage : Option Nat := none
  readCursor : Nat := 0
  /-- `read_limit_`; `none` is the `std::numeric_limits<size_t>::max()` it starts with. -/
  readLimit : Option Nat := none
  lastError : BufferError := .none
  /-- History: one past the last byte a read has looked at. -/
  reached : Nat := 0
  deriving DecidableEq, Repr

/-- The bytes of a number of the given size, in the order of a buffer. -/
def Endianness.bytes : Endianness → Nat → Nat → List UInt8
  | .littleEndian, size, v => Bytes.le size v
  | .bigEndian, size, v => Bytes.be size v

/-- The number some bytes of a buffer spell. -/
def Endianness.number : Endianness → List UInt8 → Nat
  | .littleEndian, bytes => Bytes.ofLe bytes
  | .bigEndian, bytes => Bytes.ofBe bytes

variable (e : Endianness)

@[simp] theorem Endianness.length_bytes (size v : Nat) : (e.bytes size v).length = size := by
  cases e <;> simp [Endianness.bytes]

theorem Endianness.number_bytes (size v : Nat) : e.number (e.bytes size v) = v % 256 ^ size := by
  cases e with
  | littleEndian => exact Bytes.ofLe_le size v
  | bigEndian => exact Bytes.ofBe_be size v

theorem Endianness.number_lt (bytes : List UInt8) : e.number bytes < 256 ^ bytes.length := by
  cases e with
  | littleEndian => exact Bytes.ofLe_lt bytes
  | bigEndian => exact Bytes.ofBe_lt bytes

namespace Buffer

/-- The constructor that copies bytes in. -/
def ofData (data : List UInt8) (endianness : Endianness := .littleEndian) : Buffer :=
  { endianness, data, storage := some data.length }

/-! ## Reading -/

variable (b : Buffer)

/-- Where reads stop. -/
def fence : Nat :=
  match b.readLimit with
  | none => b.data.length
  | some limit => min b.data.length limit

/-- `readable_bytes`; zero when the cursor is past the fence. -/
def readableBytes : Nat := b.fence - b.readCursor

/-- `CheckReadableBytes`. -/
def checkReadableBytes (required : Nat) : Bool :=
  decide (b.readCursor + required ≤ b.fence)

/-- The bytes a program may still read. -/
def readableData : List UInt8 := (b.data.drop b.readCursor).take b.readableBytes

variable (size : Nat)

/-- Copy bytes out and move the cursor behind them. -/
def copyOut : List UInt8 × Buffer :=
  ((b.data.drop b.readCursor).take size,
    { b with readCursor := b.readCursor + size, reached := max b.reached (b.readCursor + size) })

/-- `SkipRead`: unchecked. -/
def skipRead : Buffer := { b with readCursor := b.readCursor + size }

def setReadCursor (cursor : Nat) : Buffer := { b with readCursor := cursor }

/-- `SetReadLimit`: zero lifts the limit. -/
def setReadLimit (limit : Nat) : Buffer :=
  { b with readLimit := if limit = 0 then none else some limit }

/-- `GetAndClearLastError`. -/
def getAndClearLastError : BufferError × Buffer :=
  (b.lastError, { b with lastError := .none })

/-! ## Writing -/

/-- `writable_bytes`. -/
def writableBytes : Nat := b.storage.getD 0 - b.data.length

def capacity : Nat := b.storage.getD 0

/-- `Reserve`, with `exact` off. -/
def reserve : Buffer :=
  match b.storage with
  | none => { b with storage := some (max (size * 2) 64) }
  | some allocated =>
    if size ≤ allocated then b else { b with storage := some (max (size * 2) 64) }

/-- `ReserveExact`: exact only where nothing was allocated before. -/
def reserveExact : Buffer :=
  match b.storage with
  | none => { b with storage := some size }
  | some _ => b.reserve size

/-- `Write`. -/
def write (bytes : List UInt8) : Buffer :=
  let b := b.reserve (b.data.length + bytes.length)
  { b with data := b.data ++ bytes }

/-- `WriteNumber`. -/
def writeNumber (size v : Nat) : Buffer := b.write (b.endianness.bytes size v)

/-- `WriteVarInt`. -/
def writeVarInt (size v : Nat) : Buffer :=
  b.write (UInt8.ofNat (Bytes.significant size v) ::
    b.endianness.bytes (Bytes.significant size v) v)

/-- `WriteString`. -/
def writeString (str : List UInt8) : Buffer :=
  ((b.reserve (b.data.length + (str.length + 8))).writeVarInt 8 str.length).write str

/-- `SkipWrite`; what the skipped bytes hold is overwritten before it is read. -/
def skipWrite : Buffer := b.write (List.replicate size 0)

/-- A write at an earlier position, between two moves of the write cursor. -/
def backfill (pos : Nat) (bytes : List UInt8) : Buffer :=
  { b with data := b.data.take pos ++ bytes ++ b.data.drop (pos + bytes.length) }

/-- `CommitWrite`: an external writer has put bytes behind the write cursor. -/
def commitWrite (bytes : List UInt8) : Buffer := { b with data := b.data ++ bytes }

/-- `ReserveHeadroom`, on a fresh buffer; what the skipped bytes hold is never read. -/
def reserveHeadroom : Buffer :=
  { b with data := List.replicate size 0, readCursor := size }

/-- `PrependInt8`; false when no headroom is left. -/
def prependInt8 (value : UInt8) : Bool × Buffer :=
  if b.readCursor = 0 ∨ b.storage = none then (false, b)
  else (true, { b with
    data := b.data.set (b.readCursor - 1) value
    readCursor := b.readCursor - 1 })

/-- `Compact`. -/
def compact : Buffer :=
  if b.readCursor = 0 then b else { b with data := b.data.drop b.readCursor, readCursor := 0 }

/-- `Reset`, without deallocating. -/
def reset : Buffer :=
  { b with data := [], readCursor := 0, lastError := .none }

variable (b : Buffer) (bytes : List UInt8) (size : Nat)

/-- Reserving touches nothing but the storage. -/
theorem reserve_eq : ∃ storage, b.reserve size = { b with storage } := by
  unfold reserve
  split
  · exact ⟨_, rfl⟩
  · split
    · exact ⟨b.storage, rfl⟩
    · exact ⟨_, rfl⟩

theorem reserveExact_eq : ∃ storage, b.reserveExact size = { b with storage } := by
  unfold reserveExact
  split
  · exact ⟨_, rfl⟩
  · exact b.reserve_eq size

/-- Writing appends, and touches nothing else but the storage. -/
theorem write_eq : ∃ storage, b.write bytes = { b with data := b.data ++ bytes, storage } := by
  obtain ⟨storage, h⟩ := b.reserve_eq (b.data.length + bytes.length)
  exact ⟨storage, by rw [write, h]⟩

@[simp] theorem data_write : (b.write bytes).data = b.data ++ bytes := by
  obtain ⟨storage, h⟩ := b.write_eq bytes
  rw [h]

@[simp] theorem endianness_write : (b.write bytes).endianness = b.endianness := by
  obtain ⟨storage, h⟩ := b.write_eq bytes
  rw [h]

@[simp] theorem readCursor_write : (b.write bytes).readCursor = b.readCursor := by
  obtain ⟨storage, h⟩ := b.write_eq bytes
  rw [h]

@[simp] theorem data_writeNumber (size v : Nat) :
    (b.writeNumber size v).data = b.data ++ b.endianness.bytes size v :=
  data_write b _

@[simp] theorem endianness_writeNumber (size v : Nat) :
    (b.writeNumber size v).endianness = b.endianness :=
  endianness_write b _

/-! ## Where the cursor may stand -/

/-- The cursor is inside the fence. -/
def Within (b : Buffer) : Prop := b.readCursor ≤ b.fence

theorem fence_le : b.fence ≤ b.data.length := by
  unfold fence
  split
  · exact le_rfl
  · exact Nat.min_le_left _ _

@[simp] theorem length_readableData : b.readableData.length = b.readableBytes := by
  have := b.fence_le
  simp only [readableData, readableBytes, List.length_take, List.length_drop]
  omega

theorem checkReadableBytes_iff {b : Buffer} (hb : b.Within) (required : Nat) :
    b.checkReadableBytes required = true ↔ required ≤ b.readableData.length := by
  rw [length_readableData, checkReadableBytes, decide_eq_true_eq, readableBytes]
  have := hb
  unfold Within at this
  omega

/-- Copying out takes the front of what is readable. -/
theorem copyOut_fst {b : Buffer} {size : Nat} (hsize : size ≤ b.readableBytes) :
    (b.copyOut size).1 = b.readableData.take size := by
  rw [copyOut, readableData, List.take_take, Nat.min_eq_left hsize]

/-- And leaves the rest. -/
theorem readableData_copyOut : (b.copyOut size).2.readableData = b.readableData.drop size := by
  have hbytes : (b.copyOut size).2.readableBytes = b.readableBytes - size := by
    show b.fence - (b.readCursor + size) = b.fence - b.readCursor - size
    omega
  rw [readableData, hbytes, readableData, List.drop_take]
  simp only [copyOut, List.drop_drop]

end Buffer

/-! ## Programs that read -/

/-- A program that reads through the API: it copies bytes out, looks at how many
are readable, raises an error, or asks for the error and clears it. -/
inductive Reading (α : Type) where
  | done (a : α)
  /-- Copy this many bytes out; refused when fewer are readable. -/
  | fetch (size : Nat) (next : Option (List UInt8) → Reading α)
  | readable (next : Nat → Reading α)
  | endianness (next : Endianness → Reading α)
  | raise (e : BufferError) (next : Reading α)
  | takeError (next : BufferError → Reading α)

namespace Reading

def bind {α β : Type} : Reading α → (α → Reading β) → Reading β
  | .done a, f => f a
  | .fetch size next, f => .fetch size fun r => (next r).bind f
  | .readable next, f => .readable fun n => (next n).bind f
  | .endianness next, f => .endianness fun e => (next e).bind f
  | .raise e next, f => .raise e (next.bind f)
  | .takeError next, f => .takeError fun e => (next e).bind f

instance : Monad Reading where
  pure := .done
  bind := bind

/-- Execute a program on a buffer. -/
def run {α : Type} : Reading α → Buffer → α × Buffer
  | .done a, b => (a, b)
  | .fetch size next, b =>
    if b.checkReadableBytes size then
      let (bytes, b) := b.copyOut size
      (next (some bytes)).run b
    else (next none).run { b with lastError := .readOutOfBounds }
  | .readable next, b => (next b.readableBytes).run b
  | .endianness next, b => (next b.endianness).run b
  | .raise e next, b => next.run { b with lastError := e }
  | .takeError next, b =>
    let (e, b) := b.getAndClearLastError
    (next e).run b

/-- What a program sees of a buffer: the bytes in front of it and the error. -/
structure View where
  left : List UInt8
  lastError : BufferError := .none
  deriving DecidableEq, Repr

/-- What a program does to what it sees. -/
def scan {α : Type} (order : Endianness) : Reading α → View → α × View
  | .done a, v => (a, v)
  | .fetch size next, v =>
    if size ≤ v.left.length then
      (next (some (v.left.take size))).scan order { v with left := v.left.drop size }
    else (next none).scan order { v with lastError := .readOutOfBounds }
  | .readable next, v => (next v.left.length).scan order v
  | .endianness next, v => (next order).scan order v
  | .raise e next, v => next.scan order { v with lastError := e }
  | .takeError next, v => (next v.lastError).scan order { v with lastError := .none }

/-! ## Composition -/

variable {α β : Type} {b' : Buffer} {v : View} {size : Nat}

variable (order : Endianness)

@[simp] theorem scan_done (a : α) (v : View) : (Reading.done a).scan order v = (a, v) := rfl

@[simp] theorem scan_pure (a : α) (v : View) : (pure a : Reading α).scan order v = (a, v) := rfl

theorem scan_bind (p : Reading α) (f : α → Reading β) (v : View) :
    (p.bind f).scan order v = (f (p.scan order v).1).scan order (p.scan order v).2 := by
  induction p generalizing v with
  | done a => rfl
  | fetch size next ih =>
    simp only [bind, scan]
    split
    · exact ih _ _
    · exact ih _ _
  | readable next ih | endianness next ih => exact ih _ _
  | raise e next ih => exact ih _
  | takeError next ih => exact ih _ _

@[simp] theorem scan_bind' (p : Reading α) (f : α → Reading β) (v : View) :
    (p >>= f).scan order v = (f (p.scan order v).1).scan order (p.scan order v).2 :=
  scan_bind order p f v

/-- A program takes bytes from the front. -/
theorem left_scan_suffix (p : Reading α) (v : View) : (p.scan order v).2.left <:+ v.left := by
  induction p generalizing v with
  | done a => exact List.suffix_rfl
  | fetch size next ih =>
    simp only [scan]
    split
    · exact (ih _ _).trans (List.drop_suffix _ _)
    · exact ih _ _
  | readable next ih | endianness next ih => exact ih _ _
  | raise e next ih => exact ih _
  | takeError next ih => exact ih _ _

/-! ## Reads are local -/

/-- A buffer that has been read up to a view: nothing but the cursor, the error
and the history has changed, and no byte behind the cursor was looked at. -/
structure ReadTo (b b' : Buffer) (v : View) : Prop where
  endianness : b'.endianness = b.endianness
  data : b'.data = b.data
  storage : b'.storage = b.storage
  readLimit : b'.readLimit = b.readLimit
  within : b'.Within
  left : b'.readableData = v.left
  lastError : b'.lastError = v.lastError
  reached : b'.reached ≤ max b.reached b'.readCursor
  forward : b.readCursor ≤ b'.readCursor

theorem ReadTo.refl {b : Buffer} (hb : b.Within) : ReadTo b b ⟨b.readableData, b.lastError⟩ :=
  ⟨rfl, rfl, rfl, rfl, hb, rfl, rfl, le_max_left _ _, le_rfl⟩

theorem ReadTo.fence {b : Buffer} (h : ReadTo b b' v) : b'.fence = b.fence := by
  rw [Buffer.fence, Buffer.fence, h.data, h.readLimit]

/-- The cursor stands as far before the fence as there are bytes left. -/
theorem ReadTo.readCursor {b : Buffer} (h : ReadTo b b' v) :
    b'.readCursor + v.left.length = b.fence := by
  have hwithin := h.within
  rw [← h.left, Buffer.length_readableData, Buffer.readableBytes, h.fence]
  unfold Buffer.Within at hwithin
  rw [h.fence] at hwithin
  omega

theorem ReadTo.withError {b : Buffer} (h : ReadTo b b' v) (e : BufferError) :
    ReadTo b { b' with lastError := e } { v with lastError := e } :=
  { h with lastError := rfl }

theorem ReadTo.copyOut {b : Buffer} (h : ReadTo b b' v) (hsize : size ≤ v.left.length) :
    ReadTo b (b'.copyOut size).2 { v with left := v.left.drop size } where
  endianness := h.endianness
  data := h.data
  storage := h.storage
  readLimit := h.readLimit
  within := by
    have hlen := hsize
    rw [← h.left, Buffer.length_readableData, Buffer.readableBytes] at hlen
    have hwithin := h.within
    unfold Buffer.Within at hwithin
    show b'.readCursor + size ≤ b'.fence
    omega
  left := by rw [Buffer.readableData_copyOut, h.left]
  lastError := h.lastError
  reached := by
    have hreached := h.reached
    show max b'.reached (b'.readCursor + size) ≤ max b.reached (b'.readCursor + size)
    omega
  forward := h.forward.trans (Nat.le_add_right _ _)

/-- **A read is local.**  A program does on a buffer what it does on the bytes
that are readable, and leaves the buffer read up to where that ends. -/
theorem run_scan (p : Reading α) {b : Buffer} (h : ReadTo b b' v) :
    (p.run b').1 = (p.scan b.endianness v).1 ∧
      ReadTo b (p.run b').2 (p.scan b.endianness v).2 := by
  induction p generalizing b' v with
  | done a => exact ⟨rfl, h⟩
  | fetch size next ih =>
    have hcheck := Buffer.checkReadableBytes_iff h.within size
    rw [h.left] at hcheck
    by_cases hsize : size ≤ v.left.length
    · have hbytes : (b'.copyOut size).1 = v.left.take size := by
        rw [Buffer.copyOut_fst, h.left]
        rw [← Buffer.length_readableData, h.left]
        exact hsize
      simp only [run, scan, if_pos hsize, if_pos (hcheck.2 hsize)]
      rw [hbytes]
      exact ih _ (h.copyOut hsize)
    · simp only [run, scan, if_neg hsize, if_neg (mt hcheck.1 hsize)]
      exact ih _ (h.withError _)
  | readable next ih =>
    simp only [run, scan]
    rw [← Buffer.length_readableData, h.left]
    exact ih _ h
  | endianness next ih =>
    simp only [run, scan]
    rw [h.endianness]
    exact ih _ h
  | raise e next ih => exact ih (h.withError e)
  | takeError next ih =>
    simp only [run, scan, Buffer.getAndClearLastError]
    rw [h.lastError]
    exact ih _ (h.withError _)

/-! ## The readers of the API -/

/-- `ReadNumber`, and `ReadInt`, of a type of the given size. -/
def readNumber (size : Nat) : Reading Nat :=
  .endianness fun order => .fetch size fun bytes => .done ((bytes.map order.number).getD 0)

/-- `ReadVarInt` of a type of the given size. -/
def readVarInt (size : Nat) : Reading Nat :=
  .readable fun n =>
    if n < 1 then .raise .readOutOfBounds (.done 0)
    else
      (readNumber 1).bind fun actualSize =>
        if size < actualSize then .raise .corruptedFormat (.done 0)
        else
          .readable fun n =>
            if n < actualSize then .raise .readOutOfBounds (.done 0) else readNumber actualSize

/-- `CheckReadCount`. -/
def checkReadCount (count maxAllowed minBytesPerElement : Nat) : Reading Bool :=
  if maxAllowed ≠ 0 ∧ maxAllowed < count then .raise .readLimitExceeded (.done false)
  else
    .readable fun n =>
      if n / max minBytesPerElement 1 < count then .raise .readOutOfBounds (.done false)
      else .done true

/-- `ReadString`. -/
def readString : Reading (List UInt8) :=
  (readVarInt 8).bind fun size =>
    (checkReadCount size kMaxReadStringLength 1).bind fun ok =>
      if ok then .fetch size fun bytes => .done (bytes.getD []) else .done []

/-- `readable_bytes`. -/
def readableBytes : Reading Nat := .readable .done

@[simp] theorem scan_readableBytes (v : View) :
    readableBytes.scan order v = (v.left.length, v) := rfl

/-- A number that is there is read, and the error stays as it is. -/
theorem scan_readNumber_of_le {left : List UInt8} (h : size ≤ left.length) (e : BufferError) :
    (readNumber size).scan order ⟨left, e⟩ =
      (order.number (left.take size), ⟨left.drop size, e⟩) := by
  simp only [readNumber, scan, if_pos h, Option.map_some, Option.getD_some]

/-- Reading back a number that was written. -/
theorem scan_readNumber (size n : Nat) (rest : List UInt8) (e : BufferError) :
    (readNumber size).scan order ⟨order.bytes size n ++ rest, e⟩ = (n % 256 ^ size, ⟨rest, e⟩) := by
  have hlen : size ≤ (order.bytes size n ++ rest).length := by simp
  rw [scan_readNumber_of_le order hlen, List.take_left' (order.length_bytes size n),
    List.drop_left' (order.length_bytes size n),
    order.number_bytes]

/-- Reading a byte. -/
theorem scan_byte (x : UInt8) (rest : List UInt8) :
    (readNumber 1).scan .littleEndian ⟨x :: rest, .none⟩ = (x.toNat, ⟨rest, .none⟩) := by
  have h := scan_readNumber .littleEndian 1 x.toNat rest .none
  have hbyte : Endianness.littleEndian.bytes 1 x.toNat = [x] := by
    simp [Endianness.bytes, Bytes.le]
  rw [hbyte, Nat.mod_eq_of_lt (by simpa using x.toNat_lt)] at h
  exact h

end Reading

/-! ## Standing in front of bytes -/

/-- A buffer with no limit that stands in front of the bytes `left` of its data. -/
structure At (whole : List UInt8) (order : Endianness) (left : List UInt8) (e : BufferError)
    (b : Buffer) : Prop where
  endianness : b.endianness = order
  data : b.data = whole
  readLimit : b.readLimit = none
  cursor : b.readCursor + left.length = whole.length
  left : whole.drop b.readCursor = left
  lastError : b.lastError = e

section At

variable {whole left : List UInt8} {order : Endianness} {e : BufferError} {b : Buffer}

section

variable (h : At whole order left e b)

include h

theorem At.fence : b.fence = whole.length := by
  rw [Buffer.fence, h.readLimit, h.data]

theorem At.readableBytes : b.readableBytes = left.length := by
  have := h.cursor
  rw [Buffer.readableBytes, h.fence]
  omega

theorem At.readTo : Reading.ReadTo b b ⟨left, e⟩ := by
  have hwithin : b.Within := by
    have := h.cursor
    rw [Buffer.Within, h.fence]
    omega
  have hleft : b.readableData = left := by
    rw [Buffer.readableData, h.readableBytes, h.data, h.left, List.take_length]
  have hrefl := Reading.ReadTo.refl hwithin
  rwa [hleft, h.lastError] at hrefl

/-- A program leaves the buffer in front of what it leaves. -/
theorem At.of_readTo {b' : Buffer} {v : Reading.View}
    (hread : Reading.ReadTo b b' v) : At whole order v.left v.lastError b' where
  endianness := hread.endianness.trans h.endianness
  data := hread.data.trans h.data
  readLimit := hread.readLimit.trans h.readLimit
  left := by
    have hcursor := hread.readCursor
    have hlimit := hread.readLimit.trans h.readLimit
    have hdata := hread.data.trans h.data
    rw [← hread.left, Buffer.readableData, Buffer.readableBytes, Buffer.fence, hlimit, hdata]
    rw [List.take_of_length_le (by simp)]
  cursor := by
    rw [hread.readCursor, h.fence]
  lastError := hread.lastError

end

variable {α : Type} {rest : List UInt8}

theorem At.run (h : At whole order left e b) (p : Reading α) :
    (p.run b).1 = (p.scan order ⟨left, e⟩).1 ∧
      At whole order (p.scan order ⟨left, e⟩).2.left (p.scan order ⟨left, e⟩).2.lastError
        (p.run b).2 := by
  obtain ⟨hresult, hread⟩ := Reading.run_scan p h.readTo
  rw [h.endianness] at hresult hread
  exact ⟨hresult, h.of_readTo hread⟩

theorem At.storage_run (h : At whole order left e b) (p : Reading α) :
    (p.run b).2.storage = b.storage :=
  (Reading.run_scan p h.readTo).2.storage

/-- Nothing past the end of the data is looked at. -/
theorem At.reached_run (h : At whole order left e b) (hreached : b.reached ≤ whole.length)
    (p : Reading α) : (p.run b).2.reached ≤ whole.length := by
  obtain ⟨-, hread⟩ := Reading.run_scan p h.readTo
  have hcursor := hread.readCursor
  rw [h.fence] at hcursor
  have := hread.reached
  omega

/-- Moving the cursor behind some bytes leaves those that follow. -/
theorem At.skip {body : List UInt8} (h : At whole order (body ++ rest) e b) (b' : Buffer)
    (hendianness : b'.endianness = b.endianness) (hdata : b'.data = b.data)
    (hlimit : b'.readLimit = none) (hcursor : b'.readCursor = b.readCursor + body.length) :
    At whole order rest b'.lastError b' where
  endianness := hendianness.trans h.endianness
  data := hdata.trans h.data
  readLimit := hlimit
  left := by rw [hcursor, ← List.drop_drop, h.left, List.drop_left]
  cursor := by
    have := h.cursor
    rw [List.length_append] at this
    rw [hcursor]
    omega
  lastError := rfl

/-- Skipping bytes that are there. -/
theorem At.skipRead (h : At whole order left e b) {size : Nat} (hsize : size ≤ left.length) :
    At whole order (left.drop size) e (b.skipRead size) := by
  have hat : At whole order (left.take size ++ left.drop size) e b := by
    rwa [List.take_append_drop]
  have hcursor : (b.skipRead size).readCursor = b.readCursor + (left.take size).length := by
    rw [List.length_take, Nat.min_eq_left hsize]
    rfl
  have := hat.skip (b.skipRead size) rfl rfl h.readLimit hcursor
  rwa [show (b.skipRead size).lastError = e from h.lastError] at this

theorem At.ofData (message : List UInt8) :
    At message .littleEndian message .none (Buffer.ofData message) :=
  ⟨rfl, rfl, rfl, Nat.zero_add _, rfl, rfl⟩

/-- The first byte of a buffer is read. -/
theorem At.readByte {whole : List UInt8} {x : UInt8} {b : Buffer}
    (h : At whole .littleEndian (x :: rest) .none b) :
    ((Reading.readNumber 1).run b).1 = x.toNat ∧
      At whole .littleEndian rest .none ((Reading.readNumber 1).run b).2 := by
  have hrun := h.run (Reading.readNumber 1)
  rwa [Reading.scan_byte] at hrun

/-- Copying bytes out that are there. -/
theorem At.copyOut {whole header : List UInt8} {b : Buffer}
    (h : At whole .littleEndian (header ++ rest) .none b) :
    (b.copyOut header.length).1 = header ∧
      At whole .littleEndian rest .none (b.copyOut header.length).2 := by
  constructor
  · rw [Buffer.copyOut, h.data, h.left, List.take_left]
  · have hskip := h.skip (b.copyOut header.length).2 rfl rfl h.readLimit rfl
    rwa [show (b.copyOut header.length).2.lastError = .none from h.lastError] at hskip

/-- Compacting keeps what is unread, and nothing else. -/
theorem At.compact (h : At whole order left e b) : At left order left e b.compact := by
  unfold Buffer.compact
  have hleft := h.left
  split
  · next hzero =>
    rw [hzero, List.drop_zero] at hleft
    rw [← hleft] at h ⊢
    exact h
  · refine { h with data := ?_, cursor := Nat.zero_add _, left := rfl }
    rw [h.data]
    exact hleft

end At

/-! ## Buffers that are built -/

/-- A buffer as the send path builds it: it holds a payload behind some headroom. -/
def Carries (b : Buffer) (payload : List UInt8) : Prop :=
  ∃ whole, At whole .littleEndian payload .none b

namespace Carries

variable {b : Buffer} {payload : List UInt8}

theorem readableBytes (h : Carries b payload) : b.readableBytes = payload.length := by
  obtain ⟨whole, h⟩ := h
  exact h.readableBytes

theorem readableData (h : Carries b payload) : b.readableData = payload := by
  obtain ⟨whole, h⟩ := h
  exact h.readTo.left

theorem endianness (h : Carries b payload) : b.endianness = .littleEndian := by
  obtain ⟨whole, h⟩ := h
  exact h.endianness

theorem length_data (h : Carries b payload) : b.data.length = b.readCursor + payload.length := by
  obtain ⟨whole, h⟩ := h
  rw [h.data, h.cursor]

theorem headroom (size : Nat) : Carries (Buffer.reserveHeadroom {} size) [] :=
  ⟨List.replicate size 0, rfl, rfl, rfl, by simp [Buffer.reserveHeadroom], by
    simp [Buffer.reserveHeadroom], rfl⟩

section

variable (h : Carries b payload)
include h

theorem congr (storage : Option Nat) : Carries { b with storage } payload := by
  obtain ⟨whole, h⟩ := h
  exact ⟨whole, h.endianness, h.data, h.readLimit, h.cursor, h.left, h.lastError⟩

theorem reserve (size : Nat) : Carries (b.reserve size) payload := by
  obtain ⟨storage, heq⟩ := b.reserve_eq size
  rw [heq]
  exact h.congr storage

theorem reserveExact (size : Nat) : Carries (b.reserveExact size) payload := by
  obtain ⟨storage, heq⟩ := b.reserveExact_eq size
  rw [heq]
  exact h.congr storage

theorem commitWrite (bytes : List UInt8) : Carries (b.commitWrite bytes) (payload ++ bytes) := by
  obtain ⟨whole, h⟩ := h
  have hcursor := h.cursor
  refine ⟨whole ++ bytes, h.endianness, ?_, h.readLimit, ?_, ?_, h.lastError⟩
  · rw [Buffer.commitWrite, h.data]
  · show b.readCursor + _ = _
    rw [List.length_append, List.length_append]
    omega
  · show (whole ++ bytes).drop b.readCursor = _
    rw [List.drop_append_of_le_length (by omega), h.left]

theorem write (bytes : List UInt8) : Carries (b.write bytes) (payload ++ bytes) := by
  obtain ⟨storage, heq⟩ := b.write_eq bytes
  rw [heq]
  exact (h.commitWrite bytes).congr storage

theorem writeNumber (size v : Nat) :
    Carries (b.writeNumber size v) (payload ++ Bytes.le size v) := by
  rw [Buffer.writeNumber, h.endianness]
  exact h.write _

/-- A byte in front of the payload, where there is headroom for it. -/
theorem prependInt8 (hroom : 0 < b.readCursor) (hdata : b.storage ≠ none) (value : UInt8) :
    (b.prependInt8 value).1 = true ∧ Carries (b.prependInt8 value).2 (value :: payload) := by
  obtain ⟨whole, h⟩ := h
  have hcursor := h.cursor
  have hne : ¬(b.readCursor = 0 ∨ b.storage = none) := by
    rintro (hzero | hnone)
    · omega
    · exact hdata hnone
  rw [Buffer.prependInt8, if_neg hne]
  refine ⟨rfl, whole.set (b.readCursor - 1) value, h.endianness, ?_, h.readLimit, ?_, ?_,
    h.lastError⟩
  · rw [h.data]
  · simp only [List.length_cons, List.length_set]
    omega
  · simp only
    rw [List.drop_eq_getElem_cons (by rw [List.length_set]; omega), List.getElem_set_self,
      List.drop_set_of_lt (by omega), Nat.sub_add_cancel hroom, h.left]

end

/-- Bytes of the payload are overwritten. -/
theorem backfill {front skipped back : List UInt8} (h : Carries b (front ++ skipped ++ back))
    {bytes : List UInt8} (hlength : bytes.length = skipped.length) :
    Carries (b.backfill (b.readCursor + front.length) bytes) (front ++ bytes ++ back) := by
  obtain ⟨whole, h⟩ := h
  have hwhole : whole = whole.take b.readCursor ++ (front ++ skipped ++ back) := by
    rw [← h.left, List.take_append_drop]
  have hcursor := h.cursor
  have htake : (whole.take b.readCursor).length = b.readCursor := by
    rw [List.length_take]
    omega
  generalize whole.take b.readCursor = head at hwhole htake
  have hdata : (b.backfill (b.readCursor + front.length) bytes).data =
      head ++ (front ++ bytes ++ back) := by
    have hcut : head ++ (front ++ skipped ++ back) = (head ++ front) ++ (skipped ++ back) := by
      simp only [List.append_assoc]
    have hlen : (head ++ front).length = b.readCursor + front.length := by
      rw [List.length_append, htake]
    rw [Buffer.backfill, h.data, hwhole, hcut, ← hlen, List.take_left, hlength, List.drop_append,
      List.drop_of_length_le (Nat.le_add_right _ _), Nat.add_sub_cancel_left, List.nil_append,
      List.drop_left]
    simp only [List.append_assoc]
  refine ⟨_, h.endianness, hdata, h.readLimit, ?_, ?_, h.lastError⟩
  · show b.readCursor + _ = _
    rw [← htake, ← List.length_append]
  · show List.drop b.readCursor _ = _
    rw [← htake]
    exact List.drop_left

/-- A number in as many bytes as it needs, behind their count. -/
theorem writeVarInt (h : Carries b payload) (size v : Nat) :
    Carries (b.writeVarInt size v) (payload ++
      UInt8.ofNat (Bytes.significant size v) :: Bytes.le (Bytes.significant size v) v) := by
  rw [Buffer.writeVarInt, h.endianness]
  exact h.write _

theorem writeString (h : Carries b payload) (str : List UInt8) :
    Carries (b.writeString str) (payload ++
      (UInt8.ofNat (Bytes.significant 8 str.length) :: Bytes.le (Bytes.significant 8 str.length)
        str.length ++ str)) := by
  have hwrite := ((h.reserve (b.data.length + (str.length + 8))).writeVarInt 8 str.length).write str
  rwa [List.append_assoc] at hwrite

end Carries

/-- A buffer with a payload and at least so much headroom, on storage of its own. -/
structure Roomy (room : Nat) (b : Buffer) (payload : List UInt8) : Prop where
  carries : Carries b payload
  room : room ≤ b.readCursor
  storage : b.storage ≠ none

variable (b : Buffer)

theorem Buffer.storage_reserve (size : Nat) : (b.reserve size).storage ≠ none := by
  unfold Buffer.reserve
  split
  · simp
  · next allocated hstorage =>
    split
    · simp [hstorage]
    · simp

theorem Buffer.storage_write (bytes : List UInt8) : (b.write bytes).storage ≠ none :=
  b.storage_reserve _

theorem Roomy.prependInt8 {room : Nat} {b : Buffer} {payload : List UInt8}
    (h : Roomy (room + 1) b payload) (value : UInt8) :
    ∃ b', b.prependInt8 value = (true, b') ∧ Roomy room b' (value :: payload) := by
  have hroom := h.room
  obtain ⟨htrue, hcarries⟩ := h.carries.prependInt8 (by omega) h.storage value
  refine ⟨(b.prependInt8 value).2, Prod.ext htrue rfl, hcarries, ?_, ?_⟩
  all_goals
    rw [Buffer.prependInt8, if_neg (by simp [h.storage]; omega)]
  · show room ≤ b.readCursor - 1
    omega
  · exact h.storage

end Znet

import Znet.Buffer
import Znet.Lib.Keyed

/-!
# Containers in a buffer

`WriteVector`, `WriteMap` and `WriteArray` put a count in front of the elements, and the readers
check the count against the bytes at hand before they decode anything.  Elements are written and
read by a pair of members of `Buffer`.

* `containers_round_trip_iff` — **all four return what was written exactly when the elements and
  what follows them are no shorter than the elements in memory**, which the readers of arrays ask
  for and the others do not.
-/

namespace Znet

/-- `ZNET_MAX_READ_ELEMENTS`. -/
def kMaxReadElements : Nat := 65536

/-! ## Elements -/

/-- A writer of values and a reader, which round trip the values that fit. -/
structure Coder (α : Type) where
  write : Buffer → α → Buffer
  read : Reading α
  bytes : Endianness → α → List UInt8
  Fits : α → Prop
  data_write : ∀ b a, (write b a).data = b.data ++ bytes b.endianness a
  endianness_write : ∀ b a, (write b a).endianness = b.endianness
  read_back : ∀ (order : Endianness) (a : α) (rest : List UInt8) (e : BufferError), Fits a →
    read.scan order ⟨bytes order a ++ rest, e⟩ = (a, ⟨rest, e⟩)

/-- A pair of members of `Buffer` for the elements of a container.  No value takes no bytes. -/
structure Element (α : Type) extends Coder α where
  /-- `sizeof` of the type. -/
  size : Nat
  bytes_ne_nil : ∀ order a, bytes order a ≠ []

/-- The bytes of a number behind their count. -/
def varIntBytes (order : Endianness) (size v : Nat) : List UInt8 :=
  UInt8.ofNat (Bytes.significant size v) :: order.bytes (Bytes.significant size v) v

theorem Endianness.number_significant (order : Endianness) (size v : Nat) :
    order.number (order.bytes (Bytes.significant size v) v) = v % 256 ^ size := by
  cases order with
  | littleEndian => exact Bytes.ofLe_le_significant size v
  | bigEndian =>
    show Bytes.ofLe (Bytes.le _ _).reverse.reverse = _
    rw [List.reverse_reverse]
    exact Bytes.ofLe_le_significant size v

variable (b : Buffer)

theorem data_writeVarInt (size v : Nat) :
    (b.writeVarInt size v).data = b.data ++ varIntBytes b.endianness size v :=
  Buffer.data_write _ _

theorem endianness_writeVarInt (size v : Nat) : (b.writeVarInt size v).endianness = b.endianness :=
  Buffer.endianness_write _ _

variable {size count limit per : Nat} {order : Endianness} {b w : Buffer} {appended : List UInt8}

/-- Reading back a variable-width number. -/
theorem scan_readVarInt_of_le (order : Endianness) (hsize : size ≤ 8) (v : Nat) (rest : List UInt8)
    (e : BufferError) :
    (Reading.readVarInt size).scan order ⟨varIntBytes order size v ++ rest, e⟩ =
      (v % 256 ^ size, ⟨rest, e⟩) := by
  have hle := Bytes.significant_le size v
  have hnumber := order.number_significant size v
  unfold varIntBytes
  generalize Bytes.significant size v = n at hle hnumber
  have hcount : (Reading.readNumber 1).scan order
      ⟨UInt8.ofNat n :: (order.bytes n v ++ rest), e⟩ = (n, ⟨order.bytes n v ++ rest, e⟩) := by
    have hbyte : UInt8.ofNat n :: (order.bytes n v ++ rest) =
        order.bytes 1 n ++ (order.bytes n v ++ rest) := by
      cases order <;> rfl
    rw [hbyte, Reading.scan_readNumber, Nat.mod_eq_of_lt (by omega)]
  have hread : (Reading.readNumber n).scan order ⟨order.bytes n v ++ rest, e⟩ =
      (v % 256 ^ size, ⟨rest, e⟩) := by
    rw [Reading.scan_readNumber_of_le order (by simp), List.take_left' (order.length_bytes n v),
      List.drop_left' (order.length_bytes n v), hnumber]
  unfold Reading.readVarInt
  simp only [List.cons_append, Reading.scan, List.length_cons]
  rw [if_neg (by omega), Reading.scan_bind, hcount]
  rw [if_neg (by omega)]
  simp only [Reading.scan, List.length_append, Endianness.length_bytes]
  rw [if_neg (by omega), hread]

/-- The check of a count passes where the bytes are there. -/
theorem scan_checkReadCount {v : Reading.View} (hlimit : count ≤ limit)
    (hper : count * max per 1 ≤ v.left.length) :
    (Reading.checkReadCount count limit per).scan order v = (true, v) := by
  have hdiv : count ≤ v.left.length / max per 1 := (Nat.le_div_iff_mul_le (by omega)).2 hper
  unfold Reading.checkReadCount
  rw [if_neg (by omega)]
  simp only [Reading.scan]
  rw [if_neg (by omega)]
  rfl

/-- And fails where they are not. -/
theorem scan_checkReadCount_of_lt {v : Reading.View} (hlimit : count ≤ limit)
    (hper : v.left.length < count * max per 1) :
    (Reading.checkReadCount count limit per).scan order v =
      (false, { v with lastError := .readOutOfBounds }) := by
  have hdiv : v.left.length / max per 1 < count := (Nat.div_lt_iff_lt_mul (by omega)).2 hper
  unfold Reading.checkReadCount
  rw [if_neg (by omega)]
  simp only [Reading.scan]
  rw [if_pos hdiv]
  rfl

namespace Element

theorem bits_pow (size : Nat) : 256 ^ size = 2 ^ (8 * size) := by
  rw [pow_mul]
  rfl

/-- `WriteNumber` and `ReadNumber` of a type of the given size. -/
def number (size : Nat) (hsize : 0 < size) : Element (BitVec (8 * size)) where
  size := size
  write b v := b.writeNumber size v.toNat
  read := (Reading.readNumber size).bind fun n => .done (BitVec.ofNat _ n)
  bytes order v := order.bytes size v.toNat
  Fits _ := True
  data_write b v := Buffer.data_writeNumber b size v.toNat
  endianness_write b v := Buffer.endianness_writeNumber b size v.toNat
  read_back order v rest e _ := by
    rw [Reading.scan_bind, Reading.scan_readNumber]
    simp only [Reading.scan_done]
    rw [bits_pow, Nat.mod_eq_of_lt v.isLt, BitVec.ofNat_toNat, BitVec.setWidth_eq]
  bytes_ne_nil order v := by
    apply List.ne_nil_of_length_pos
    rwa [order.length_bytes]

/-- `WriteVarInt` and `ReadVarInt` of a type of the given size. -/
def varInt (size : Nat) (hsize : size ≤ 8) : Element (BitVec (8 * size)) where
  size := size
  write b v := b.writeVarInt size v.toNat
  read := (Reading.readVarInt size).bind fun n => .done (BitVec.ofNat _ n)
  bytes order v := varIntBytes order size v.toNat
  Fits _ := True
  data_write b v := data_writeVarInt b size v.toNat
  endianness_write b v := endianness_writeVarInt b size v.toNat
  read_back order v rest e _ := by
    rw [Reading.scan_bind, scan_readVarInt_of_le order hsize]
    simp only [Reading.scan_done]
    rw [bits_pow, Nat.mod_eq_of_lt v.isLt, BitVec.ofNat_toNat, BitVec.setWidth_eq]
  bytes_ne_nil _ _ := List.cons_ne_nil _ _

/-- `WriteBool` and `ReadBool`. -/
def bool : Element Bool where
  size := 1
  write b v := b.writeNumber 1 v.toNat
  read := (Reading.readNumber 1).bind fun n => .done (n != 0)
  bytes order v := order.bytes 1 v.toNat
  Fits _ := True
  data_write b v := Buffer.data_writeNumber b 1 v.toNat
  endianness_write b v := Buffer.endianness_writeNumber b 1 v.toNat
  read_back order v rest e _ := by
    rw [Reading.scan_bind, Reading.scan_readNumber]
    cases v <;> rfl
  bytes_ne_nil order v := by
    apply List.ne_nil_of_length_pos
    simp

/-- `WriteString` and `ReadString`, where `sizeof(std::string)` is the given size. -/
def string (size : Nat) : Element (List UInt8) where
  size := size
  write b str := b.writeString str
  read := Reading.readString
  bytes order str := varIntBytes order 8 str.length ++ str
  Fits str := str.length ≤ kMaxReadStringLength
  data_write b str := by
    obtain ⟨storage, hreserve⟩ := b.reserve_eq (b.data.length + (str.length + 8))
    simp only [Buffer.writeString, Buffer.data_write, data_writeVarInt, hreserve, List.append_assoc]
  endianness_write b str := by
    obtain ⟨storage, hreserve⟩ := b.reserve_eq (b.data.length + (str.length + 8))
    simp only [Buffer.writeString, Buffer.endianness_write, endianness_writeVarInt, hreserve]
  read_back order str rest e hfits := by
    have hsmall : str.length % 256 ^ 8 = str.length := by
      apply Nat.mod_eq_of_lt
      unfold kMaxReadStringLength at hfits
      omega
    rw [List.append_assoc, Reading.readString, Reading.scan_bind,
      scan_readVarInt_of_le order le_rfl, hsmall]
    rw [Reading.scan_bind, scan_checkReadCount hfits (by simp)]
    simp [Reading.scan]
  bytes_ne_nil _ _ := by simp [varIntBytes]

end Element

/-! ## Runs of elements -/

section Runs

variable {α : Type} (c : Element α)

/-- The loop of the writers. -/
def writeElements (b : Buffer) (values : List α) : Buffer := values.foldl c.write b

/-- The loop of the readers. -/
def readElements : Nat → Reading (List α)
  | 0 => .done []
  | n + 1 => c.read.bind fun a => (readElements n).bind fun values => .done (a :: values)

/-- The bytes of a run of elements. -/
def elementBytes (order : Endianness) (values : List α) : List UInt8 :=
  values.flatMap (c.bytes order)

theorem writeElements_spec (b : Buffer) (values : List α) :
    (writeElements c b values).data = b.data ++ elementBytes c b.endianness values ∧
      (writeElements c b values).endianness = b.endianness := by
  induction values generalizing b with
  | nil => simp [writeElements, elementBytes]
  | cons a values ih =>
    obtain ⟨hdata, horder⟩ := ih (c.write b a)
    rw [c.data_write, c.endianness_write] at hdata
    rw [c.endianness_write] at horder
    refine ⟨?_, horder⟩
    rw [elementBytes, List.flatMap_cons, ← List.append_assoc]
    exact hdata

variable (order : Endianness)

theorem scan_readElements {values : List α} (hfits : ∀ a ∈ values, c.Fits a)
    (rest : List UInt8) (e : BufferError) :
    (readElements c values.length).scan order ⟨elementBytes c order values ++ rest, e⟩ =
      (values, ⟨rest, e⟩) := by
  induction values with
  | nil => rfl
  | cons a values ih =>
    have hfirst := c.read_back order a (elementBytes c order values ++ rest) e
      (hfits a List.mem_cons_self)
    have hrest := ih fun a' ha' => hfits a' (List.mem_cons_of_mem _ ha')
    rw [elementBytes, List.flatMap_cons, List.append_assoc, List.length_cons, readElements,
      Reading.scan_bind]
    rw [elementBytes] at hfirst hrest
    rw [hfirst]
    simp only [Reading.scan_bind, hrest, Reading.scan_done]

/-- A run of elements has as many bytes as elements at least. -/
theorem length_le_elementBytes (values : List α) :
    values.length ≤ (elementBytes c order values).length := by
  induction values with
  | nil => simp [elementBytes]
  | cons a values ih =>
    have hpos := List.length_pos_iff.2 (c.bytes_ne_nil order a)
    rw [elementBytes] at ih ⊢
    rw [List.flatMap_cons, List.length_append, List.length_cons]
    omega

end Runs

/-- A key and a value behind it, as one element. -/
def Element.pair {κ β : Type} (k : Element κ) (v : Element β) : Element (κ × β) where
  size := k.size + v.size
  write b entry := v.write (k.write b entry.1) entry.2
  read := k.read.bind fun key => v.read.bind fun value => .done (key, value)
  bytes order entry := k.bytes order entry.1 ++ v.bytes order entry.2
  Fits entry := k.Fits entry.1 ∧ v.Fits entry.2
  data_write b entry := by
    rw [v.data_write, k.data_write, k.endianness_write, List.append_assoc]
  endianness_write b entry := by
    rw [v.endianness_write, k.endianness_write]
  read_back order entry rest e hfits := by
    rw [List.append_assoc, Reading.scan_bind, k.read_back _ _ _ _ hfits.1]
    simp only [Reading.scan_bind, v.read_back _ _ _ _ hfits.2, Reading.scan_done]
  bytes_ne_nil order entry := by simp [k.bytes_ne_nil]

theorem length_elementBytes_pair {κ β : Type} (k : Element κ) (v : Element β) (order : Endianness)
    (entries : List (κ × β)) :
    entries.length * 2 ≤ (elementBytes (k.pair v) order entries).length := by
  induction entries with
  | nil => simp [elementBytes]
  | cons entry entries ih =>
    have hkey := List.length_pos_iff.2 (k.bytes_ne_nil order entry.1)
    have hvalue := List.length_pos_iff.2 (v.bytes_ne_nil order entry.2)
    rw [elementBytes] at ih ⊢
    simp only [List.flatMap_cons, List.length_append, List.length_cons, Element.pair] at ih ⊢
    omega

/-! ## The containers -/

section Containers

variable {α : Type} (c : Element α)

/-- The count, and the elements behind it. -/
def writeCounted (b : Buffer) (values : List α) : Buffer :=
  writeElements c (b.writeVarInt 8 values.length) values

/-- `WriteVector`. -/
def writeVector (b : Buffer) (values : List α) : Buffer := writeCounted c b values

/-- `WriteArray`, of an array or of a pointer and a size. -/
def writeArray (b : Buffer) (values : List α) : Buffer := writeCounted c b values

/-- `ReadVector`. -/
def readVector : Reading (List α) :=
  (Reading.readVarInt 8).bind fun size =>
    (Reading.checkReadCount size kMaxReadElements 1).bind fun ok =>
      if ok then readElements c size else .done []

/-- `ReadArray`, of any size; `none` is the null pointer. -/
def readArray : Reading (Option (List α)) :=
  (Reading.readVarInt 8).bind fun size =>
    (Reading.checkReadCount size kMaxReadElements c.size).bind fun ok =>
      if ok then (readElements c size).bind fun values => .done (some values) else .done none

/-- `ReadArray`, of a size the type fixes; `{}` is an array of values of the default. -/
def readArrayFixed [Inhabited α] (size : Nat) : Reading (List α) :=
  (Reading.readVarInt 8).bind fun sizeR =>
    if sizeR ≠ size then .raise .corruptedFormat (.done (List.replicate size default))
    else
      .readable fun n =>
        if n < size * c.size then .raise .readOutOfBounds (.done (List.replicate size default))
        else readElements c size

end Containers

section Maps

variable {κ β : Type} {cmp : κ → κ → Ordering} [Std.TransCmp cmp] (k : Element κ) (v : Element β)

/-- `WriteMap`, over the entries in the order of the map's iterator. -/
def writeMap (b : Buffer) (entries : List (κ × β)) : Buffer := writeCounted (k.pair v) b entries

/-- The loop of `ReadMap`. -/
def readEntries : Nat → Std.ExtTreeMap κ β cmp → Reading (Std.ExtTreeMap κ β cmp)
  | 0, map => .done map
  | n + 1, map =>
    k.read.bind fun key => v.read.bind fun value => readEntries n (map.insert key value)

/-- `ReadMap`. -/
def readMap : Reading (Std.ExtTreeMap κ β cmp) :=
  (Reading.readVarInt 8).bind fun size =>
    (Reading.checkReadCount size kMaxReadElements 2).bind fun ok =>
      if ok then readEntries k v size ∅ else .done ∅

theorem scan_readEntries (order : Endianness) {entries : List (κ × β)}
    (hfits : ∀ entry ∈ entries, (k.pair v).Fits entry) (map : Std.ExtTreeMap κ β cmp)
    (rest : List UInt8) (e : BufferError) :
    (readEntries k v entries.length map).scan order
        ⟨elementBytes (k.pair v) order entries ++ rest, e⟩ =
      (map.insertMany entries, ⟨rest, e⟩) := by
  induction entries generalizing map with
  | nil => simp [readEntries, elementBytes]
  | cons entry entries ih =>
    obtain ⟨key, value⟩ := entry
    obtain ⟨hkey, hvalue⟩ := hfits _ List.mem_cons_self
    have hrest := ih (fun entry' h' => hfits entry' (List.mem_cons_of_mem _ h'))
        (map.insert key value)
    rw [elementBytes] at hrest ⊢
    simp only [List.flatMap_cons, List.length_cons, readEntries, Element.pair, List.append_assoc,
      Reading.scan_bind, k.read_back _ _ _ _ hkey, v.read_back _ _ _ _ hvalue,
      Std.ExtTreeMap.insertMany_cons] at hrest ⊢
    exact hrest

end Maps

/-! ## Round trips -/

/-- What the writer `w` appended to `b` is read back as `value` by any buffer that stands in front
of it: with no error, and with the cursor at the bytes that follow. -/
def ReadsBack {β : Type} (b w : Buffer) (rest : List UInt8) (p : Reading β) (value : β) : Prop :=
  ∀ r : Buffer, At (w.data ++ rest) b.endianness (w.data.drop b.data.length ++ rest) .none r →
    (p.run r).1 = value ∧ (p.run r).2.lastError = .none ∧ (p.run r).2.readCursor = w.data.length

/-- A reader that has read up to what was appended. -/
theorem at_appended (hdata : w.data = b.data ++ appended) (rest : List UInt8) :
    At (w.data ++ rest) b.endianness (appended ++ rest) .none
      { endianness := b.endianness, data := w.data ++ rest, readCursor := b.data.length } :=
  ⟨rfl, rfl, rfl, by simp [hdata], by simp [hdata], rfl⟩

/-- It is enough to look at the bytes. -/
theorem readsBack_iff {β : Type} (hdata : w.data = b.data ++ appended) (rest : List UInt8)
    (p : Reading β) (value : β) :
    ReadsBack b w rest p value ↔
      p.scan b.endianness ⟨appended ++ rest, .none⟩ = (value, ⟨rest, .none⟩) := by
  have hleft : w.data.drop b.data.length ++ rest = appended ++ rest := by rw [hdata, List.drop_left]
  rw [ReadsBack, hleft]
  constructor
  · intro h
    have hat := at_appended hdata rest
    obtain ⟨hvalue, herror, hcursor⟩ := h _ hat
    obtain ⟨hresult, hafter⟩ := hat.run p
    have hrest := hafter.left
    rw [hcursor, List.drop_left] at hrest
    have herror' := hafter.lastError.symm.trans herror
    have hvalue' := hresult.symm.trans hvalue
    generalize p.scan b.endianness ⟨appended ++ rest, .none⟩ = out at hrest herror' hvalue' ⊢
    obtain ⟨result, left, error⟩ := out
    rw [hrest, ← hvalue', ← herror']
  · intro hscan r hat
    obtain ⟨hresult, hafter⟩ := hat.run p
    rw [hscan] at hresult hafter
    refine ⟨hresult, hafter.lastError, ?_⟩
    have hcursor : (p.run r).2.readCursor + rest.length = (w.data ++ rest).length := hafter.cursor
    rw [List.length_append] at hcursor
    omega

section RoundTrip

variable {α : Type} (c : Element α) {κ β : Type} {cmp : κ → κ → Ordering} [Std.TransCmp cmp]
  (k : Element κ) (v : Element β)

/-- The bytes of a container. -/
def countedBytes (order : Endianness) (values : List α) : List UInt8 :=
  varIntBytes order 8 values.length ++ elementBytes c order values

theorem data_writeCounted (b : Buffer) (values : List α) :
    (writeCounted c b values).data = b.data ++ countedBytes c b.endianness values := by
  rw [writeCounted, (writeElements_spec c _ values).1, data_writeVarInt, endianness_writeVarInt,
    countedBytes, List.append_assoc]

variable {values : List α}

variable (order : Endianness)

/-- The count comes back. -/
theorem scan_count {γ : Type} (hcount : values.length ≤ kMaxReadElements)
    (rest : List UInt8) (next : Nat → Reading γ) :
    ((Reading.readVarInt 8).bind next).scan order ⟨countedBytes c order values ++ rest, .none⟩ =
      (next values.length).scan order ⟨elementBytes c order values ++ rest, .none⟩ := by
  have hsmall : values.length % 256 ^ 8 = values.length := by
    apply Nat.mod_eq_of_lt
    unfold kMaxReadElements at hcount
    omega
  rw [countedBytes, List.append_assoc, Reading.scan_bind,
    scan_readVarInt_of_le order le_rfl, hsmall]

theorem scan_readVector (hfits : ∀ a ∈ values, c.Fits a)
    (hcount : values.length ≤ kMaxReadElements) (rest : List UInt8) :
    (readVector c).scan order ⟨countedBytes c order values ++ rest, .none⟩ =
      (values, ⟨rest, .none⟩) := by
  have hcheck : values.length * max 1 1 ≤ (elementBytes c order values ++ rest).length := by
    have := length_le_elementBytes c order values
    rw [List.length_append, max_self, mul_one]
    omega
  rw [readVector, scan_count c order hcount, Reading.scan_bind, scan_checkReadCount hcount hcheck]
  exact scan_readElements c order hfits rest .none

theorem scan_readMap {map : Std.ExtTreeMap κ β cmp} {entries : List (κ × β)}
    (hentries : entries.Perm map.toList) (hfits : ∀ entry ∈ entries, (k.pair v).Fits entry)
    (hcount : entries.length ≤ kMaxReadElements) (rest : List UInt8) :
    (readMap k v).scan order ⟨countedBytes (k.pair v) order entries ++ rest, .none⟩ =
      (map, ⟨rest, .none⟩) := by
  have hcheck : entries.length * max 2 1 ≤
      (elementBytes (k.pair v) order entries ++ rest).length := by
    have := length_elementBytes_pair k v order entries
    rw [List.length_append, max_eq_left (by decide)]
    omega
  rw [readMap, scan_count _ order hcount, Reading.scan_bind, scan_checkReadCount hcount hcheck]
  simp only [if_true]
  rw [scan_readEntries k v order hfits, Keyed.insertMany_eq_of_perm hentries]

/-- The elements and what follows are no shorter than the elements in memory. -/
def Backed (order : Endianness) (values : List α) (rest : List UInt8) : Prop :=
  values.length * c.size ≤ (elementBytes c order values).length + rest.length

instance decidableBacked (order : Endianness) (values : List α) (rest : List UInt8) :
    Decidable (Backed c order values rest) :=
  inferInstanceAs (Decidable (_ ≤ _))

theorem scan_readArray_iff (hfits : ∀ a ∈ values, c.Fits a)
    (hcount : values.length ≤ kMaxReadElements) (rest : List UInt8) :
    (readArray c).scan order ⟨countedBytes c order values ++ rest, .none⟩ =
      (some values, ⟨rest, .none⟩) ↔ Backed c order values rest := by
  have hone := length_le_elementBytes c order values
  rw [readArray, scan_count c order hcount, Reading.scan_bind]
  constructor
  · intro h
    by_contra hshort
    have hcheck : (elementBytes c order values ++ rest).length < values.length * max c.size 1 := by
      rw [List.length_append]
      exact lt_of_lt_of_le (not_le.1 hshort) (Nat.mul_le_mul_left _ (le_max_left _ _))
    rw [scan_checkReadCount_of_lt hcount hcheck] at h
    simp at h
  · intro hbacked
    have hcheck : values.length * max c.size 1 ≤ (elementBytes c order values ++ rest).length := by
      rw [List.length_append]
      rcases Nat.le_total c.size 1 with hle | hle
      · rw [max_eq_right hle]
        omega
      · rwa [max_eq_left hle]
    rw [scan_checkReadCount hcount hcheck]
    simp only [if_true]
    rw [Reading.scan_bind, scan_readElements c order hfits]
    rfl

theorem scan_readArrayFixed_iff [Inhabited α] (hfits : ∀ a ∈ values, c.Fits a)
    (hcount : values.length ≤ kMaxReadElements) (rest : List UInt8) :
    (readArrayFixed c values.length).scan order ⟨countedBytes c order values ++ rest, .none⟩ =
      (values, ⟨rest, .none⟩) ↔ Backed c order values rest := by
  rw [readArrayFixed, scan_count c order hcount, if_neg (by simp)]
  unfold Backed
  simp only [Reading.scan, List.length_append]
  split
  · next hshort =>
    refine iff_of_false (fun h => ?_) (not_le.2 hshort)
    have herror : BufferError.readOutOfBounds = .none := congrArg (fun r => r.2.lastError) h
    cases herror
  · next hbacked =>
    rw [scan_readElements c order hfits]
    simpa using hbacked

/-- **Containers round trip exactly where they are backed.**  For every element, every container
of at most `ZNET_MAX_READ_ELEMENTS` elements that fit and all bytes behind it, in both byte
orders: the four readers return what the writers wrote, with no error and the cursor at the bytes
that follow, if and only if the elements and those bytes are no shorter than the elements in
memory. -/
theorem containers_round_trip_iff [Inhabited α] (b : Buffer) {values : List α}
    (hfits : ∀ a ∈ values, c.Fits a) (hcount : values.length ≤ kMaxReadElements)
    {map : Std.ExtTreeMap κ β cmp} {entries : List (κ × β)} (hentries : entries.Perm map.toList)
    (hmap : ∀ entry ∈ entries, (k.pair v).Fits entry) (hsize : entries.length ≤ kMaxReadElements)
    (rest : List UInt8) :
    (ReadsBack b (writeVector c b values) rest (readVector c) values ∧
      ReadsBack b (writeMap k v b entries) rest (readMap k v) map ∧
      ReadsBack b (writeArray c b values) rest (readArray c) (some values) ∧
      ReadsBack b (writeArray c b values) rest (readArrayFixed c values.length) values) ↔
    Backed c b.endianness values rest := by
  have hvalues := data_writeCounted c b values
  have hmapped := data_writeCounted (k.pair v) b entries
  rw [writeVector, writeArray, writeMap, readsBack_iff hvalues, readsBack_iff hmapped,
    readsBack_iff hvalues, readsBack_iff hvalues, scan_readArray_iff c _ hfits hcount,
    scan_readArrayFixed_iff c _ hfits hcount]
  constructor
  · rintro ⟨-, -, hbacked, -⟩
    exact hbacked
  · intro hbacked
    exact ⟨scan_readVector c _ hfits hcount rest, scan_readMap k v _ hentries hmap hsize rest,
      hbacked, hbacked⟩

end RoundTrip

/-! ## Elements that are always backed, and elements that are not -/

/-- Numbers of a fixed width take the bytes they have in memory. -/
theorem backed_number (order : Endianness) (hsize : 0 < size) (values : List (BitVec (8 * size)))
    (rest : List UInt8) :
    Backed (Element.number size hsize) order values rest := by
  have hbytes : (elementBytes (Element.number size hsize) order values).length =
      values.length * size := by
    induction values with
    | nil => simp [elementBytes]
    | cons a values ih =>
      rw [elementBytes] at ih ⊢
      have hone : ((Element.number size hsize).bytes order a).length = size :=
        order.length_bytes size a.toNat
      rw [List.flatMap_cons, List.length_append, ih, hone, List.length_cons]
      ring
  rw [Backed, hbytes]
  exact Nat.le_add_right _ _

/-- Two strings of three letters are shorter than two string objects of 32 bytes, and are backed
by a message that follows. -/
theorem containers_round_trip_iff_strings :
    ReadsBack {} (writeArray (Element.string 32) {} [[111, 110, 101], [116, 119, 111]])
        (List.replicate 56 7) (readArray (Element.string 32))
        (some [[111, 110, 101], [116, 119, 111]]) ∧
      ReadsBack {} (writeMap Element.bool Element.bool {} [(true, false)]) (List.replicate 56 7)
        (readMap Element.bool Element.bool) (Std.ExtTreeMap.ofList [(true, false)] compare) := by
  have hfits : ∀ str ∈ ([[111, 110, 101], [116, 119, 111]] : List (List UInt8)),
      (Element.string 32).Fits str := by
    simp [Element.string, kMaxReadStringLength]
  have hentries : [(true, false)].Perm (Std.ExtTreeMap.ofList [(true, false)] compare).toList := by
    decide
  have hmap : ∀ entry ∈ [(true, false)], (Element.bool.pair Element.bool).Fits entry := by
    simp [Element.pair, Element.bool]
  have h := (containers_round_trip_iff (Element.string 32) Element.bool Element.bool {} hfits
    (by decide) hentries hmap (by decide) (List.replicate 56 7)).2 (by decide)
  exact ⟨h.2.2.1, h.2.1⟩

/-- **An array of small numbers.**  Three numbers of four bytes, written in the width they need,
take five bytes; both readers of arrays refuse them. -/
theorem small_varints_refused :
    let written := writeArray (Element.varInt 4 (by decide)) {} [1, 0, 2]
    written.data = [1, 3, 1, 1, 0, 1, 2] ∧
      (((readArray (Element.varInt 4 (by decide))).run written).1,
        ((readArray (Element.varInt 4 (by decide))).run written).2.lastError) =
        (none, .readOutOfBounds) ∧
      (((readArrayFixed (Element.varInt 4 (by decide)) 3).run written).1,
        ((readArrayFixed (Element.varInt 4 (by decide)) 3).run written).2.lastError) =
        ([0, 0, 0], .readOutOfBounds) := by
  decide +kernel

end Znet

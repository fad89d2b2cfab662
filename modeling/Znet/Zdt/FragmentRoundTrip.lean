import Znet.Zdt.Integrity
import Znet.Zdt.Reassembly
import Znet.Zdt.SequencedDelivery

/-!
# Fragments there and back

A message too large for one datagram is cut into at most 255 fragments, which arrive in any order,
any number of times, and between records of other messages.  `OnDataFragment` files each under a
number that it rebuilds from sixteen bits.

* `fragments_round_trip` — **in every run whose records are filed where they belong** the message
  is handed on, as it was sent, with its last missing fragment and not before.
-/

namespace Znet
namespace Zdt

/-- A message that is sent in fragments. -/
structure Fragmented where
  /-- The sender's options, which say how much fits a fragment. -/
  config : Config
  queued : QueuedOut
  /-- The number `pack_message` took for it. -/
  seq : Nat
  several : 2 ≤ Transport.fragmentCount config queued.payload.length
  fits : Transport.fragmentCount config queued.payload.length ≤ 255

namespace Fragmented

open Transport

def count (m : Fragmented) : Nat := fragmentCount m.config m.queued.payload.length

/-- The `i`-th fragment. -/
def piece (m : Fragmented) (i : Nat) : PendingRecord :=
  fragmentRecord m.config m.queued m.queued.channel m.seq m.count i

/-- Where the fragments belong. -/
def key (m : Fragmented) : MsgKey :=
  { channel := m.queued.channel, reliable := m.queued.reliable, messageSeq := m.seq }

variable (m : Fragmented) (i : Nat)

theorem count_pos : 0 < m.count := Nat.lt_of_lt_of_le Nat.zero_lt_two m.several

@[simp] theorem channel_piece : (m.piece i).record.channel = m.queued.channel := rfl

@[simp] theorem messageSeq_piece : (m.piece i).record.messageSeq = BitVec.ofNat 16 m.seq := rfl

@[simp] theorem fragCount_piece : (m.piece i).record.fragCount = BitVec.ofNat 8 m.count := rfl

@[simp] theorem hasFlag_piece_fragment : hasFlag (m.piece i).record.flags kRecFragment = true :=
  hasFlag_fragment m.config m.queued m.queued.channel m.seq m.count i

@[simp] theorem hasFlag_piece_reliable :
    hasFlag (m.piece i).record.flags kRecReliable = m.queued.reliable := by
  show hasFlag (recordFlags m.queued.reliable m.queued.ordered ||| kRecFragment) kRecReliable = _
  cases m.queued.reliable <;> cases m.queued.ordered <;> decide

theorem payload_piece :
    (m.piece i).payload = Pieces.piece (fragCapacity m.config) m.queued.payload i :=
  payload_fragmentRecord m.config m.queued m.queued.channel m.seq m.count i

theorem toNat_count : (BitVec.ofNat 8 m.count).toNat = m.count := by
  have hfits : m.count ≤ 255 := m.fits
  rw [BitVec.toNat_ofNat, Nat.mod_eq_of_lt (by omega)]

variable {i}

theorem toNat_index (hi : i < m.count) : (m.piece i).record.fragIndex.toNat = i := by
  have hfits : m.count ≤ 255 := m.fits
  show (BitVec.ofNat 8 i).toNat = i
  rw [BitVec.toNat_ofNat, Nat.mod_eq_of_lt (by omega)]

/-- A fragment begins before the end of the message. -/
theorem offset_lt (hi : i < m.count) : i * fragCapacity m.config < m.queued.payload.length := by
  have hpos : 0 < fragCapacity m.config := by
    unfold fragCapacity packMtu
    omega
  have hle : (i + 1) * fragCapacity m.config ≤
      m.queued.payload.length + fragCapacity m.config - 1 :=
    (Nat.le_div_iff_mul_le hpos).1 hi
  rw [Nat.succ_mul] at hle
  omega

/-- **The split.**  Fragments are not empty, fit, and are the message. -/
theorem split_covers :
    (∀ j < m.count, (m.piece j).payload ≠ [] ∧
        (m.piece j).payload.length ≤ fragCapacity m.config) ∧
      (List.range m.count).flatMap (fun j => (m.piece j).payload) = m.queued.payload := by
  constructor
  · intro j hj
    have hoffset := m.offset_lt hj
    have hpos : 0 < fragCapacity m.config := by
      unfold fragCapacity packMtu
      omega
    rw [payload_piece]
    refine ⟨fun hnil => ?_, ?_⟩
    · have hlen := congrArg List.length hnil
      simp only [Pieces.piece, List.length_take, List.length_drop, List.length_nil] at hlen
      omega
    · simp only [Pieces.piece, List.length_take]
      omega
  · simp only [payload_piece]
    rw [Pieces.flatMap_piece]
    exact List.take_of_length_le (length_le_fragments m.config _)

end Fragmented

namespace Transport

/-! ## Where a fragment is filed -/

variable (t : Transport) (record : ZDTRecord)

/-- A record is filed under a number exactly when the number has its sixteen bits and is in
reach. -/
theorem assemblyKey_eq_iff (m : Fragmented) : t.assemblyKey record = m.key ↔
      record.channel = m.queued.channel ∧ hasFlag record.flags kRecReliable = m.queued.reliable ∧
        record.messageSeq = BitVec.ofNat 16 m.seq ∧
        InWindow (t.expects m.queued.channel m.queued.reliable) m.seq := by
  have hseq := messageSeq_assemblyKey t record
  constructor
  · intro hkey
    have hchannel : record.channel = m.queued.channel := congrArg MsgKey.channel hkey
    have hreliable : hasFlag record.flags kRecReliable = m.queued.reliable :=
      congrArg MsgKey.reliable hkey
    rw [hkey, hchannel, hreliable] at hseq
    have hwire : record.messageSeq = BitVec.ofNat 16 m.seq := by
      rw [show m.seq = m.key.messageSeq from rfl, hseq, reconstructSeq_mod]
    rw [hwire] at hseq
    exact ⟨hchannel, hreliable, hwire, (reconstructSeq_eq_iff _ _).1 hseq.symm⟩
  · rintro ⟨hchannel, hreliable, hwire, hreach⟩
    rw [hchannel, hreliable, hwire, (reconstructSeq_eq_iff _ _).2 hreach] at hseq
    have hrest : t.assemblyKey record = { channel := record.channel
                                          reliable := hasFlag record.flags kRecReliable
                                          messageSeq := (t.assemblyKey record).messageSeq } := rfl
    rw [hrest, hseq, hchannel, hreliable]
    rfl

end Transport

/-! ## Arrivals -/

/-- A fragment of the message arrives, or a record of another message with its number. -/
inductive Arrival where
  | own (now : TimePoint) (i : Nat)
  | other (now : TimePoint) (record : ZDTRecord) (seq : Nat) (data : List UInt8)

namespace Arrival

open Transport

variable (m : Fragmented)

/-- What the receiver does with it. -/
def take (t : Transport) : Arrival → Transport
  | .own now i => (t.onRecord now (m.piece i).record (m.piece i).payload).1
  | .other now record _ data => (t.onRecord now record data).1

/-- A fragment that there is, for which there is room; or a record of a message with another
number, channel or reliability. -/
def Admits (t : Transport) : Arrival → Prop
  | .own _ i => i < m.count ∧ t.atCapacity (m.piece i).record = false
  | .other _ record seq _ =>
    record.messageSeq = BitVec.ofNat 16 seq ∧
      ¬ (record.channel = m.queued.channel ∧
        hasFlag record.flags kRecReliable = m.queued.reliable ∧ seq = m.seq)

/-- The message's number is in reach when a fragment of it is read, and not in reach when a record
is read of a message of its channel and reliability that is a multiple of 65536 away. -/
def Apart (t : Transport) : Arrival → Prop
  | .own _ _ => InWindow (t.expects m.queued.channel m.queued.reliable) m.seq
  | .other _ record seq _ =>
    record.channel = m.queued.channel → hasFlag record.flags kRecReliable = m.queued.reliable →
      seq % 65536 = m.seq % 65536 → ¬ InWindow (t.expects m.queued.channel m.queued.reliable) m.seq

instance (t : Transport) : (a : Arrival) → Decidable (a.Admits m t)
  | .own _ _ => inferInstanceAs (Decidable (_ ∧ _))
  | .other _ _ _ _ => inferInstanceAs (Decidable (_ ∧ ¬ _))

instance (t : Transport) : (a : Arrival) → Decidable (a.Apart m t)
  | .own _ _ => inferInstanceAs (Decidable (InWindow _ _))
  | .other _ _ _ _ => inferInstanceAs (Decidable (_ → _ → _ → ¬ _))

/-- The index of a fragment of the message. -/
def index : Arrival → List Nat
  | .own _ i => [i]
  | .other _ _ _ _ => []

end Arrival

/-- The fragments of the message that have arrived. -/
def arrived (arrivals : List Arrival) : List Nat := arrivals.flatMap Arrival.index

/-- The receiver of a message and of others. -/
def arriving (m : Fragmented) : Machine Transport Arrival := ⟨fun t a => some (a.take m t)⟩

/-! ## The invariant -/

/-- What is held of the message are exactly the fragments `got`, and it was not handed on since
it had been `base` times. -/
structure Gathering (m : Fragmented) (base : Nat) (got : List Nat) (t : Transport) : Prop where
  held : ∀ i : Nat, (((t.reassembly[m.key]?).getD {}).fragments)[i]? =
    if i ∈ got then some (m.piece i).payload else none
  count : ∀ a : Reassembly, t.reassembly[m.key]? = some a → a.fragCount = BitVec.ofNat 8 m.count
  handed : t.handed.count m.key = base
  bound : ∀ i ∈ got, i < m.count

section Steps

open Transport

variable {m : Fragmented} {base : Nat} {got : List Nat} {t : Transport}

variable {record : ZDTRecord} {t' : Transport} {now : TimePoint}

section

variable (h : Gathering m base got t)
include h

/-- A record that is filed elsewhere. -/
theorem Gathering.filed (hfiled : Filed t record t')
    (hkey : t.assemblyKey record ≠ m.key) : Gathering m base got t' := by
  cases hfiled with
  | dropped => exact h
  | kept a bytes =>
    have hsame : (t.reassembly.insert (t.assemblyKey record) a)[m.key]? = t.reassembly[m.key]? := by
      rw [Keyed.getElem?_insert_eq, if_neg (Ne.symm hkey)]
    refine ⟨?_, ?_, h.handed, h.bound⟩
    · dsimp only
      rw [hsame]
      exact h.held
    · dsimp only
      rw [hsame]
      exact h.count
  | handedOn payload bytes =>
    have hsame : (t.reassembly.erase (t.assemblyKey record))[m.key]? = t.reassembly[m.key]? := by
      rw [Keyed.getElem?_erase_eq, if_neg (Ne.symm hkey)]
    refine ⟨?_, ?_, ?_, h.bound⟩
    · show ∀ i : Nat, ((((t.reassembly.erase _)[m.key]?).getD {}).fragments)[i]? = _
      rw [hsame]
      exact h.held
    · show ∀ a : Reassembly, (t.reassembly.erase _)[m.key]? = some a → _
      rw [hsame]
      exact h.count
    · show (t.handed ++ [t.assemblyKey record]).count m.key = base
      rw [List.count_append, List.count_singleton, if_neg (by simpa using hkey)]
      exact h.handed

/-- **A record of another message.** -/
theorem Gathering.other {seq : Nat} {data : List UInt8}
    (hadmits : (Arrival.other now record seq data).Admits m t)
    (hapart : (Arrival.other now record seq data).Apart m t) :
    Gathering m base got ((Arrival.other now record seq data).take m t) := by
  have hkey : t.assemblyKey record ≠ m.key := by
    intro hkey
    obtain ⟨hchannel, hreliable, hwire, hreach⟩ := (assemblyKey_eq_iff t record m).1 hkey
    have hmod : seq % 65536 = m.seq % 65536 := by
      have := congrArg BitVec.toNat (hadmits.1.symm.trans hwire)
      simpa using this
    exact hapart hchannel hreliable hmod hreach
  show Gathering m base got (t.onRecord now record data).1
  unfold onRecord
  split
  · exact h.filed (filed_onDataFragment t now record data) hkey
  · exact { h with }

/-- The fragments held once one more has arrived, and whether they are all. -/
theorem Gathering.collects {i : Nat} (hi : i < m.count) :
    Pieces.Collects (fragCapacity m.config) m.queued.payload m.count
        (((t.reassembly[m.key]?).getD {}).fragments.insert i (m.piece i).payload) ∧
      ((((t.reassembly[m.key]?).getD {}).fragments.insert i (m.piece i).payload).size = m.count ↔
        ∀ j < m.count, j = i ∨ j ∈ got) := by
  have hcollects : Pieces.Collects (fragCapacity m.config) m.queued.payload m.count
      (((t.reassembly[m.key]?).getD {}).fragments.insert i (m.piece i).payload) := by
    rw [m.payload_piece]
    refine Pieces.Collects.insert ?_ hi
    intro j data hj
    rw [h.held] at hj
    split at hj
    · next hmem =>
      rw [← Option.some.inj hj]
      exact ⟨h.bound j hmem, m.payload_piece j⟩
    · cases hj
  refine ⟨hcollects, ?_⟩
  rw [hcollects.size_eq_iff]
  refine forall_congr' fun j => imp_congr_right fun _ => ?_
  rw [Keyed.getElem?_insert_eq, h.held]
  by_cases hji : j = i
  · simp [hji]
  · by_cases hmem : j ∈ got <;> simp [hji, hmem]

/-- What is read and decided when a fragment of the message arrives. -/
theorem Gathering.onDataFragment {i : Nat}
    (hadmits : (Arrival.own now i).Admits m t) (hapart : (Arrival.own now i).Apart m t)
    {fragments : Std.ExtTreeMap Nat (List UInt8) compare}
    (hfragments : ((t.reassembly[m.key]?).getD {}).fragments.insert i (m.piece i).payload =
      fragments) :
    (fragments.size = m.count → ∃ bytes, (Arrival.own now i).take m t =
      deliver { t with
        reassembly := t.reassembly.erase m.key
        reassemblyBytes := bytes
        handed := t.handed ++ [m.key] } (reassembled (m.piece i).record)
        (fragments.toList.flatMap Prod.snd)) ∧
    (fragments.size ≠ m.count → ∃ firstSeen bytes, (Arrival.own now i).take m t =
      { t with
        reassembly := t.reassembly.insert m.key
          { fragCount := BitVec.ofNat 8 m.count, fragments := fragments, firstSeen := firstSeen }
        reassemblyBytes := bytes }) := by
  obtain ⟨hi, hroom⟩ := hadmits
  have hkey : t.assemblyKey (m.piece i).record = m.key := by
    rw [assemblyKey_eq_iff]
    exact ⟨m.channel_piece i, m.hasFlag_piece_reliable i, m.messageSeq_piece i, hapart⟩
  have hindex := m.toNat_index hi
  have hcount : (m.piece i).record.fragCount = BitVec.ofNat 8 m.count := m.fragCount_piece i
  have htotal := m.toNat_count
  have hpos := m.count_pos
  have hform : ¬ ((m.piece i).record.fragCount = 0 ∨
      (m.piece i).record.fragCount ≤ (m.piece i).record.fragIndex) := by
    rw [hcount, BitVec.le_def, htotal, hindex]
    rintro (hzero | hle)
    · rw [hzero] at htotal
      exact absurd htotal.symm hpos.ne'
    · omega
  have hentry : (t.assemblyFor now (m.piece i).record).fragCount =
      (m.piece i).record.fragCount := by
    refine fragCount_assemblyFor now fun a ha => ?_
    rw [hkey] at ha
    rw [h.count a ha, hcount]
  have hheld : (t.assemblyFor now (m.piece i).record).fragments =
      ((t.reassembly[m.key]?).getD {}).fragments := by
    rw [fragments_assemblyFor_eq, heldWith, hkey]
  show (_ → ∃ bytes, (t.onRecord now _ _).1 = _) ∧
    (_ → ∃ firstSeen bytes, (t.onRecord now _ _).1 = _)
  unfold onRecord
  rw [if_pos (m.hasFlag_piece_fragment i)]
  unfold Transport.onDataFragment
  rw [if_neg hform, hroom, if_neg Bool.false_ne_true]
  dsimp only
  rw [hentry, if_neg (not_not.2 rfl), hkey, hheld, hindex, hcount, htotal, hfragments]
  constructor
  · intro hsize
    rw [if_neg (not_not.2 hsize)]
    exact ⟨_, rfl⟩
  · intro hsize
    rw [if_pos hsize]
    exact ⟨_, _, rfl⟩

/-- **A fragment that is not the last.** -/
theorem Gathering.own {i : Nat}
    (hadmits : (Arrival.own now i).Admits m t) (hapart : (Arrival.own now i).Apart m t)
    (hmissing : ∃ j < m.count, j ≠ i ∧ j ∉ got) :
    Gathering m base (got ++ [i]) ((Arrival.own now i).take m t) ∧
      ((Arrival.own now i).take m t).handed = t.handed ∧
      ((Arrival.own now i).take m t).channels = t.channels ∧
      ((Arrival.own now i).take m t).ready = t.ready := by
  have hpart : ¬ (((t.reassembly[m.key]?).getD {}).fragments.insert i (m.piece i).payload).size =
      m.count := by
    rw [(h.collects hadmits.1).2]
    intro hall
    obtain ⟨j, hj, hne, hnew⟩ := hmissing
    exact (hall j hj).elim hne hnew
  obtain ⟨firstSeen, bytes, htake⟩ := (h.onDataFragment hadmits hapart rfl).2 hpart
  rw [htake]
  have hentry : ∀ a : Reassembly, (t.reassembly.insert m.key a)[m.key]? = some a := by
    intro a
    rw [Keyed.getElem?_insert_eq, if_pos rfl]
  refine ⟨⟨?_, ?_, h.handed, ?_⟩, rfl, rfl, rfl⟩
  · intro j
    dsimp only
    rw [hentry, Option.getD_some, Keyed.getElem?_insert_eq, h.held]
    by_cases hji : j = i
    · simp [hji]
    · by_cases hmem : j ∈ got <;> simp [hji, hmem]
  · intro a ha
    dsimp only at ha
    rw [hentry] at ha
    rw [← Option.some.inj ha]
  · exact List.forall_mem_append.2 ⟨h.bound, List.forall_mem_singleton.2 hadmits.1⟩

/-- **The last fragment.** -/
theorem Gathering.last {i : Nat}
    (hadmits : (Arrival.own now i).Admits m t) (hapart : (Arrival.own now i).Apart m t)
    (hall : ∀ j < m.count, j = i ∨ j ∈ got) :
    ∃ bytes, (Arrival.own now i).take m t =
      deliver { t with
        reassembly := t.reassembly.erase m.key
        reassemblyBytes := bytes
        handed := t.handed ++ [m.key] } (reassembled (m.piece i).record) m.queued.payload := by
  obtain ⟨hcollects, hfull⟩ := h.collects hadmits.1
  have hsize := hfull.2 hall
  obtain ⟨bytes, htake⟩ := (h.onDataFragment hadmits hapart rfl).1 hsize
  rw [hcollects.assemble hsize (length_le_fragments m.config _)] at htake
  exact ⟨bytes, htake⟩

end

/-- **A whole run**, up to the last fragment. -/
theorem gathering_run {arrivals : List Arrival}
    (hrun : GuardedRun (arriving m) (fun t a => a.Admits m t ∧ a.Apart m t) t arrivals t')
    (h : Gathering m base got t) (hmissing : ∃ j < m.count, j ∉ got ++ arrived arrivals) :
    Gathering m base (got ++ arrived arrivals) t' := by
  induction hrun generalizing got with
  | nil => simpa [arrived] using h
  | @cons s s' _ a rest hok hnext hrest ih =>
    obtain rfl : a.take m s = s' := Option.some.inj hnext
    obtain ⟨j, hj, hnew⟩ := hmissing
    cases a with
    | own now i =>
      have hgot : got ++ arrived (.own now i :: rest) = got ++ [i] ++ arrived rest := by
        simp [arrived, Arrival.index]
      rw [hgot] at hnew ⊢
      refine ih (h.own hok.1 hok.2 ⟨j, hj, ?_, ?_⟩).1 ⟨j, hj, hnew⟩
      · rintro rfl
        exact hnew (by simp)
      · intro hmem
        exact hnew (by simp [hmem])
    | other now record seq data =>
      have hgot : got ++ arrived (.other now record seq data :: rest) = got ++ arrived rest := by
        simp [arrived, Arrival.index]
      rw [hgot] at hnew ⊢
      exact ih (h.other hok.1 hok.2) ⟨j, hj, hnew⟩

end Steps

/-- **There and back.**  A message needs between 2 and 255 fragments, of any size.

* The fragments are not empty, none is larger than a datagram takes, and together they are the
  message.
* They arrive in any order and any number of times, between records of other messages on any
  channels, at a receiver that holds none of them.  As long as one is missing the message is not
  handed to `DeliverMessage`; when the last missing one arrives `DeliverMessage` gets exactly the
  bytes that were sent, and the entry is gone.

It is so in every run in which each record is filed where it belongs (`Arrival.Apart`). -/
theorem fragments_round_trip (m : Fragmented) (t₀ t : Transport) (arrivals : List Arrival)
    (hfree : t₀.reassembly[m.key]? = none)
    (hrun : GuardedRun (arriving m) (fun t a => a.Admits m t ∧ a.Apart m t) t₀ arrivals t)
    (hmissing : ∃ j < m.count, j ∉ arrived arrivals) :
    ((∀ j < m.count, (m.piece j).payload ≠ [] ∧
        (m.piece j).payload.length ≤ Transport.fragCapacity m.config) ∧
      (List.range m.count).flatMap (fun j => (m.piece j).payload) = m.queued.payload) ∧
    t.handed.count m.key = t₀.handed.count m.key ∧
    ∀ now i, (Arrival.own now i).Admits m t → (Arrival.own now i).Apart m t →
      ((∃ j < m.count, j ≠ i ∧ j ∉ arrived arrivals) →
        ((Arrival.own now i).take m t).handed = t.handed ∧
        ((Arrival.own now i).take m t).channels = t.channels ∧
        ((Arrival.own now i).take m t).ready = t.ready) ∧
      ((∀ j < m.count, j = i ∨ j ∈ arrived arrivals) →
        (∃ bytes, (Arrival.own now i).take m t =
          Transport.deliver { t with
            reassembly := t.reassembly.erase m.key
            reassemblyBytes := bytes
            handed := t.handed ++ [m.key] } (Transport.reassembled (m.piece i).record)
            m.queued.payload) ∧
        ((Arrival.own now i).take m t).reassembly[m.key]? = none) := by
  have hstart : Gathering m (t₀.handed.count m.key) [] t₀ := by
    refine ⟨fun i => ?_, fun a ha => ?_, rfl, by simp⟩
    · simp [hfree]
    · rw [hfree] at ha
      cases ha
  have hgathering := gathering_run hrun hstart (by simpa using hmissing)
  rw [List.nil_append] at hgathering
  refine ⟨m.split_covers, hgathering.handed, fun now i hadmits hapart => ⟨?_, ?_⟩⟩
  · intro hpart
    exact (hgathering.own hadmits hapart hpart).2
  · intro hall
    obtain ⟨bytes, htake⟩ := hgathering.last hadmits hapart hall
    refine ⟨⟨bytes, htake⟩, ?_⟩
    rw [htake]
    show (t.reassembly.erase m.key)[m.key]? = none
    rw [Keyed.getElem?_erase_eq, if_pos rfl]

/-- An unreliable, unordered message of six bytes that is sent three bytes at a time. -/
def sixBytes (payload : List UInt8) (hlength : payload.length = 6) (seq : Nat) : Fragmented where
  config := { mtu := 33 }
  queued := { payload := payload, reliable := false, ordered := false }
  seq := seq
  several := by
    rw [hlength]
    decide
  fits := by
    rw [hlength]
    decide

/-- A fragment of a message, as it arrives among those of another. -/
def Fragmented.arrival (m : Fragmented) (i : Nat) : Arrival :=
  .other 0 (m.piece i).record m.seq (m.piece i).payload

/-- The second fragment comes first, and again behind a fragment of the next message. -/
theorem fragments_round_trip_shuffled :
    ∃ t bytes,
      GuardedRun (arriving (sixBytes [1, 2, 3, 4, 5, 6] rfl 5))
        (fun t a => a.Admits (sixBytes [1, 2, 3, 4, 5, 6] rfl 5) t ∧
          a.Apart (sixBytes [1, 2, 3, 4, 5, 6] rfl 5) t) {}
        [.own 0 1, (sixBytes [7, 7, 7, 7, 7, 7] rfl 6).arrival 0, .own 1 1] t ∧
      (Arrival.own 2 0).take (sixBytes [1, 2, 3, 4, 5, 6] rfl 5) t =
        Transport.deliver { t with
          reassembly := t.reassembly.erase (sixBytes [1, 2, 3, 4, 5, 6] rfl 5).key
          reassemblyBytes := bytes
          handed := t.handed ++ [(sixBytes [1, 2, 3, 4, 5, 6] rfl 5).key] }
          (Transport.reassembled ((sixBytes [1, 2, 3, 4, 5, 6] rfl 5).piece 0).record)
          [1, 2, 3, 4, 5, 6] := by
  have hrun : GuardedRun (arriving (sixBytes [1, 2, 3, 4, 5, 6] rfl 5))
      (fun t a => a.Admits (sixBytes [1, 2, 3, 4, 5, 6] rfl 5) t ∧
        a.Apart (sixBytes [1, 2, 3, 4, 5, 6] rfl 5) t) {}
      [.own 0 1, (sixBytes [7, 7, 7, 7, 7, 7] rfl 6).arrival 0, .own 1 1] _ :=
    .cons (by decide +kernel) rfl
      (.cons (by decide +kernel) rfl (.cons (by decide +kernel) rfl (.nil _)))
  obtain ⟨bytes, htake⟩ := (((fragments_round_trip (sixBytes [1, 2, 3, 4, 5, 6] rfl 5) {} _ _
    (by decide +kernel) hrun ⟨0, by decide +kernel, by decide +kernel⟩).2.2 2 0
    (by decide +kernel) (by decide +kernel)).2 (by decide +kernel)).1
  exact ⟨_, bytes, hrun, htake⟩

/-- **Another message's fragment completes the message.**  Messages 0 and 65536 of one channel: the
first fragment of the one and the second of the other are filed under one number, and
`DeliverMessage` gets their mixture while the second fragment of message 0 is still missing. -/
theorem fragment_completes_another :
    (Arrival.own 0 0).Admits (sixBytes [1, 1, 1, 1, 1, 1] rfl 0) {} ∧
    ((sixBytes [2, 2, 2, 2, 2, 2] rfl 65536).arrival 1).Admits (sixBytes [1, 1, 1, 1, 1, 1] rfl 0)
      ((Arrival.own 0 0).take (sixBytes [1, 1, 1, 1, 1, 1] rfl 0) {}) ∧
    1 < (sixBytes [1, 1, 1, 1, 1, 1] rfl 0).count ∧
    1 ∉ arrived [.own 0 0, (sixBytes [2, 2, 2, 2, 2, 2] rfl 65536).arrival 1] ∧
    (((sixBytes [2, 2, 2, 2, 2, 2] rfl 65536).arrival 1).take (sixBytes [1, 1, 1, 1, 1, 1] rfl 0)
      ((Arrival.own 0 0).take (sixBytes [1, 1, 1, 1, 1, 1] rfl 0) {})).handed =
        [(sixBytes [1, 1, 1, 1, 1, 1] rfl 0).key] ∧
    (((sixBytes [2, 2, 2, 2, 2, 2] rfl 65536).arrival 1).take (sixBytes [1, 1, 1, 1, 1, 1] rfl 0)
      ((Arrival.own 0 0).take (sixBytes [1, 1, 1, 1, 1, 1] rfl 0) {})).ready =
        [[1, 1, 1, 2, 2, 2]] := by
  decide +kernel

end Zdt
end Znet

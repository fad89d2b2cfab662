import Znet.Lib.Tally
import Znet.Zdt.Receiver

/-!
# The reassembly table and its byte counter

`reassembly_` holds the messages of which some fragments have arrived, and `reassembly_bytes_` the
bytes of those fragments.  The counter is unsigned and is moved in five places: a fragment that is
stored, one that overwrites its own copy, a message that becomes whole, and a message that
`PruneReassembly` drops; a refused fragment must leave it alone.

* `reassembly_accounted` — **in every run of fragments, messages and prunes** the invariant holds
  and no subtraction falls below zero.
-/

namespace Znet
namespace Zdt

open Tally

/-! ## Partly received messages -/

/-- The sizes of the fragments of one message, in the order of the loop over them. -/
def Reassembly.sizes (a : Reassembly) : List Nat := a.fragments.toList.map fun f => f.2.length

/-- A message of which some fragments are missing. -/
structure Reassembly.Partly (a : Reassembly) : Prop where
  count : 1 ≤ a.fragCount.toNat
  fewer : a.fragments.size < a.fragCount.toNat
  index : ∀ (i : Nat) (data : List UInt8), a.fragments[i]? = some data → i < a.fragCount.toNat

/-- A fragment after which some are still missing. -/
theorem Reassembly.Partly.insert {a : Reassembly} (h : a.Partly) {i : Nat}
    (hi : i < a.fragCount.toNat) (data : List UInt8)
    (hmissing : (a.fragments.insert i data).size ≠ a.fragCount.toNat) :
    Reassembly.Partly { a with fragments := a.fragments.insert i data } := by
  refine ⟨h.count, ?_, ?_⟩
  · have hsize := Std.ExtTreeMap.size_insert_le (t := a.fragments) (k := i) (v := data)
    have hfewer := h.fewer
    show (a.fragments.insert i data).size < a.fragCount.toNat
    omega
  · intro j bytes hj
    change (a.fragments.insert i data)[j]? = some bytes at hj
    rw [Keyed.getElem?_insert_eq] at hj
    split at hj
    · next hji =>
      rw [hji]
      exact hi
    · exact h.index j bytes hj

namespace Transport

/-! ## The subtractions -/

/-- `counter -= size` for each of the sizes: the counter before each, and the size. -/
def debits : Nat → List Nat → List (Nat × Nat)
  | _, [] => []
  | counter, size :: sizes => (counter, size) :: debits (counter - size) sizes

theorem debits_le {counter : Nat} {sizes : List Nat} (h : sizes.sum ≤ counter) :
    ∀ d ∈ debits counter sizes, d.2 ≤ d.1 := by
  induction sizes generalizing counter with
  | nil => simp [debits]
  | cons size sizes ih =>
    rw [List.sum_cons] at h
    intro d hd
    rcases List.mem_cons.1 hd with rfl | hd
    · dsimp only
      omega
    · exact ih (by omega) d hd

/-- The bytes held for one message, as a sum over its fragments. -/
theorem bytes_eq_total (a : Reassembly) : Reassembly.bytes a = total List.length a.fragments := rfl

/-- What `OnDataFragment` subtracts from the counter. -/
def fragmentDebits (t : Transport) (now : TimePoint) (record : ZDTRecord) (data : List UInt8) :
    List (Nat × Nat) :=
  let a := t.assemblyFor now record
  if record.fragCount = 0 ∨ record.fragCount ≤ record.fragIndex ∨ t.atCapacity record = true ∨
      a.fragCount ≠ record.fragCount then []
  else
    let old := (a.fragments[record.fragIndex.toNat]?).getD []
    let whole := { a with fragments := a.fragments.insert record.fragIndex.toNat data }
    (t.reassemblyBytes, old.length) ::
      if whole.fragments.size ≠ whole.fragCount.toNat then []
      else debits (t.reassemblyBytes - old.length + data.length) (Reassembly.sizes whole)

/-- What `PruneReassembly` subtracts from it. -/
def pruneDebits (t : Transport) (now : TimePoint) : List (Nat × Nat) :=
  debits t.reassemblyBytes ((t.reassembly.toList.filter fun e =>
    decide (t.config.reassemblyTimeout < now - e.2.firstSeen)).flatMap fun e =>
      Reassembly.sizes e.2)

/-! ## The invariant -/

/-- The counter is the sum of what is held, and the table is bounded and holds nothing whole. -/
structure Tallied (t : Transport) : Prop where
  bytes : t.reassemblyBytes = total Reassembly.bytes t.reassembly
  size : t.reassembly.size ≤ t.config.maxReassemblies
  entry : ∀ (key : MsgKey) (a : Reassembly), t.reassembly[key]? = some a → a.Partly

/-- Nothing the invariant reads has changed. -/
theorem Tallied.same {t t' : Transport} (h : Tallied t) (hconfig : t'.config = t.config)
    (hre : t'.reassembly = t.reassembly) (hbytes : t'.reassemblyBytes = t.reassemblyBytes) :
    Tallied t' := by
  refine ⟨?_, ?_, ?_⟩
  · rw [hbytes, hre]
    exact h.bytes
  · rw [hre, hconfig]
    exact h.size
  · rw [hre]
    exact h.entry

theorem toNat_pos_of_ne {n : BitVec 8} (h : n ≠ 0) : 1 ≤ n.toNat := by
  rw [Nat.one_le_iff_ne_zero]
  intro hzero
  exact h (BitVec.eq_of_toNat_eq hzero)

section Entry

variable {t : Transport} (h : Tallied t) (now : TimePoint) (record : ZDTRecord)

include h

/-- The entry a fragment is stored in: the one there is, or an empty one of its count. -/
theorem Tallied.assemblyFor_cases :
    t.reassembly[t.assemblyKey record]? = some (t.assemblyFor now record) ∨
      t.reassembly[t.assemblyKey record]? = none ∧
        t.assemblyFor now record = { fragCount := record.fragCount, firstSeen := now } := by
  unfold assemblyFor
  cases hentry : t.reassembly[t.assemblyKey record]? with
  | none => exact .inr ⟨rfl, rfl⟩
  | some a =>
    have hcount := (h.entry _ _ hentry).count
    have hne : a.fragCount ≠ 0 := by
      intro hzero
      rw [hzero] at hcount
      exact absurd hcount (by decide)
    left
    rw [Option.getD_some, if_neg hne]

theorem Tallied.partly_assemblyFor {record : ZDTRecord} (hcount : record.fragCount ≠ 0) :
    (t.assemblyFor now record).Partly := by
  rcases h.assemblyFor_cases now record with hentry | ⟨-, hfresh⟩
  · exact h.entry _ _ hentry
  · rw [hfresh]
    refine ⟨toNat_pos_of_ne hcount, toNat_pos_of_ne hcount, ?_⟩
    intro i data hdata
    simp at hdata

/-- The counter, split at that entry. -/
theorem Tallied.bytes_split :
    t.reassemblyBytes = Reassembly.bytes (t.assemblyFor now record) +
      total Reassembly.bytes (t.reassembly.erase (t.assemblyKey record)) := by
  rw [h.bytes]
  rcases h.assemblyFor_cases now record with hentry | ⟨hnone, hfresh⟩
  · exact total_of_getElem? hentry
  · rw [hfresh, total_erase_of_none hnone, bytes_eq_total, total_empty, Nat.zero_add]

/-- The table with that entry in it is no larger than configured. -/
theorem Tallied.size_insert {record : ZDTRecord} (hroom : t.atCapacity record = false)
    (a : Reassembly) :
    (t.reassembly.insert (t.assemblyKey record) a).size ≤ t.config.maxReassemblies := by
  rw [Std.ExtTreeMap.size_insert]
  split
  · exact h.size
  · next habsent =>
    have hnone : t.reassembly[t.assemblyKey record]? = none :=
      Std.ExtTreeMap.getElem?_eq_none (by simpa using habsent)
    simp only [atCapacity, hnone, Option.isNone_none, Bool.true_and, Bool.or_eq_false_iff,
      decide_eq_false_iff_not] at hroom
    omega

end Entry

/-- The bytes of a message with one more fragment, or another copy of one. -/
theorem bytes_insert (a : Reassembly) (i : Nat) (data : List UInt8) :
    Reassembly.bytes { a with fragments := a.fragments.insert i data } +
        ((a.fragments[i]?).getD []).length = Reassembly.bytes a + data.length ∧
      ((a.fragments[i]?).getD []).length ≤ Reassembly.bytes a := by
  simp only [bytes_eq_total, total_insert]
  have hsplit := total_erase List.length a.fragments i
  cases hold : a.fragments[i]? with
  | none =>
    rw [hold] at hsplit
    simp only [Option.map_none, Option.getD_none, List.length_nil] at hsplit ⊢
    omega
  | some old =>
    rw [hold] at hsplit
    simp only [Option.map_some, Option.getD_some] at hsplit ⊢
    omega

/-- **A fragment.** -/
theorem Tallied.onDataFragment {t : Transport} (h : Tallied t) (now : TimePoint)
    (record : ZDTRecord) (data : List UInt8) : Tallied (t.onDataFragment now record data).1 := by
  unfold Transport.onDataFragment
  split
  · exact h
  next hform =>
  rw [not_or] at hform
  obtain ⟨hcount, hindex⟩ := hform
  have hi : record.fragIndex.toNat < record.fragCount.toNat :=
    BitVec.lt_def.1 (BitVec.not_le.1 hindex)
  have hpartly := h.partly_assemblyFor now hcount
  have hsplit := h.bytes_split now record
  obtain ⟨hbytes, hold⟩ := bytes_insert (t.assemblyFor now record) record.fragIndex.toNat data
  split
  · exact h
  next hroom =>
  have hsize := h.size_insert (by simpa using hroom)
  dsimp only
  split
  · -- a fragment of another count: the entry is put back as it was
    refine ⟨?_, hsize _, Keyed.forall_insert h.entry hpartly⟩
    rw [total_insert]
    exact hsplit
  next hsame =>
  rw [not_not] at hsame
  split
  · next hmissing =>
    refine ⟨?_, hsize _, Keyed.forall_insert h.entry (hpartly.insert (hsame ▸ hi) data hmissing)⟩
    rw [total_insert]
    dsimp only
    omega
  · -- the message is whole: its entry goes, with its bytes
    refine Tallied.same (t := { t with
      reassembly := t.reassembly.erase (t.assemblyKey record)
      reassemblyBytes := total Reassembly.bytes (t.reassembly.erase (t.assemblyKey record)) })
      ⟨rfl, ?_, Keyed.forall_erase h.entry _⟩ rfl rfl ?_
    · exact Std.ExtTreeMap.size_erase_le.trans h.size
    · show t.reassemblyBytes - _ + _ - _ = total Reassembly.bytes _
      omega

/-- What a fragment subtracts is there. -/
theorem Tallied.fragmentDebits_le {t : Transport} (h : Tallied t) (now : TimePoint)
    (record : ZDTRecord) (data : List UInt8) :
    ∀ d ∈ t.fragmentDebits now record data, d.2 ≤ d.1 := by
  have hsplit := h.bytes_split now record
  obtain ⟨hbytes, hold⟩ := bytes_insert (t.assemblyFor now record) record.fragIndex.toNat data
  unfold fragmentDebits
  dsimp only
  split
  · simp
  · intro d hd
    rcases List.mem_cons.1 hd with rfl | hd
    · dsimp only
      omega
    · split at hd
      · cases hd
      · refine debits_le ?_ d hd
        change Reassembly.bytes _ ≤ _
        omega

/-- **Pruning**, and what it subtracts. -/
theorem Tallied.prune {t : Transport} (h : Tallied t) (now : TimePoint) :
    Tallied (t.pruneReassembly now) ∧ ∀ d ∈ t.pruneDebits now, d.2 ≤ d.1 := by
  have hsplit := total_filter Reassembly.bytes (fun (_ : MsgKey) (a : Reassembly) =>
    !decide (t.config.reassemblyTimeout < now - a.firstSeen)) t.reassembly
  simp only [Bool.not_not] at hsplit
  rw [← h.bytes] at hsplit
  constructor
  · refine ⟨?_, Std.ExtTreeMap.size_filter_le_size.trans h.size, ?_⟩
    · show t.reassemblyBytes - _ = _
      rw [← hsplit, Nat.add_sub_cancel]
      rfl
    · intro key a ha
      change (t.reassembly.filter _)[key]? = some a at ha
      rw [Std.ExtTreeMap.getElem?_filter'] at ha
      exact h.entry key a (Option.filter_eq_some_iff.1 ha).1
  · refine debits_le ?_
    rw [List.flatMap_def, List.sum_flatten, List.map_map]
    change (List.map (fun e : MsgKey × Reassembly => Reassembly.bytes e.2) _).sum ≤ _
    omega

/-! ## What a fragment does -/

/-- Everything `OnDataFragment` can do: nothing, put an entry into the table, or take one out and
hand a message on. -/
inductive Filed (t : Transport) (record : ZDTRecord) : Transport → Prop
  | dropped : Filed t record t
  | kept (a : Reassembly) (bytes : Nat) :
      Filed t record { t with
        reassembly := t.reassembly.insert (t.assemblyKey record) a
        reassemblyBytes := bytes }
  | handedOn (payload : List UInt8) (bytes : Nat) :
      Filed t record (deliver { t with
        reassembly := t.reassembly.erase (t.assemblyKey record)
        reassemblyBytes := bytes
        handed := t.handed ++ [t.assemblyKey record] } (reassembled record) payload)

theorem filed_onDataFragment (t : Transport) (now : TimePoint) (record : ZDTRecord)
    (data : List UInt8) : Filed t record (t.onDataFragment now record data).1 := by
  unfold onDataFragment
  split
  · exact .dropped
  split
  · exact .dropped
  dsimp only
  split
  · exact .kept _ _
  split
  · exact .kept _ _
  · exact .handedOn _ _

/-! ## Whole runs -/

/-- What reaches the table: a fragment, a message of one record (which moves the numbers that
fragments are filed under), or a prune. -/
inductive ReassemblyEvent where
  | fragment (now : TimePoint) (record : ZDTRecord) (data : List UInt8)
  | message (record : ZDTRecord) (data : List UInt8)
  | prune (now : TimePoint)

/-- What an event does. -/
def collect (t : Transport) : ReassemblyEvent → Transport
  | .fragment now record data => (t.onDataFragment now record data).1
  | .message record data => t.deliver record data
  | .prune now => t.pruneReassembly now

/-- The subtractions it makes. -/
def eventDebits (t : Transport) : ReassemblyEvent → List (Nat × Nat)
  | .fragment now record data => t.fragmentDebits now record data
  | .message _ _ => []
  | .prune now => t.pruneDebits now

/-- A fresh transport after a run of them. -/
def collected (config : Config) (es : List ReassemblyEvent) : Transport :=
  es.foldl collect { config := config }

variable (config : Config) (es : List ReassemblyEvent) (t : Transport)

theorem Tallied.collect {t : Transport} (h : Tallied t) (e : ReassemblyEvent) :
    Tallied (t.collect e) := by
  cases e with
  | fragment now record data => exact h.onDataFragment now record data
  | message record data => exact h.same rfl rfl rfl
  | prune now => exact (h.prune now).1

theorem Tallied.eventDebits_le {t : Transport} (h : Tallied t) (e : ReassemblyEvent) :
    ∀ d ∈ t.eventDebits e, d.2 ≤ d.1 := by
  cases e with
  | fragment now record data => exact h.fragmentDebits_le now record data
  | message record data => simp [eventDebits]
  | prune now => exact (h.prune now).2

theorem tallied_collected : Tallied (collected config es) := by
  induction es using List.reverseRecOn with
  | nil =>
    refine ⟨?_, Nat.zero_le _, ?_⟩
    · rw [collected, List.foldl_nil, total_empty]
    · intro key a ha
      simp [collected] at ha
  | append_singleton es e ih =>
    rw [collected, List.foldl_append]
    exact ih.collect e

theorem config_collect (e : ReassemblyEvent) : (t.collect e).config = t.config := by
  cases e with
  | fragment now record data =>
    show (t.onDataFragment now record data).1.config = t.config
    have hfiled := filed_onDataFragment t now record data
    generalize (t.onDataFragment now record data).1 = t' at hfiled
    cases hfiled <;> rfl
  | message record data => rfl
  | prune now => rfl

theorem config_collected : (collected config es).config = config := by
  induction es using List.reverseRecOn with
  | nil => rfl
  | append_singleton es e ih =>
    rw [collected, List.foldl_append]
    exact (config_collect _ e).trans ih

/-- **The table is accounted for.**  After every run of fragments with any fields, messages and
prunes at any times, `reassembly_bytes_` is the sum of the sizes of all stored fragments, there are
at most `max(1, max_reassemblies)` entries, each has a count of at least one, fewer fragments than
that and only indices below it; and whatever comes next, no subtraction from the counter takes away
more than it holds. -/
theorem reassembly_accounted (config : Config) (es : List ReassemblyEvent) :
    (collected config es).reassemblyBytes =
        total (fun a => total List.length a.fragments) (collected config es).reassembly ∧
      (collected config es).reassembly.size ≤ max 1 config.maxReassemblies ∧
      (∀ (key : MsgKey) (a : Reassembly), (collected config es).reassembly[key]? = some a →
        1 ≤ a.fragCount.toNat ∧ a.fragments.size < a.fragCount.toNat ∧
          ∀ (i : Nat) (data : List UInt8), a.fragments[i]? = some data → i < a.fragCount.toNat) ∧
      ∀ (e : ReassemblyEvent), ∀ d ∈ (collected config es).eventDebits e, d.2 ≤ d.1 := by
  have h := tallied_collected config es
  have hsize := h.size
  rw [config_collected] at hsize
  refine ⟨h.bytes, hsize.trans (Nat.le_max_right _ _), ?_, h.eventDebits_le⟩
  intro key a ha
  have hpartly := h.entry key a ha
  exact ⟨hpartly.count, hpartly.fewer, hpartly.index⟩

end Transport
end Zdt
end Znet

import Znet.Lib.Machine

/-!
# Snapshots to build deltas from

The `SnapshotHistory` of the delta extension (`history.h`, `sequence.h`).  A sender numbers its
snapshots with a counter that wraps, keeps the last of them in a ring, and builds a delta against
the newest one its peer has acknowledged.  A slot is found again by the number it carries, which
is as wide as the counter.

* `history_keeps_window` — **the last `Capacity` snapshots are found, and nothing else**, for the
  capacities that divide the number of sequence values and only for those.
* `unmarked`, `baseline_acknowledged` — **the baseline is one the peer has**, as long as no
  snapshot is stored under the very number that is marked; where one is, the baseline is it.
-/

namespace Znet
namespace Ext

/-! ## The history -/

structure Slot (T : Type) (w : Nat) where
  value : T
  sequence : BitVec w := 0
  occupied : Bool := false

structure SnapshotHistory (T : Type) (capacity w : Nat) where
  slots : Vector (Slot T w) capacity
  acknowledgedValue : BitVec w := 0
  hasAcknowledged : Bool := false

/-- `SequenceHalfRange`. -/
def sequenceHalfRange (w : Nat) : BitVec w := BitVec.ofNat w ((2 ^ w - 1) / 2 + 1)

/-- `SequenceGreaterThan`. -/
def sequenceGreaterThan {w : Nat} (a b : BitVec w) : Bool :=
  decide (b < a ∧ a - b ≤ sequenceHalfRange w) || decide (a < b ∧ sequenceHalfRange w < b - a)

namespace SnapshotHistory

variable {T : Type} {capacity w : Nat}

/-- A history with nothing in it. -/
def empty (T : Type) [Inhabited T] (capacity w : Nat) : SnapshotHistory T capacity w where
  slots := Vector.replicate capacity { value := default }

/-- The slot of a number. -/
def slotOf (capacity : Nat) [NeZero capacity] (sequence : BitVec w) : Fin capacity :=
  Fin.ofNat capacity sequence.toNat

section

variable [NeZero capacity]

/-- `Store`. -/
def store (h : SnapshotHistory T capacity w) (sequence : BitVec w) (snapshot : T) :
    SnapshotHistory T capacity w :=
  { h with
    slots := h.slots.set (slotOf capacity sequence).val
      { value := snapshot, sequence, occupied := true } (slotOf capacity sequence).isLt }

/-- `Find`. -/
def find (h : SnapshotHistory T capacity w) (sequence : BitVec w) : Option T :=
  let slot := h.slots.get (slotOf capacity sequence)
  if !slot.occupied || slot.sequence != sequence then none else some slot.value

/-- `Acknowledge`. -/
def acknowledge (h : SnapshotHistory T capacity w) (sequence : BitVec w) :
    SnapshotHistory T capacity w :=
  if !h.hasAcknowledged || sequenceGreaterThan sequence h.acknowledgedValue then
    { h with hasAcknowledged := true, acknowledgedValue := sequence }
  else h

/-- `acknowledged`. -/
def acknowledged (h : SnapshotHistory T capacity w) : BitVec w := h.acknowledgedValue

/-- `AcknowledgedSnapshot`. -/
def acknowledgedSnapshot (h : SnapshotHistory T capacity w) : Option T :=
  if !h.hasAcknowledged then none else h.find h.acknowledgedValue

/-! ### What each of them does -/

variable (h : SnapshotHistory T capacity w)
include h

theorem find_store_self (sequence : BitVec w) (snapshot : T) :
    (h.store sequence snapshot).find sequence = some snapshot := by
  simp [find, store, Vector.get_eq_getElem]

/-- A number loses its slot to another one. -/
theorem find_store_of_slot_eq {sequence other : BitVec w}
    (hne : sequence ≠ other) (hslot : slotOf capacity sequence = slotOf capacity other)
    (snapshot : T) : (h.store sequence snapshot).find other = none := by
  simp [find, store, Vector.get_eq_getElem, hslot, hne]

theorem find_store_of_slot_ne {sequence other : BitVec w}
    (hslot : slotOf capacity sequence ≠ slotOf capacity other) (snapshot : T) :
    (h.store sequence snapshot).find other = h.find other := by
  have hval : (slotOf capacity sequence).val ≠ (slotOf capacity other).val :=
    fun h => hslot (Fin.ext h)
  simp [find, store, Vector.get_eq_getElem, Vector.getElem_set_ne _ _ hval]

/-- Storing leaves the other numbers, but for the one that loses its slot. -/
theorem find_store_of_ne {sequence other : BitVec w} (hne : sequence ≠ other) (snapshot : T) :
    (h.store sequence snapshot).find other = none ∨
      (h.store sequence snapshot).find other = h.find other := by
  by_cases hslot : slotOf capacity sequence = slotOf capacity other
  · exact .inl (h.find_store_of_slot_eq hne hslot snapshot)
  · exact .inr (h.find_store_of_slot_ne hslot snapshot)

@[simp] theorem find_acknowledge (sequence other : BitVec w) :
    (h.acknowledge sequence).find other = h.find other := by
  rw [acknowledge]
  split <;> rfl

end

end SnapshotHistory

/-! ## The window

Snapshots stored under consecutive numbers, given by their full numbers. -/

section

variable {T : Type} [Inhabited T] {capacity w : Nat} [NeZero capacity]

/-- The history after `n` snapshots, the first of them `first`. -/
def storedFrom (capacity w : Nat) [NeZero capacity] (snapshot : Nat → T) (first : Nat) :
    Nat → SnapshotHistory T capacity w
  | 0 => .empty T capacity w
  | n + 1 => (storedFrom capacity w snapshot first n).store (BitVec.ofNat w (first + n))
      (snapshot (first + n))

/-- Among the last `capacity` of the `n` snapshots from `first` on. -/
def InWindow (capacity first n k : Nat) : Prop :=
  first ≤ k ∧ k < first + n ∧ first + n ≤ k + capacity

instance (capacity first n k : Nat) : Decidable (InWindow capacity first n k) :=
  inferInstanceAs (Decidable (_ ∧ _ ∧ _))

/-- The snapshots of the window are found, and nothing else is. -/
structure KeepsWindow (snapshot : Nat → T) (first n : Nat) (h : SnapshotHistory T capacity w) :
    Prop where
  found : ∀ k, InWindow capacity first n k → h.find (BitVec.ofNat w k) = some (snapshot k)
  gone : ∀ sequence, (∀ k, InWindow capacity first n k → BitVec.ofNat w k ≠ sequence) →
    h.find sequence = none

/-- Within a period different snapshots have different numbers. -/
theorem ofNat_ne_of_lt {k n : Nat} (hlt : k < n) (hperiod : n < k + 2 ^ w) :
    BitVec.ofNat w n ≠ BitVec.ofNat w k := by
  intro heq
  have hmod : n % 2 ^ w = k % 2 ^ w := by
    simpa only [BitVec.toNat_ofNat] using congrArg BitVec.toNat heq
  obtain ⟨d, rfl⟩ := Nat.exists_eq_add_of_lt hlt
  have hzero : (d + 1) % 2 ^ w = 0 := by
    have hsub := Nat.sub_mod_eq_zero_of_mod_eq hmod
    have : k + d + 1 - k = d + 1 := by omega
    rwa [this] at hsub
  rw [Nat.mod_eq_of_lt (by omega)] at hzero
  cases hzero

theorem slotOf_ofNat (k : Nat) :
    (SnapshotHistory.slotOf capacity (BitVec.ofNat w k)).val = k % 2 ^ w % capacity := by
  simp [SnapshotHistory.slotOf]

variable {snapshot : Nat → T} {first n : Nat}

theorem keepsWindow_empty : KeepsWindow snapshot first 0 (.empty T capacity w) := by
  refine ⟨fun k hk => ?_, fun sequence _ => ?_⟩
  · have := hk.1
    have := hk.2.1
    omega
  · simp [SnapshotHistory.empty, SnapshotHistory.find, Vector.get_eq_getElem]

omit [Inhabited T] in
/-- Where the capacity divides the period, the slots follow the full numbers: storing one more
snapshot takes the slot of the oldest of a full window and no other. -/
theorem KeepsWindow.store {h : SnapshotHistory T capacity w} (hdvd : capacity ∣ 2 ^ w)
    (hh : KeepsWindow snapshot first n h) :
    KeepsWindow snapshot first (n + 1)
      (h.store (BitVec.ofNat w (first + n)) (snapshot (first + n))) := by
  have hslot : ∀ k, SnapshotHistory.slotOf capacity (BitVec.ofNat w (first + n)) =
      SnapshotHistory.slotOf capacity (BitVec.ofNat w k) ↔
        (first + n) % capacity = k % capacity := by
    intro k
    rw [Fin.ext_iff, slotOf_ofNat, slotOf_ofNat, Nat.mod_mod_of_dvd _ hdvd,
      Nat.mod_mod_of_dvd _ hdvd]
  refine ⟨fun k hk => ?_, fun sequence hsequence => ?_⟩
  · obtain ⟨hfirst, hlast, hwindow⟩ := hk
    by_cases hlt : k < first + n
    · rw [h.find_store_of_slot_ne]
      · exact hh.found k ⟨hfirst, hlt, by omega⟩
      · rw [Ne, hslot]
        intro hmod
        have hzero := Nat.sub_mod_eq_zero_of_mod_eq hmod
        rw [Nat.mod_eq_of_lt (by omega)] at hzero
        omega
    · obtain rfl : k = first + n := by omega
      exact h.find_store_self _ _
  · have hne : BitVec.ofNat w (first + n) ≠ sequence :=
      hsequence (first + n) ⟨by omega, by omega, by have := NeZero.pos capacity; omega⟩
    by_cases hsame : SnapshotHistory.slotOf capacity (BitVec.ofNat w (first + n)) =
        SnapshotHistory.slotOf capacity sequence
    · exact h.find_store_of_slot_eq hne hsame _
    · rw [h.find_store_of_slot_ne hsame]
      apply hh.gone
      rintro k ⟨hfirst, hlast, hwindow⟩ rfl
      rw [hslot] at hsame
      by_cases hstays : first + (n + 1) ≤ k + capacity
      · exact hsequence k ⟨hfirst, by omega, hstays⟩ rfl
      · -- the one that leaves the window is a whole capacity older
        have hage : first + n = k + capacity := by omega
        exact hsame (by rw [hage, Nat.add_mod_right])

theorem keepsWindow_storedFrom (hdvd : capacity ∣ 2 ^ w) :
    KeepsWindow snapshot first n (storedFrom capacity w snapshot first n) := by
  induction n with
  | zero => exact keepsWindow_empty
  | succ n ih => exact ih.store hdvd

/-- Where it does not, the last number before the wrap has the slot of one soon after it. -/
theorem evicted_at_wrap (hcapacity : capacity ≤ 2 ^ w) (hdvd : ¬ capacity ∣ 2 ^ w) :
    (storedFrom capacity w snapshot (2 ^ w - 1) (2 ^ w % capacity + 1)).find
      (BitVec.ofNat w (2 ^ w - 1)) = none := by
  have hlt : 2 ^ w % capacity < capacity := Nat.mod_lt _ (NeZero.pos capacity)
  have hnumber : 2 ^ w - 1 + 2 ^ w % capacity = 2 ^ w + (2 ^ w % capacity - 1) := by omega
  have hlast : (2 ^ w - 1) % capacity = 2 ^ w % capacity - 1 := by
    have hdiv := Nat.div_add_mod (2 ^ w) capacity
    have : 2 ^ w - 1 = capacity * (2 ^ w / capacity) + (2 ^ w % capacity - 1) := by omega
    rw [this, Nat.mul_add_mod, Nat.mod_eq_of_lt (by omega)]
  apply SnapshotHistory.find_store_of_slot_eq
  · apply ofNat_ne_of_lt <;> omega
  · rw [Fin.ext_iff, slotOf_ofNat, slotOf_ofNat, hnumber, Nat.add_mod_left,
      Nat.mod_eq_of_lt (by omega : 2 ^ w % capacity - 1 < 2 ^ w),
      Nat.mod_eq_of_lt (by omega : 2 ^ w - 1 < 2 ^ w), hlast, Nat.mod_eq_of_lt (by omega)]

/-- **The history keeps its whole window** where the capacity divides the number of sequence
values, over every run of consecutive numbers; for any other capacity there is a run across the
wrap after which it does not. -/
theorem history_keeps_window (T : Type) [Inhabited T] (capacity w : Nat) [NeZero capacity]
    (hcapacity : capacity ≤ 2 ^ w) :
    (∀ (snapshot : Nat → T) (first n : Nat),
      KeepsWindow snapshot first n (storedFrom capacity w snapshot first n)) ↔
    capacity ∣ 2 ^ w := by
  refine ⟨fun hkeeps => ?_, fun hdvd snapshot first n => keepsWindow_storedFrom hdvd⟩
  by_contra hdvd
  have hlt : 2 ^ w % capacity < capacity := Nat.mod_lt _ (NeZero.pos capacity)
  have hfound := (hkeeps (fun _ => default) (2 ^ w - 1) (2 ^ w % capacity + 1)).found (2 ^ w - 1)
    ⟨by omega, by omega, by omega⟩
  rw [evicted_at_wrap hcapacity hdvd] at hfound
  cases hfound

end

/-- A window of eight, as the numbers are eight bits wide. -/
theorem history_keeps_window_eight :
    8 ≤ 2 ^ 8 ∧ KeepsWindow id 250 20 (storedFrom 8 8 id 250 20) :=
  ⟨by decide, (history_keeps_window Nat 8 8 (by decide)).2 (by decide) id 250 20⟩

/-- **A window of three.**  65535 and 0 share a slot: the snapshot before the newest is gone, and
65533, three before it, is still there. -/
theorem window_of_three_at_wrap :
    let h := storedFrom 3 16 id 65533 4
    h.find (BitVec.ofNat 16 65535) = none ∧ InWindow 3 65533 4 65535 ∧
      h.find (BitVec.ofNat 16 65533) = some 65533 ∧ ¬ InWindow 3 65533 4 65533 := by
  decide +kernel

/-! ## A sender -/

/-- A sender: its history, the full number of its next snapshot, and as history the full numbers
its peer has acknowledged. -/
structure DeltaSender (T : Type) (capacity w : Nat) where
  history : SnapshotHistory T capacity w
  next : Nat
  acked : List Nat := []

inductive HistoryEvent where
  | store
  /-- The acknowledgement of a snapshot arrives. -/
  | acknowledge (number : Nat)

section

variable {T : Type} {capacity w : Nat} [NeZero capacity]

/-- Runs of a sender whose snapshots are given by their full numbers, from `first` on.  An
acknowledgement is of a snapshot that was stored, and less than half a period late. -/
def deltaSender (snapshot : Nat → T) (first : Nat) :
    Machine (DeltaSender T capacity w) HistoryEvent where
  step s
    | .store =>
      some { s with
        history := s.history.store (BitVec.ofNat w s.next) (snapshot s.next)
        next := s.next + 1 }
    | .acknowledge number =>
      if first ≤ number ∧ number < s.next ∧ s.next - 1 - number < 2 ^ (w - 1) then
        some { s with
          history := s.history.acknowledge (BitVec.ofNat w number)
          acked := number :: s.acked }
      else none

/-- A sender before its first snapshot. -/
def newSender (T : Type) [Inhabited T] (capacity w first : Nat) : DeltaSender T capacity w where
  history := .empty T capacity w
  next := first

/-- What the history holds: of the last period nothing but the snapshots themselves, and under
the marked number nothing but the snapshot that was acknowledged. -/
structure Kept (snapshot : Nat → T) (s : DeltaSender T capacity w) : Prop where
  recent : ∀ k, k < s.next → s.next ≤ k + 2 ^ w → ∀ x, s.history.find (BitVec.ofNat w k) = some x →
    x = snapshot k
  stored : ∀ k ∈ s.acked, k < s.next
  marked : s.history.hasAcknowledged = true → ∃ k ∈ s.acked,
    BitVec.ofNat w k = s.history.acknowledgedValue ∧
      ∀ x, s.history.find s.history.acknowledgedValue = some x → x = snapshot k

/-- No snapshot is stored under the number that is marked. -/
def unmarked (s : DeltaSender T capacity w) : HistoryEvent → Bool
  | .store => !(s.history.hasAcknowledged &&
      decide (BitVec.ofNat w s.next = s.history.acknowledgedValue))
  | .acknowledge _ => true

theorem kept_new [Inhabited T] (snapshot : Nat → T) (first : Nat) :
    Kept snapshot (newSender T capacity w first) := by
  refine ⟨fun k _ _ x h => ?_, fun k hk => ?_, fun h => ?_⟩
  · simp [newSender, SnapshotHistory.empty, SnapshotHistory.find, Vector.get_eq_getElem] at h
  · cases hk
  · cases h

variable {snapshot : Nat → T} {s : DeltaSender T capacity w} {first : Nat}

theorem Kept.store (hs : Kept snapshot s) (hunmarked : unmarked s .store = true) :
    Kept snapshot
      { s with
        history := s.history.store (BitVec.ofNat w s.next) (snapshot s.next)
        next := s.next + 1 } := by
  refine ⟨fun k hk hperiod x hx => ?_, fun k hk => ?_, fun hmark => ?_⟩
  · simp only at hk hperiod hx
    rcases Nat.lt_succ_iff_lt_or_eq.1 hk with hlt | rfl
    · have hne := ofNat_ne_of_lt (w := w) hlt (by omega)
      rcases s.history.find_store_of_ne hne (snapshot s.next) with hgone | hsame
      · rw [hgone] at hx
        cases hx
      · rw [hsame] at hx
        exact hs.recent k hlt (by omega) x hx
    · rw [SnapshotHistory.find_store_self] at hx
      exact (Option.some.inj hx).symm
  · exact Nat.lt_succ_of_lt (hs.stored k hk)
  · obtain ⟨k, hk, hnumber, hfind⟩ := hs.marked hmark
    refine ⟨k, hk, hnumber, fun x hx => ?_⟩
    -- the number being stored is not the marked one
    have hmark' : s.history.hasAcknowledged = true := hmark
    simp only [unmarked, hmark', Bool.true_and, Bool.not_eq_true', decide_eq_false_iff_not]
      at hunmarked
    rcases s.history.find_store_of_ne hunmarked (snapshot s.next) with hgone | hsame
    · exact absurd (hgone.symm.trans hx) (by simp)
    · exact hfind x (hsame.symm.trans hx)

theorem Kept.acknowledge (hs : Kept snapshot s) {number : Nat} (hlt : number < s.next)
    (hdelay : s.next - 1 - number < 2 ^ (w - 1)) :
    Kept snapshot
      { s with
        history := s.history.acknowledge (BitVec.ofNat w number)
        acked := number :: s.acked } := by
  have hhalf : 2 ^ (w - 1) ≤ 2 ^ w := Nat.pow_le_pow_right (by decide) (Nat.sub_le w 1)
  refine ⟨fun k hk hperiod x hx => ?_, fun k hk => ?_, fun hmark => ?_⟩
  · exact hs.recent k hk hperiod x (by simpa using hx)
  · rcases List.mem_cons.1 hk with rfl | hk
    · exact hlt
    · exact hs.stored k hk
  · rw [SnapshotHistory.acknowledge] at hmark ⊢
    split
    · -- the mark moves to the snapshot that is acknowledged, which is still of the last period
      exact ⟨number, List.mem_cons_self, rfl, hs.recent number hlt (by omega)⟩
    · next hstays =>
      rw [if_neg hstays] at hmark
      obtain ⟨k, hk, hmarked⟩ := hs.marked hmark
      exact ⟨k, List.mem_cons_of_mem _ hk, hmarked⟩

theorem Kept.step {t : DeltaSender T capacity w} {e : HistoryEvent} (hs : Kept snapshot s)
    (hunmarked : unmarked s e = true) (hstep : (deltaSender snapshot first).step s e = some t) :
    Kept snapshot t := by
  cases e with
  | store =>
    cases hstep
    exact hs.store hunmarked
  | acknowledge number =>
    obtain ⟨hstored, ⟨⟩⟩ := Option.ite_none_right_eq_some.1 hstep
    exact hs.acknowledge hstored.2.1 hstored.2.2

theorem kept_of_run [Inhabited T] {es : List HistoryEvent}
    (hrun : GuardedRun (deltaSender snapshot first) (fun s e => unmarked s e = true)
      (newSender T capacity w first) es s) : Kept snapshot s :=
  hrun.invariant (I := Kept snapshot) (fun _ _ _ hs hunmarked hstep => hs.step hunmarked hstep)
    (kept_new snapshot first)

/-- **The baseline is one the peer has.**  Over every run in which no snapshot is stored under the
number that is marked: the baseline, if there is one, is a snapshot the peer has acknowledged, and
the mark is its number.  And where such a run goes on with a snapshot under the marked number, the
baseline is that snapshot, which nobody has acknowledged. -/
theorem baseline_acknowledged [Inhabited T] {snapshot : Nat → T} {first : Nat}
    {s : DeltaSender T capacity w} {es : List HistoryEvent}
    (hrun : GuardedRun (deltaSender snapshot first) (fun s e => unmarked s e = true)
      (newSender T capacity w first) es s) :
    (∀ x, s.history.acknowledgedSnapshot = some x →
      ∃ k ∈ s.acked, x = snapshot k ∧ BitVec.ofNat w k = s.history.acknowledged) ∧
    ∀ t, (deltaSender snapshot first).step s .store = some t → unmarked s .store = false →
      t.history.acknowledgedSnapshot = some (snapshot s.next) ∧ s.next ∉ t.acked := by
  have hs := kept_of_run hrun
  refine ⟨fun x hx => ?_, fun t hstep hmarked => ?_⟩
  · rw [SnapshotHistory.acknowledgedSnapshot] at hx
    split at hx
    · cases hx
    · next hmark =>
        obtain ⟨k, hk, hnumber, hfind⟩ := hs.marked (by simpa using hmark)
        exact ⟨k, hk, hfind x hx, hnumber⟩
  · cases hstep
    simp only [unmarked, Bool.not_eq_false', Bool.and_eq_true, decide_eq_true_eq] at hmarked
    obtain ⟨hmark, hnumber⟩ := hmarked
    refine ⟨?_, fun hmem => lt_irrefl _ (hs.stored _ hmem)⟩
    have hmark' : (s.history.store (BitVec.ofNat w s.next) (snapshot s.next)).hasAcknowledged =
        true := hmark
    rw [SnapshotHistory.acknowledgedSnapshot, if_neg (by simp [hmark'])]
    show (s.history.store (BitVec.ofNat w s.next) (snapshot s.next)).find
      s.history.acknowledgedValue = _
    rw [← hnumber]
    exact s.history.find_store_self _ _

end

/-- Three snapshots, and the second is acknowledged. -/
theorem baseline_acknowledged_second :
    ∃ s : DeltaSender Nat 8 16, GuardedRun (deltaSender id 0) (fun s e => unmarked s e = true)
        (newSender Nat 8 16 0) [.store, .store, .acknowledge 1, .store] s ∧
      s.history.acknowledgedSnapshot = some 1 ∧ 1 ∈ s.acked := by
  apply GuardedRun.exists_run (P := fun s => s.history.acknowledgedSnapshot = some 1)
    (by decide +kernel)
  intro s hrun hbaseline
  obtain ⟨k, hk, rfl, -⟩ := (baseline_acknowledged hrun).1 1 hbaseline
  exact ⟨hbaseline, hk⟩

/-- **A whole period of silence.**  The peer acknowledges snapshot 0 and nothing after it; snapshot
256 has the same number of eight bits and the same slot, and becomes the baseline. -/
theorem silent_peer_gets_new_baseline :
    ((deltaSender id 0).exec (newSender Nat 8 8 0)
        (.store :: .acknowledge 0 :: List.replicate 256 .store)).map
      (fun s => (s.history.acknowledgedSnapshot, s.acked)) = some (some 256, [0]) := by
  decide +kernel

end Ext
end Znet

import Znet.Queue.Mpsc

/-!
# The bounded queue's ring

Positions are counted without bound here: `n` stands for the `n`-th position ever claimed, and the
ring only sees it modulo `2 ^ 64`.  Between the first position that was not handed back and a lap
further on each slot belongs to one position, and its sequence says how far that position has come.

* `MpscRing.distance` — **what a look at a slot says**: fewer than `2 ^ 62` positions claimed during
  a call keep a stale cursor on the right side of `kBehind`.
-/

namespace Znet
namespace Queue

variable {α : Type}

/-! ## Positions modulo `2 ^ 64` -/

theorem ofNat_succ (n : Nat) : BitVec.ofNat 64 n + 1 = BitVec.ofNat 64 (n + 1) :=
  (BitVec.ofNat_add n 1).symm

theorem ofNat_inj {a b : Nat} (ha : a < 2 ^ 64) (hb : b < 2 ^ 64) :
    BitVec.ofNat 64 a = BitVec.ofNat 64 b ↔ a = b := by
  rw [← BitVec.toNat_inj, BitVec.toNat_ofNat, BitVec.toNat_ofNat, Nat.mod_eq_of_lt ha,
    Nat.mod_eq_of_lt hb]

theorem ofNat_ne_succ (n : Nat) : BitVec.ofNat 64 n ≠ BitVec.ofNat 64 (n + 1) := by
  intro h
  have hnat := congrArg BitVec.toNat h
  simp only [BitVec.toNat_ofNat] at hnat
  omega

variable {a b : Nat}

/-- Positions that are close to each other are told apart. -/
theorem eq_of_ofNat_eq (hle : a ≤ b) (hlt : b < a + 2 ^ 64)
    (h : BitVec.ofNat 64 a = BitVec.ofNat 64 b) : a = b := by
  have hnat := congrArg BitVec.toNat h
  simp only [BitVec.toNat_ofNat] at hnat
  omega

/-- A sequence ahead of a position, by less than half the range. -/
theorem distance_ahead (hlt : b < a) (hnear : a < b + 2 ^ 63) :
    BitVec.ofNat 64 a - BitVec.ofNat 64 b ≠ 0 ∧
      ¬ kBehind < BitVec.ofNat 64 a - BitVec.ofNat 64 b := by
  constructor
  · intro h
    have heq := eq_of_ofNat_eq hlt.le (by omega) (sub_eq_zero.1 h).symm
    omega
  · rw [BitVec.lt_def]
    simp only [kBehind, BitVec.toNat_sub, BitVec.toNat_ofNat]
    omega

/-- A sequence behind a position, by less than half the range. -/
theorem distance_behind (hlt : a < b) (hnear : b < a + 2 ^ 63) :
    BitVec.ofNat 64 a - BitVec.ofNat 64 b ≠ 0 ∧
      kBehind < BitVec.ofNat 64 a - BitVec.ofNat 64 b := by
  constructor
  · intro h
    have heq := eq_of_ofNat_eq hlt.le (by omega) (sub_eq_zero.1 h)
    omega
  · rw [BitVec.lt_def]
    simp only [kBehind, BitVec.toNat_sub, BitVec.toNat_ofNat]
    omega

namespace MpscQueue

/-- How many slots the ring has. -/
def slots (q : MpscQueue α) : Nat := q.mask.toNat + 1

/-- The slot of a position. -/
def slot (q : MpscQueue α) (n : Nat) : MpscCell α := q.cell (BitVec.ofNat 64 n)

variable {k : Nat}

theorem index_eq {q : MpscQueue α} (hk : k ≤ 62) (h : q.slots = 2 ^ k) (n : Nat) :
    BitVec.ofNat 64 n &&& q.mask = BitVec.ofNat 64 (n % q.slots) := by
  have hmask : q.mask.toNat = 2 ^ k - 1 := by
    unfold slots at h
    omega
  have hdvd : 2 ^ k ∣ 2 ^ 64 := Nat.pow_dvd_pow 2 (by omega)
  have hlt : n % 2 ^ k < 2 ^ 64 :=
    lt_of_lt_of_le (Nat.mod_lt _ (Nat.two_pow_pos k)) (Nat.pow_le_pow_right (by decide) (by omega))
  apply BitVec.eq_of_toNat_eq
  rw [BitVec.toNat_and, BitVec.toNat_ofNat, BitVec.toNat_ofNat, hmask,
    Nat.and_two_pow_sub_one_eq_mod, Nat.mod_mod_of_dvd n hdvd, h, Nat.mod_eq_of_lt hlt]

theorem slot_setCell {q : MpscQueue α} (hk : k ≤ 62) (h : q.slots = 2 ^ k) (m n : Nat)
    (c : MpscCell α) : (q.setCell (BitVec.ofNat 64 m &&& q.mask) c).slot n =
      if n % q.slots = m % q.slots then c else q.slot n := by
  have hsmall : ∀ i, i % q.slots < 2 ^ 64 := by
    intro i
    rw [h]
    exact lt_of_lt_of_le (Nat.mod_lt _ (Nat.two_pow_pos k))
      (Nat.pow_le_pow_right (by decide) (by omega))
  show Function.update q.cells _ c (BitVec.ofNat 64 n &&& q.mask) = _
  rw [Function.update_apply, index_eq hk h, index_eq hk h]
  by_cases hmod : n % q.slots = m % q.slots
  · rw [if_pos (by rw [hmod]), if_pos hmod]
  · rw [if_neg (mt (ofNat_inj (hsmall n) (hsmall m)).1 hmod), if_neg hmod, ← index_eq hk h]
    rfl

end MpscQueue

/-! ## The ring -/

variable (q : MpscQueue α)

/-- The cells, the cursors and the history. -/
structure MpscRing : Prop where
  pow : ∃ k, 1 ≤ k ∧ k ≤ 62 ∧ q.slots = 2 ^ k
  enqueue : q.enqueue = BitVec.ofNat 64 q.claimed.length
  released_le : q.released ≤ q.popped.length
  popped_le : q.popped.length ≤ q.claimed.length
  claimed_le : q.claimed.length ≤ q.released + q.slots
  /-- A free slot waits for the position that will claim it. -/
  free : ∀ n, q.claimed.length ≤ n → n < q.released + q.slots →
    q.slot n = ⟨BitVec.ofNat 64 n, none⟩
  /-- A claimed slot is stored into or not yet. -/
  busy : ∀ n, q.released ≤ n → n < q.claimed.length →
    (q.slot n).sequence = BitVec.ofNat 64 n ∨ (q.slot n).sequence = BitVec.ofNat 64 (n + 1)
  /-- What was stored is what was claimed for the position. -/
  unread : ∀ n, q.popped.length ≤ n → n < q.claimed.length →
    (q.slot n).sequence = BitVec.ofNat 64 (n + 1) → (q.slot n).value = q.claimed[n]?
  /-- What was moved out and not handed back. -/
  moved : ∀ n, q.released ≤ n → n < q.popped.length →
    q.slot n = ⟨BitVec.ofNat 64 (n + 1), none⟩
  popped : q.popped = (q.claimed.take q.popped.length).map some
  pushed : ∀ p ∈ q.pushed, q.claimed[p.1]? = some p.2 ∧
    (q.released ≤ p.1 → (q.slot p.1).sequence = BitVec.ofNat 64 (p.1 + 1))
  once : (q.pushed.map Prod.fst).Nodup

/-- The consumer is between two values. -/
structure Rest : Prop where
  dequeue : q.dequeue = BitVec.ofNat 64 q.released
  moved : q.popped.length = q.released

/-- The consumer has moved a value out of slot `i` and not handed the slot back. -/
structure Taken (i : BitVec 64) : Prop where
  dequeue : q.dequeue = BitVec.ofNat 64 q.released
  moved : q.popped.length = q.released + 1
  index : i = BitVec.ofNat 64 q.released &&& q.mask

/-- What is true while the consumer is at a place. -/
def ConsumerAt : PopPc → Prop
  | .idle | .load _ | .emptyLoad => Rest q
  | .probe _ pos => Rest q ∧ pos = q.dequeue
  | .move _ pos => Rest q ∧ pos = q.dequeue ∧ q.released < q.claimed.length ∧
      (q.slot q.released).sequence = BitVec.ofNat 64 (q.released + 1)
  | .releaseLoad _ i => Taken q i
  | .releaseCell _ i pos => Taken q i ∧ pos = q.dequeue
  | .releaseHead _ pos => q.popped.length = q.released ∧ pos + 1 = BitVec.ofNat 64 q.released ∧
      q.dequeue = pos ∧ 0 < q.released
  | .emptyStore head => Rest q ∧ head = q.dequeue
  | .emptyCheck head => Rest q ∧ head = q.dequeue

/-- A producer has claimed position `n` for its value and not stored it. -/
structure OwnsSlot (item : α) (pos : BitVec 64) (n : Nat) : Prop where
  released_le : q.released ≤ n
  lt_claimed : n < q.claimed.length
  position : pos = BitVec.ofNat 64 n
  sequence : (q.slot n).sequence = BitVec.ofNat 64 n
  claimed : q.claimed[n]? = some item

/-- What is true while a producer is at a place. -/
def ProducerAt : PushPc α → Prop
  | .idle => True
  | .load call => call.since ≤ q.claimed.length
  | .probe call pos => ∃ n, pos = BitVec.ofNat 64 n ∧ call.since ≤ n ∧ n ≤ q.claimed.length
  | .cas call pos => ∃ n, pos = BitVec.ofNat 64 n ∧ call.since ≤ n ∧ n ≤ q.claimed.length ∧
      n < q.released + q.slots
  | .depth item pos n | .write item pos n => OwnsSlot q item pos n ∧ (q.slot n).value = none
  | .publish item pos n => OwnsSlot q item pos n ∧ (q.slot n).value = some item

/-- No position has two owners. -/
def OwnApart (pc pc' : PushPc α) : Prop := ∀ n, ¬ (pc.owns = some n ∧ pc'.owns = some n)

theorem OwnApart.symm {pc pc' : PushPc α} (h : OwnApart pc pc') : OwnApart pc' pc :=
  fun n ho => h n ho.symm

theorem ProducerAt.owned {q : MpscQueue α} {pc : PushPc α} {n : Nat} (h : ProducerAt q pc)
    (ho : pc.owns = some n) : ∃ item pos, OwnsSlot q item pos n := by
  cases pc with
  | idle | load | probe | cas => cases ho
  | depth item pos m | write item pos m | publish item pos m =>
    obtain rfl : m = n := Option.some.inj ho
    exact ⟨item, pos, h.1⟩

section Ring

variable {q : MpscQueue α}

variable {n : Nat} {item : α} {pos : BitVec 64}

/-- The slots of the positions within a lap are distinct. -/
theorem MpscRing.slot_setCell (h : MpscRing q) {m : Nat} (hm : q.released ≤ m)
    (hm' : m < q.released + q.slots) (hn : q.released ≤ n) (hn' : n < q.released + q.slots)
    (c : MpscCell α) : (q.setCell (BitVec.ofNat 64 m &&& q.mask) c).slot n =
      if n = m then c else q.slot n := by
  obtain ⟨k, -, hk, hslots⟩ := h.pow
  rw [MpscQueue.slot_setCell hk hslots]
  by_cases heq : n = m
  · rw [if_pos heq, if_pos (by rw [heq])]
  · rw [if_neg heq, if_neg]
    intro hmod
    exact heq (eq_of_mod_eq hn hn' hm hm' hmod)

theorem MpscRing.slots_le (h : MpscRing q) : q.slots ≤ 2 ^ 62 ∧ 2 ≤ q.slots := by
  obtain ⟨k, hone, hk, hslots⟩ := h.pow
  rw [hslots]
  exact ⟨Nat.pow_le_pow_right (by decide) hk, Nat.pow_le_pow_right (n := 2) (by decide) hone⟩

/-- **A value is claimed for the next position.** -/
theorem MpscRing.claim (h : MpscRing q) (item : α)
    (hroom : q.claimed.length < q.released + q.slots) :
    MpscRing { q with enqueue := q.enqueue + 1, claimed := q.claimed ++ [item] } where
  pow := h.pow
  enqueue := by
    show q.enqueue + 1 = BitVec.ofNat 64 (q.claimed ++ [item]).length
    rw [h.enqueue, ofNat_succ, List.length_append, List.length_singleton]
  released_le := h.released_le
  popped_le := by
    show q.popped.length ≤ (q.claimed ++ [item]).length
    rw [List.length_append]
    exact Nat.le_add_right_of_le h.popped_le
  claimed_le := by
    show (q.claimed ++ [item]).length ≤ q.released + q.slots
    rw [List.length_append, List.length_singleton]
    exact hroom
  free := by
    intro n hn hn'
    dsimp only at hn
    rw [List.length_append, List.length_singleton] at hn
    exact h.free n (by omega) hn'
  busy := by
    intro n hn hn'
    dsimp only at hn'
    rw [List.length_append, List.length_singleton] at hn'
    by_cases hold : n < q.claimed.length
    · exact h.busy n hn hold
    · exact .inl (congrArg MpscCell.sequence (h.free n (by omega) (lt_of_lt_of_le hn' hroom)))
  unread := by
    intro n hn hn' hseq
    dsimp only at hn' ⊢
    rw [List.length_append, List.length_singleton] at hn'
    by_cases hold : n < q.claimed.length
    · rw [List.getElem?_append_left hold]
      exact h.unread n hn hold hseq
    · -- nothing is stored there yet
      have hfree := congrArg MpscCell.sequence (h.free n (by omega) (lt_of_lt_of_le hn' hroom))
      exact absurd (hfree.symm.trans hseq) (ofNat_ne_succ n)
  moved := h.moved
  popped := by
    show q.popped = ((q.claimed ++ [item]).take q.popped.length).map some
    rw [List.take_append_of_le_length h.popped_le]
    exact h.popped
  pushed := by
    intro p hp
    obtain ⟨hclaimed, hseq⟩ := h.pushed p hp
    refine ⟨?_, hseq⟩
    show (q.claimed ++ [item])[p.1]? = some p.2
    rw [List.getElem?_append_left (List.getElem?_eq_some_iff.1 hclaimed).1]
    exact hclaimed
  once := h.once

/-- The cell of a position that a producer owns. -/
theorem OwnsSlot.cell (ho : OwnsSlot q item pos n) : q.cell pos = q.slot n := by
  rw [ho.position]
  rfl

section

variable (h : MpscRing q)

include h

/-- An owned position was not moved out. -/
theorem MpscRing.popped_le_of_owns (ho : OwnsSlot q item pos n) : q.popped.length ≤ n := by
  by_contra hlt
  have hmoved := congrArg MpscCell.sequence (h.moved n ho.released_le (Nat.not_le.1 hlt))
  exact ofNat_ne_succ n (ho.sequence.symm.trans hmoved)

/-- A store to an owned slot changes that slot only. -/
theorem MpscRing.slot_store {m : Nat} (ho : OwnsSlot q item pos m) (c : MpscCell α)
    (hn : q.released ≤ n) (hn' : n < q.released + q.slots) : (q.setCell (pos &&& q.mask) c).slot n =
      if n = m then c else q.slot n := by
  rw [ho.position]
  exact h.slot_setCell ho.released_le (lt_of_lt_of_le ho.lt_claimed h.claimed_le) hn hn' c

/-- **The owner of a slot stores to it**: the value, or the sequence over the value. -/
theorem MpscRing.store {m : Nat} (ho : OwnsSlot q item pos m) {c : MpscCell α}
    (hc : c.sequence = BitVec.ofNat 64 m ∨ c = ⟨BitVec.ofNat 64 (m + 1), some item⟩) :
    MpscRing (q.setCell (pos &&& q.mask) c) := by
  have hreleased := h.released_le
  have hpopped := h.popped_le
  have hlap := h.claimed_le
  have howned := ho.lt_claimed
  have hunread := h.popped_le_of_owns ho
  have hslot : ∀ n, q.released ≤ n → n < q.released + q.slots →
      (q.setCell (pos &&& q.mask) c).slot n = if n = m then c else q.slot n :=
    fun n hn hn' => h.slot_store ho c hn hn'
  refine { h with free := ?_, busy := ?_, unread := ?_, moved := ?_, pushed := ?_ }
  · intro n (hn : q.claimed.length ≤ n) (hn' : n < q.released + q.slots)
    rw [hslot n (by omega) hn', if_neg (by omega)]
    exact h.free n hn hn'
  · intro n (hn : q.released ≤ n) (hn' : n < q.claimed.length)
    rw [hslot n hn (by omega)]
    split
    · next heq =>
      subst heq
      exact hc.imp id (congrArg MpscCell.sequence)
    · exact h.busy n hn hn'
  · intro n (hn : q.popped.length ≤ n) (hn' : n < q.claimed.length) hstored
    rw [hslot n (by omega) (by omega)] at hstored ⊢
    split at hstored
    · next heq =>
      subst heq
      rw [if_pos rfl]
      rcases hc with hseq | rfl
      · exact absurd (hseq.symm.trans hstored) (ofNat_ne_succ n)
      · exact ho.claimed.symm
    · next hne =>
      rw [if_neg hne]
      exact h.unread n hn hn' hstored
  · intro n (hn : q.released ≤ n) (hn' : n < q.popped.length)
    rw [hslot n hn (by omega), if_neg (by omega)]
    exact h.moved n hn hn'
  · intro p hp
    obtain ⟨hclaimed, hpublished⟩ := h.pushed p hp
    refine ⟨hclaimed, fun (hlow : q.released ≤ p.1) => ?_⟩
    have hlt := (List.getElem?_eq_some_iff.1 hclaimed).1
    rw [hslot p.1 hlow (by omega), if_neg]
    · exact hpublished hlow
    · intro heq
      have hseq := hpublished hlow
      rw [heq] at hseq
      exact ofNat_ne_succ m (ho.sequence.symm.trans hseq)

/-- **A `Push` returns true.** -/
theorem MpscRing.record (hclaimed : q.claimed[n]? = some item)
    (hseq : (q.slot n).sequence = BitVec.ofNat 64 (n + 1)) (hnew : n ∉ q.pushed.map Prod.fst) :
    MpscRing { q with pushed := q.pushed ++ [(n, item)] } := by
  refine { h with pushed := ?_, once := ?_ }
  · exact List.forall_mem_append.2 ⟨h.pushed, List.forall_mem_singleton.2 ⟨hclaimed, fun _ => hseq⟩⟩
  · show ((q.pushed ++ [(n, item)]).map Prod.fst).Nodup
    rw [List.map_append, List.nodup_append]
    refine ⟨h.once, List.nodup_singleton _, ?_⟩
    rintro a ha b hb rfl
    obtain rfl : a = n := by simpa using hb
    exact hnew ha

/-- What is owned was not reported as pushed. -/
theorem MpscRing.not_pushed (ho : OwnsSlot q item pos n) : n ∉ q.pushed.map Prod.fst := by
  intro hn
  obtain ⟨p, hp, rfl⟩ := List.mem_map.1 hn
  exact ofNat_ne_succ p.1 (ho.sequence.symm.trans ((h.pushed p hp).2 ho.released_le))

/-- **The consumer moves the oldest value out.** -/
theorem MpscRing.move (hrest : Rest q) (hlt : q.released < q.claimed.length)
    (hseq : (q.slot q.released).sequence = BitVec.ofNat 64 (q.released + 1)) :
    MpscRing { q.setCell (BitVec.ofNat 64 q.released &&& q.mask)
        ⟨BitVec.ofNat 64 (q.released + 1), none⟩ with
      popped := q.popped ++ [(q.slot q.released).value] } := by
  have hlap := h.claimed_le
  have hmoved := hrest.moved
  have hvalue : (q.slot q.released).value = q.claimed[q.released]? :=
    h.unread q.released hmoved.le hlt hseq
  have hlength : (q.popped ++ [(q.slot q.released).value]).length = q.released + 1 := by
    rw [List.length_append, List.length_singleton, hmoved]
  have hslot : ∀ n, q.released ≤ n → n < q.released + q.slots →
      (q.setCell (BitVec.ofNat 64 q.released &&& q.mask)
        ⟨BitVec.ofNat 64 (q.released + 1), none⟩).slot n =
        if n = q.released then ⟨BitVec.ofNat 64 (q.released + 1), none⟩ else q.slot n :=
    fun n hn hn' => h.slot_setCell le_rfl (by omega) hn hn' _
  -- no sequence changes
  have hsequence : ∀ n, q.released ≤ n → n < q.released + q.slots →
      ((q.setCell (BitVec.ofNat 64 q.released &&& q.mask)
        ⟨BitVec.ofNat 64 (q.released + 1), none⟩).slot n).sequence = (q.slot n).sequence := by
    intro n hn hn'
    rw [hslot n hn hn']
    split
    · next heq => rw [heq, hseq]
    · rfl
  refine ⟨h.pow, h.enqueue, ?_, ?_, h.claimed_le, ?_, ?_, ?_, ?_, ?_, ?_, h.once⟩
  · show q.released ≤ (q.popped ++ [(q.slot q.released).value]).length
    omega
  · show (q.popped ++ [(q.slot q.released).value]).length ≤ q.claimed.length
    omega
  · intro n (hn : q.claimed.length ≤ n) (hn' : n < q.released + q.slots)
    refine (hslot n (by omega) hn').trans ?_
    rw [if_neg (by omega)]
    exact h.free n hn hn'
  · intro n (hn : q.released ≤ n) (hn' : n < q.claimed.length)
    have hkept := hsequence n hn (by omega)
    exact (h.busy n hn hn').imp hkept.trans hkept.trans
  · intro n (hn : (q.popped ++ [(q.slot q.released).value]).length ≤ n)
      (hn' : n < q.claimed.length) hstored
    rw [hlength] at hn
    have hkept := hslot n (by omega) (by omega)
    rw [if_neg (by omega)] at hkept
    refine (congrArg MpscCell.value hkept).trans (h.unread n (by omega) hn' ?_)
    exact (congrArg MpscCell.sequence hkept).symm.trans hstored
  · intro n (hn : q.released ≤ n)
      (hn' : n < (q.popped ++ [(q.slot q.released).value]).length)
    obtain rfl : n = q.released := by omega
    refine (hslot q.released le_rfl (by omega)).trans ?_
    rw [if_pos rfl]
  · show q.popped ++ [(q.slot q.released).value] =
      (q.claimed.take (q.popped ++ [(q.slot q.released).value]).length).map some
    rw [hlength, List.take_add_one, List.map_append, ← hmoved, ← h.popped, hmoved, hvalue,
      List.getElem?_eq_getElem hlt]
    rfl
  · intro p hp
    obtain ⟨hclaimed, hpublished⟩ := h.pushed p hp
    refine ⟨hclaimed, fun (hlow : q.released ≤ p.1) => ?_⟩
    have hlt := (List.getElem?_eq_some_iff.1 hclaimed).1
    exact (hsequence p.1 hlow (by omega)).trans (hpublished hlow)

end

/-- The sequence a slot is handed back with is that of the position a lap further on. -/
theorem handed_back (q : MpscQueue α) (n : Nat) :
    BitVec.ofNat 64 n + q.mask + 1 = BitVec.ofNat 64 (n + q.slots) := by
  have hmask : q.mask = BitVec.ofNat 64 q.mask.toNat := by
    rw [BitVec.ofNat_toNat, BitVec.setWidth_eq]
  rw [hmask, ← BitVec.ofNat_add, ofNat_succ]
  rfl

/-- **The consumer hands the slot back.** -/
theorem MpscRing.release (h : MpscRing q) (hmoved : q.popped.length = q.released + 1) :
    MpscRing { q.setCell (BitVec.ofNat 64 q.released &&& q.mask)
        ⟨BitVec.ofNat 64 (q.released + q.slots), none⟩ with released := q.released + 1 } := by
  obtain ⟨k, hone, hk, hslots⟩ := h.pow
  have hlap := h.claimed_le
  have hpopped := h.popped_le
  have htwo := h.slots_le.2
  -- in the new window the slot belongs to the position a lap further on
  have hslot : ∀ n, q.released + 1 ≤ n → n < q.released + 1 + q.slots →
      (q.setCell (BitVec.ofNat 64 q.released &&& q.mask)
        ⟨BitVec.ofNat 64 (q.released + q.slots), none⟩).slot n =
        if n = q.released + q.slots then ⟨BitVec.ofNat 64 (q.released + q.slots), none⟩
        else q.slot n := by
    intro n hn hn'
    rw [MpscQueue.slot_setCell hk hslots, ← Nat.add_mod_right q.released]
    by_cases heq : n = q.released + q.slots
    · rw [if_pos heq, if_pos (by rw [heq])]
    · rw [if_neg heq, if_neg]
      intro hmod
      exact heq (eq_of_mod_eq hn hn' (by omega) (by omega) hmod)
  have hkept : ∀ n, q.released + 1 ≤ n → n < q.released + q.slots →
      (q.setCell (BitVec.ofNat 64 q.released &&& q.mask)
        ⟨BitVec.ofNat 64 (q.released + q.slots), none⟩).slot n = q.slot n := by
    intro n hn hn'
    rw [hslot n hn (by omega), if_neg (by omega)]
  refine ⟨h.pow, h.enqueue, hmoved.ge, h.popped_le, ?_, ?_, ?_, ?_, ?_, h.popped, ?_, h.once⟩
  · show q.claimed.length ≤ q.released + 1 + q.slots
    omega
  · intro n (hn : q.claimed.length ≤ n) (hn' : n < q.released + 1 + q.slots)
    by_cases heq : n = q.released + q.slots
    · refine (hslot n (by omega) hn').trans ?_
      rw [if_pos heq, heq]
    · exact (hkept n (by omega) (by omega)).trans (h.free n hn (by omega))
  · intro n (hn : q.released + 1 ≤ n) (hn' : n < q.claimed.length)
    have hsame := congrArg MpscCell.sequence (hkept n hn (by omega))
    exact (h.busy n (by omega) hn').imp hsame.trans hsame.trans
  · intro n (hn : q.popped.length ≤ n) (hn' : n < q.claimed.length) hstored
    have hsame := hkept n (by omega) (by omega)
    refine (congrArg MpscCell.value hsame).trans (h.unread n hn hn' ?_)
    exact (congrArg MpscCell.sequence hsame).symm.trans hstored
  · intro n (hn : q.released + 1 ≤ n) (hn' : n < q.popped.length)
    exact absurd hn' (by omega)
  · intro p hp
    obtain ⟨hclaimed, hpublished⟩ := h.pushed p hp
    refine ⟨hclaimed, fun (hlow : q.released + 1 ≤ p.1) => ?_⟩
    have hlt := (List.getElem?_eq_some_iff.1 hclaimed).1
    exact (congrArg MpscCell.sequence (hkept p.1 hlow (by omega))).trans (hpublished (by omega))

/-- The read cursor is no part of it. -/
theorem MpscRing.dequeue (h : MpscRing q) (head : BitVec 64) :
    MpscRing { q with dequeue := head } :=
  { h with }

end Ring

/-! ## What the others' steps leave alone -/

/-- A producer's step: it may claim the next position, and touches no slot but that of position
`m`. -/
structure Fed (q q' : MpscQueue α) (m : Nat) : Prop where
  mask : q'.mask = q.mask
  dequeue : q'.dequeue = q.dequeue
  released : q'.released = q.released
  popped : q'.popped = q.popped
  claimed : q.claimed <+: q'.claimed
  slot : ∀ n, q.released ≤ n → n < q.released + q.slots → n ≠ m → q'.slot n = q.slot n

/-- A step of the consumer: it claims nothing, and touches no slot that waits for its value. -/
structure Served (q q' : MpscQueue α) : Prop where
  mask : q'.mask = q.mask
  claimed : q'.claimed = q.claimed
  released_le : q.released ≤ q'.released
  slot : ∀ n, q.released ≤ n → n < q.claimed.length → (q.slot n).sequence = BitVec.ofNat 64 n →
    q'.released ≤ n ∧ q'.slot n = q.slot n

section Moves

variable {q q' : MpscQueue α} {pc : PushPc α} {m : Nat}

theorem slots_congr (h : q'.mask = q.mask) : q'.slots = q.slots := by
  rw [MpscQueue.slots, MpscQueue.slots, h]

variable {item : α} {pos : BitVec 64} {n : Nat}

theorem Fed.ownsSlot (h : Fed q q' m) (hring : MpscRing q) (ho : OwnsSlot q item pos n)
    (hne : n ≠ m) :
    OwnsSlot q' item pos n ∧ q'.slot n = q.slot n := by
  have hslot := h.slot n ho.released_le (lt_of_lt_of_le ho.lt_claimed hring.claimed_le) hne
  refine ⟨⟨h.released ▸ ho.released_le, lt_of_lt_of_le ho.lt_claimed h.claimed.length_le,
    ho.position,
    hslot ▸ ho.sequence, ?_⟩, hslot⟩
  obtain ⟨l, hl⟩ := h.claimed
  rw [← hl, List.getElem?_append_left ho.lt_claimed]
  exact ho.claimed

/-- What a producer knows survives another one's step. -/
theorem ProducerAt.of_fed (hat : ProducerAt q pc) (hown : pc.owns ≠ some m) (h : Fed q q' m)
    (hring : MpscRing q) : ProducerAt q' pc := by
  have hle := h.claimed.length_le
  cases pc with
  | idle => trivial
  | load call => exact le_trans hat hle
  | probe call pos =>
    obtain ⟨n, hpos, hsince, hn⟩ := hat
    exact ⟨n, hpos, hsince, hn.trans hle⟩
  | cas call pos =>
    obtain ⟨n, hpos, hsince, hn, hlap⟩ := hat
    refine ⟨n, hpos, hsince, hn.trans hle, ?_⟩
    rw [h.released, slots_congr h.mask]
    exact hlap
  | depth item pos n | write item pos n | publish item pos n =>
    obtain ⟨ho, hslot⟩ := h.ownsSlot hring hat.1 (fun heq => hown (congrArg some heq))
    exact ⟨ho, hslot ▸ hat.2⟩

theorem Fed.rest (h : Fed q q' m) (hrest : Rest q) : Rest q' := by
  constructor
  · rw [h.dequeue, h.released]
    exact hrest.dequeue
  · rw [h.popped, h.released]
    exact hrest.moved

theorem Fed.taken (h : Fed q q' m) {i : BitVec 64} (htaken : Taken q i) : Taken q' i := by
  constructor
  · rw [h.dequeue, h.released]
    exact htaken.dequeue
  · rw [h.popped, h.released]
    exact htaken.moved
  · rw [h.released, h.mask]
    exact htaken.index

/-- What the consumer knows survives a producer's step on a slot without a value. -/
theorem ConsumerAt.of_fed {pc : PopPc} (hat : ConsumerAt q pc) (h : Fed q q' m)
    (hring : MpscRing q)
    (hm : q.claimed.length ≤ m ∨ (q.slot m).sequence = BitVec.ofNat 64 m) : ConsumerAt q' pc := by
  cases pc with
  | idle | load | emptyLoad => exact h.rest hat
  | probe drain pos
  | emptyStore head | emptyCheck head => exact ⟨h.rest hat.1, hat.2.trans h.dequeue.symm⟩
  | move drain pos =>
    obtain ⟨hrest, hpos, hlt, hseq⟩ := hat
    have hne : q.released ≠ m := by
      rintro rfl
      rcases hm with hle | hfree
      · exact absurd hlt (Nat.not_lt.2 hle)
      · exact ofNat_ne_succ _ (hfree.symm.trans hseq)
    refine ⟨h.rest hrest, hpos.trans h.dequeue.symm, ?_, ?_⟩
    · rw [h.released]
      exact lt_of_lt_of_le hlt h.claimed.length_le
    · rw [h.released, h.slot q.released le_rfl (lt_of_lt_of_le hlt hring.claimed_le) hne]
      exact hseq
  | releaseLoad drain i => exact h.taken hat
  | releaseCell drain i pos => exact ⟨h.taken hat.1, hat.2.trans h.dequeue.symm⟩
  | releaseHead drain pos =>
    obtain ⟨hmoved, hpos, hdequeue, hsome⟩ := hat
    refine ⟨?_, ?_, h.dequeue.trans hdequeue, ?_⟩
    · rw [h.popped, h.released]
      exact hmoved
    · rw [h.released]
      exact hpos
    · rw [h.released]
      exact hsome

theorem Served.ownsSlot (h : Served q q') (ho : OwnsSlot q item pos n) :
    OwnsSlot q' item pos n ∧ q'.slot n = q.slot n := by
  obtain ⟨hreleased, hslot⟩ := h.slot n ho.released_le ho.lt_claimed ho.sequence
  exact ⟨⟨hreleased, h.claimed ▸ ho.lt_claimed, ho.position, hslot ▸ ho.sequence,
    h.claimed ▸ ho.claimed⟩, hslot⟩

/-- What a producer knows survives a step of the consumer. -/
theorem ProducerAt.of_served (hat : ProducerAt q pc) (h : Served q q') : ProducerAt q' pc := by
  cases pc with
  | idle => trivial
  | load call => exact le_of_le_of_eq hat (congrArg List.length h.claimed.symm)
  | probe call pos =>
    obtain ⟨n, hpos, hsince, hn⟩ := hat
    exact ⟨n, hpos, hsince, h.claimed ▸ hn⟩
  | cas call pos =>
    obtain ⟨n, hpos, hsince, hn, hlap⟩ := hat
    have hle := h.released_le
    refine ⟨n, hpos, hsince, h.claimed ▸ hn, ?_⟩
    rw [slots_congr h.mask]
    omega
  | depth item pos n | write item pos n | publish item pos n =>
    obtain ⟨ho, hslot⟩ := h.ownsSlot hat.1
    exact ⟨ho, hslot ▸ hat.2⟩

end Moves

/-! ## What a producer reads -/

section Probe

variable {q : MpscQueue α}

variable {n : Nat}

theorem MpscRing.slot_congr (h : MpscRing q) {m : Nat} (hmod : n % q.slots = m % q.slots) :
    q.slot n = q.slot m := by
  obtain ⟨k, -, hk, hslots⟩ := h.pow
  rw [MpscQueue.slot, MpscQueue.cell, MpscQueue.slot, MpscQueue.cell, MpscQueue.index_eq hk hslots,
    MpscQueue.index_eq hk hslots, hmod]

/-- The position a slot belongs to while an older one is looked up in it. -/
theorem MpscRing.occupant (h : MpscRing q) (n : Nat) :
    ∃ m, q.released ≤ m ∧ m < q.released + q.slots ∧ q.slot n = q.slot m := by
  have htwo := h.slots_le.2
  obtain ⟨m, hm, hm', hmod⟩ := exists_mod_eq (n := q.slots) (by omega) q.released n
  exact ⟨m, hm, hm', h.slot_congr hmod.symm⟩

/-- What a slot of the current lap can say. -/
theorem MpscRing.sequence_cases (h : MpscRing q) (hn : q.released ≤ n)
    (hn' : n < q.released + q.slots) : (q.slot n).sequence = BitVec.ofNat 64 n ∨
      n < q.claimed.length ∧ (q.slot n).sequence = BitVec.ofNat 64 (n + 1) := by
  by_cases hlt : n < q.claimed.length
  · exact (h.busy n hn hlt).imp id (⟨hlt, ·⟩)
  · exact .inl (congrArg MpscCell.sequence (h.free n (Nat.not_lt.1 hlt) hn'))

/-- **What a look at a position says**, if fewer than `2 ^ 62` were claimed since: that it may be
claimed, that the ring is full, or that it is taken. -/
theorem MpscRing.distance (h : MpscRing q) (hn : n ≤ q.claimed.length)
    (hnear : q.claimed.length < n + 2 ^ 62) :
    ((q.slot n).sequence - BitVec.ofNat 64 n = 0 ∧ n < q.released + q.slots) ∨
    (q.slot n).sequence - BitVec.ofNat 64 n ≠ 0 ∧
      (¬ kBehind < (q.slot n).sequence - BitVec.ofNat 64 n ∨
        q.claimed.length = q.released + q.slots) := by
  have hlap := h.claimed_le
  have hpopped := h.popped_le
  have hreleased := h.released_le
  obtain ⟨hsmall, htwo⟩ := h.slots_le
  rcases Nat.lt_or_ge n q.released with hold | hcurrent
  · -- an older position: its slot belongs to a later lap
    obtain ⟨m, hm, hm', hslot⟩ := h.occupant n
    right
    rw [hslot]
    rcases h.sequence_cases hm hm' with hseq | ⟨hlt, hseq⟩
    · rw [hseq]
      obtain ⟨hne, hahead⟩ := distance_ahead (a := m) (b := n) (by omega) (by omega)
      exact ⟨hne, .inl hahead⟩
    · rw [hseq]
      obtain ⟨hne, hahead⟩ := distance_ahead (a := m + 1) (b := n) (by omega) (by omega)
      exact ⟨hne, .inl hahead⟩
  · by_cases hfull : n = q.released + q.slots
    · -- a lap ahead: the slot still belongs to the oldest position
      right
      have hslot : q.slot n = q.slot q.released := h.slot_congr (by rw [hfull, Nat.add_mod_right])
      refine ⟨?_, .inr (by omega)⟩
      rw [hslot]
      rcases h.sequence_cases le_rfl (by omega) with hseq | ⟨hlt, hseq⟩
      · rw [hseq]
        exact (distance_behind (by omega) (by omega)).1
      · rw [hseq]
        exact (distance_behind (by omega) (by omega)).1
    · rcases h.sequence_cases hcurrent (by omega) with hseq | ⟨hlt, hseq⟩
      · rw [hseq]
        exact .inl ⟨sub_self _, by omega⟩
      · rw [hseq]
        obtain ⟨hne, hahead⟩ := distance_ahead (a := n + 1) (b := n) (by omega) (by omega)
        exact .inr ⟨hne, .inl hahead⟩

end Probe

end Queue
end Znet

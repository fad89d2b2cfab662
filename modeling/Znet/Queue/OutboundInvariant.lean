import Znet.Queue.Outbound

/-!
# What holds of the outbound queue while threads run

The invariant of the queue, for schedules in which no `Drain` moves the read cursor while
another one is between the load and the store of `Empty` (`NoRollback`).  It comes in the
three parts of `Threads.Holds`: the ring (`Ring`), what each thread knows at its place (`At`),
and what two threads cannot be at once (`Apart`).

What a thread may do to the others is said once for producers (`ProducerMove`) and once
for the thread that holds the claim (`ConsumerMove`); `At.of_producerMove` and
`At.of_consumerMove` are the two lemmas by which every thread's knowledge survives the
others' steps.
-/

namespace Znet
namespace Queue

variable {α : Type}

/-! ## Indices -/

theorem OutboundQueue.index_eq_mod {q : OutboundQueue α} {k : Nat} (h : q.slots = 2 ^ k)
    (pos : Nat) : q.index pos = pos % q.slots := by
  rw [index, h, Nat.and_two_pow_sub_one_eq_mod]

/-! ## The shared part -/

variable (q : OutboundQueue α)

/-- The ring and its history. -/
structure Ring : Prop where
  pow : ∃ k, 1 ≤ k ∧ q.slots = 2 ^ k
  length_claimed : q.claimed.length = q.enqueue
  freed_le : q.freed ≤ q.enqueue
  enqueue_le : q.enqueue ≤ q.freed + q.slots
  moved_le : q.freed ≤ q.moved
  dequeue_le : q.dequeue ≤ q.freed
  /-- A free slot waits for the position that will claim it. -/
  free : ∀ p, q.enqueue ≤ p → p < q.freed + q.slots → (q.cell p).sequence = p
  /-- A claimed slot is unpublished or published. -/
  busy : ∀ p, q.freed ≤ p → p < q.enqueue →
    (q.cell p).sequence = p ∨ (q.cell p).sequence = p + 1
  /-- A published value is the one that was claimed for it. -/
  value : ∀ p, q.moved ≤ p → p < q.enqueue → (q.cell p).sequence = p + 1 →
    (q.cell p).value = q.claimed[p]?
  encoded : q.encoded = (q.claimed.take q.encoded.length).map some
  unclaimed : q.encoding = false →
    q.encoded.length = q.dequeue ∧ q.moved = q.dequeue ∧ q.freed = q.dequeue
  pushed : ∀ p ∈ q.pushed, p < q.enqueue

theorem Ring.two_le {q : OutboundQueue α} (h : Ring q) : 2 ≤ q.slots := by
  obtain ⟨k, hk, hslots⟩ := h.pow
  rw [hslots]
  calc 2 = 2 ^ 1 := rfl
    _ ≤ 2 ^ k := Nat.pow_le_pow_right (by omega) hk

/-- Within a lap of the freed positions the slot tells the position. -/
theorem Ring.index_inj {q : OutboundQueue α} (h : Ring q) {p r : Nat} (hp : q.freed ≤ p)
    (hp' : p < q.freed + q.slots) (hr : q.freed ≤ r) (hr' : r < q.freed + q.slots)
    (heq : q.index p = q.index r) : p = r := by
  obtain ⟨k, -, hslots⟩ := h.pow
  rw [OutboundQueue.index_eq_mod hslots, OutboundQueue.index_eq_mod hslots] at heq
  exact eq_of_mod_eq hp hp' hr hr' heq

theorem OutboundQueue.cell_setCell {q : OutboundQueue α} (i : Nat) (c : Cell α) (p : Nat) :
    (q.setCell i c).cell p = if q.index p = i then c else q.cell p := by
  unfold OutboundQueue.setCell OutboundQueue.cell OutboundQueue.index
  simp only [Function.update_apply]

theorem Ring.new (capacity : Nat) : Ring (OutboundQueue.new capacity : OutboundQueue α) := by
  obtain ⟨k, hk, hslots⟩ := exists_roundUpPowerOfTwo capacity
  refine ⟨⟨k, hk, hslots⟩, rfl, le_rfl, Nat.zero_le _, le_rfl, le_rfl, fun p _ hp => ?_,
    ?_, ?_, rfl,
    fun _ => ⟨rfl, rfl, rfl⟩, by simp [OutboundQueue.new]⟩
  · show OutboundQueue.index _ p = p
    rw [OutboundQueue.index_eq_mod hslots, Nat.mod_eq_of_lt]
    simpa [OutboundQueue.new] using hp
  · intro p _ hp
    simp [OutboundQueue.new] at hp
  · intro p _ hp
    simp [OutboundQueue.new] at hp

/-! ## What each thread knows -/

/-- Position `p` is claimed and not yet published. -/
structure Owned (p : Nat) : Prop where
  freed_le : q.freed ≤ p
  lt_enqueue : p < q.enqueue
  sequence : (q.cell p).sequence = p

/-- The thread that holds the claim, between two items. -/
structure Held : Prop where
  encoding : q.encoding = true
  encoded : q.encoded.length = q.dequeue
  freed : q.freed = q.dequeue

/-- The oldest item is published. -/
structure Readable : Prop extends Held q where
  lt_enqueue : q.dequeue < q.enqueue
  sequence : (q.cell q.dequeue).sequence = q.dequeue + 1

/-- What is true of the queue while a thread is at a place. -/
def At : Pc α → Prop
  | .idle | .pushLoad _ | .drainClaim | .emptyLoad | .drainWake => True
  | .pushWake pos => pos < q.enqueue
  | .pushProbe _ pos => pos ≤ q.enqueue
  | .pushCas _ pos => pos ≤ q.enqueue ∧ (pos = q.enqueue → pos < q.freed + q.slots)
  | .pushDepth item pos => Owned q pos ∧ q.claimed[pos]? = some item
  | .pushWrite item pos _ => Owned q pos ∧ q.claimed[pos]? = some item
  | .pushPublish pos _ => Owned q pos ∧ (q.cell pos).value = q.claimed[pos]?
  | .popLoad => Held q ∧ q.moved = q.dequeue
  | .popProbe pos => Held q ∧ q.moved = q.dequeue ∧ pos = q.dequeue
  | .popMove pos => Readable q ∧ q.moved = q.dequeue ∧ pos = q.dequeue
  | .releaseLoad i item =>
    Readable q ∧ q.moved = q.dequeue + 1 ∧ i = q.index q.dequeue ∧ item = q.claimed[q.dequeue]?
  | .releaseCell i item pos =>
    Readable q ∧ q.moved = q.dequeue + 1 ∧ i = q.index q.dequeue ∧
      item = q.claimed[q.dequeue]? ∧ pos = q.dequeue
  | .releaseHead item pos =>
    q.encoding = true ∧ q.encoded.length = q.dequeue ∧ q.freed = q.dequeue + 1 ∧
      q.moved = q.dequeue + 1 ∧ item = q.claimed[q.dequeue]? ∧ pos = q.dequeue
  | .encode item =>
    q.encoding = true ∧ q.encoded.length + 1 = q.dequeue ∧ q.freed = q.dequeue ∧
      q.moved = q.dequeue ∧ item = q.claimed[q.encoded.length]?
  | .drainRelease => Held q ∧ q.moved = q.dequeue
  | .emptyStore head => head = q.dequeue
  | .emptyCheck head => head ≤ q.dequeue

/-- The thread holds the claim. -/
def Pc.Draining : Pc α → Prop
  | .popLoad | .popProbe _ | .popMove _ | .releaseLoad _ _ | .releaseCell _ _ _
  | .releaseHead _ _ | .encode _ | .drainRelease => True
  | _ => False

/-- The thread has claimed the position and not published it. -/
def Pc.Owns (p : Nat) : Pc α → Prop
  | .pushDepth _ pos | .pushWrite _ pos _ | .pushPublish pos _ => pos = p
  | _ => False

/-- One thread drains, and a position has one owner. -/
def Apart (pc pc' : Pc α) : Prop :=
  ¬ (pc.Draining ∧ pc'.Draining) ∧ ∀ p, ¬ (pc.Owns p ∧ pc'.Owns p)

theorem Apart.symm {pc pc' : Pc α} (h : Apart pc pc') : Apart pc' pc :=
  ⟨fun hd => h.1 hd.symm, fun p ho => h.2 p ho.symm⟩

theorem At.owned {q : OutboundQueue α} {pc : Pc α} {p : Nat} (h : At q pc) (ho : pc.Owns p) :
    Owned q p := by
  cases pc <;> simp only [Pc.Owns] at ho
  all_goals
    subst ho
    exact h.1

theorem At.encoding {q : OutboundQueue α} {pc : Pc α} (h : At q pc) (hd : pc.Draining) :
    q.encoding = true := by
  cases pc <;> simp only [Pc.Draining] at hd
  case releaseHead | encode => exact h.1
  all_goals exact h.1.encoding

/-! ## What the others' steps leave alone -/

/-- A producer's step: it may claim new positions, and touches no slot but that of the
position `pos`, which it owns or claims. -/
structure ProducerMove (q q' : OutboundQueue α) (pos : Nat) : Prop where
  slots : q'.slots = q.slots
  dequeue : q'.dequeue = q.dequeue
  freed : q'.freed = q.freed
  moved : q'.moved = q.moved
  encoding : q'.encoding = q.encoding
  encoded : q'.encoded = q.encoded
  enqueue_le : q.enqueue ≤ q'.enqueue
  claimed : ∀ p < q.enqueue, q'.claimed[p]? = q.claimed[p]?
  cell : ∀ p, q.freed ≤ p → p < q.freed + q.slots → p ≠ pos → q'.cell p = q.cell p

/-- A step of the thread that holds the claim: it claims no position, and touches no
unpublished slot. -/
structure ConsumerMove (q q' : OutboundQueue α) : Prop where
  slots : q'.slots = q.slots
  enqueue : q'.enqueue = q.enqueue
  claimed : q'.claimed = q.claimed
  freed_le : q.freed ≤ q'.freed
  dequeue_le : q.dequeue ≤ q'.dequeue
  cell : ∀ p, Owned q p → q'.freed ≤ p ∧ q'.cell p = q.cell p

theorem OutboundQueue.index_congr {q q' : OutboundQueue α} (h : q'.slots = q.slots) (p : Nat) :
    q'.index p = q.index p := by
  rw [index, index, h]

section Moves

variable {q q' : OutboundQueue α} {pos : Nat} {pc : Pc α}

theorem ProducerMove.owned (h : ProducerMove q q' pos) (hring : Ring q) {p : Nat}
    (ho : Owned q p) (hne : p ≠ pos) : Owned q' p ∧ q'.cell p = q.cell p := by
  have hcell := h.cell p ho.freed_le (ho.lt_enqueue.trans_le hring.enqueue_le) hne
  exact ⟨⟨h.freed ▸ ho.freed_le, ho.lt_enqueue.trans_le h.enqueue_le, hcell ▸ ho.sequence⟩, hcell⟩

theorem ProducerMove.held (h : ProducerMove q q' pos) (hh : Held q) : Held q' :=
  ⟨h.encoding ▸ hh.encoding, by rw [h.encoded, h.dequeue, hh.encoded],
    by rw [h.freed, h.dequeue, hh.freed]⟩

theorem ProducerMove.readable (h : ProducerMove q q' pos) (hring : Ring q) (hr : Readable q)
    (hpos : q.enqueue ≤ pos ∨ Owned q pos) : Readable q' := by
  have hne : q.dequeue ≠ pos := by
    rintro rfl
    rcases hpos with hle | ho
    · exact absurd hr.lt_enqueue (by omega)
    · have := hr.sequence.symm.trans ho.sequence
      omega
  have hcell := h.cell q.dequeue hr.freed.le
    (hr.lt_enqueue.trans_le hring.enqueue_le) hne
  refine ⟨h.held hr.toHeld, ?_, ?_⟩
  · rw [h.dequeue]
    exact hr.lt_enqueue.trans_le h.enqueue_le
  · rw [h.dequeue, hcell, hr.sequence]

/-- What a thread knows survives a producer's step on another position. -/
theorem At.of_producerMove (hat : At q pc) (hown : ¬ pc.Owns pos) (h : ProducerMove q q' pos)
    (hring : Ring q) (hpos : q.enqueue ≤ pos ∨ Owned q pos) : At q' pc := by
  have hclaimed : Readable q → q'.claimed[q'.dequeue]? = q.claimed[q.dequeue]? := by
    intro hr
    rw [h.dequeue, h.claimed _ hr.lt_enqueue]
  cases pc with
  | idle | pushLoad | drainClaim | emptyLoad | drainWake => trivial
  | pushWake p => exact hat.trans_le h.enqueue_le
  | pushProbe item p => exact le_trans hat h.enqueue_le
  | pushCas item p =>
    refine ⟨hat.1.trans h.enqueue_le, fun heq => ?_⟩
    rw [h.freed, h.slots]
    have := h.enqueue_le
    have := hat.1
    exact hat.2 (by omega)
  | pushDepth item p | pushWrite item p first =>
    obtain ⟨ho, -⟩ := h.owned hring hat.1 hown
    exact ⟨ho, (h.claimed p hat.1.lt_enqueue).trans hat.2⟩
  | pushPublish p first =>
    obtain ⟨ho, hcell⟩ := h.owned hring hat.1 hown
    exact ⟨ho, by rw [hcell, h.claimed p hat.1.lt_enqueue, hat.2]⟩
  | popLoad | drainRelease => exact ⟨h.held hat.1, by rw [h.moved, h.dequeue, hat.2]⟩
  | popProbe p =>
    exact ⟨h.held hat.1, by rw [h.moved, h.dequeue, hat.2.1], by rw [h.dequeue, hat.2.2]⟩
  | popMove p =>
    exact ⟨h.readable hring hat.1 hpos, by rw [h.moved, h.dequeue, hat.2.1],
      by rw [h.dequeue, hat.2.2]⟩
  | releaseLoad i item =>
    obtain ⟨hr, hm, hi, hitem⟩ := hat
    refine ⟨h.readable hring hr hpos, by rw [h.moved, h.dequeue, hm], ?_, ?_⟩
    · rw [OutboundQueue.index_congr h.slots, h.dequeue, hi]
    · rw [hclaimed hr, hitem]
  | releaseCell i item p =>
    obtain ⟨hr, hm, hi, hitem, hp⟩ := hat
    refine ⟨h.readable hring hr hpos, by rw [h.moved, h.dequeue, hm], ?_, ?_, ?_⟩
    · rw [OutboundQueue.index_congr h.slots, h.dequeue, hi]
    · rw [hclaimed hr, hitem]
    · rw [h.dequeue, hp]
  | releaseHead item p =>
    obtain ⟨he, hl, hf, hm, hitem, hp⟩ := hat
    have hlt : q.dequeue < q.enqueue := by have := hring.freed_le; omega
    refine ⟨h.encoding ▸ he, by rw [h.encoded, h.dequeue, hl], by rw [h.freed, h.dequeue, hf],
      by rw [h.moved, h.dequeue, hm], ?_, by rw [h.dequeue, hp]⟩
    rw [h.dequeue, h.claimed _ hlt, hitem]
  | encode item =>
    obtain ⟨he, hl, hf, hm, hitem⟩ := hat
    have hlt : q.encoded.length < q.enqueue := by have := hring.freed_le; omega
    refine ⟨h.encoding ▸ he, by rw [h.encoded, h.dequeue, hl], by rw [h.freed, h.dequeue, hf],
      by rw [h.moved, h.dequeue, hm], ?_⟩
    rw [h.encoded, h.claimed _ hlt, hitem]
  | emptyStore head => exact hat.trans h.dequeue.symm
  | emptyCheck head => exact le_of_le_of_eq hat h.dequeue.symm

theorem ConsumerMove.owned (h : ConsumerMove q q') {p : Nat} (ho : Owned q p) : Owned q' p := by
  obtain ⟨hfreed, hcell⟩ := h.cell p ho
  exact ⟨hfreed, h.enqueue ▸ ho.lt_enqueue, hcell ▸ ho.sequence⟩

/-- What a thread without the claim knows survives a step of the thread that holds it,
unless it is about to store back a cursor that has moved. -/
theorem At.of_consumerMove (hat : At q pc) (hd : ¬ pc.Draining) (h : ConsumerMove q q')
    (hstore : ∀ head, pc = .emptyStore head → q'.dequeue = q.dequeue) : At q' pc := by
  cases pc with
  | idle | pushLoad | drainClaim | emptyLoad | drainWake => trivial
  | pushWake p => exact lt_of_lt_of_eq hat h.enqueue.symm
  | pushProbe item p => exact le_of_le_of_eq hat h.enqueue.symm
  | pushCas item p =>
    refine ⟨h.enqueue ▸ hat.1, fun heq => ?_⟩
    have hlt := hat.2 (h.enqueue ▸ heq)
    have := h.freed_le
    rw [h.slots]
    omega
  | pushDepth item p | pushWrite item p first => exact ⟨h.owned hat.1, h.claimed ▸ hat.2⟩
  | pushPublish p first =>
    exact ⟨h.owned hat.1, by rw [(h.cell p hat.1).2, h.claimed, hat.2]⟩
  | popLoad | popProbe | popMove | releaseLoad | releaseCell | releaseHead | encode
    | drainRelease => exact absurd trivial hd
  | emptyStore head => exact (show head = q.dequeue from hat).trans (hstore head rfl).symm
  | emptyCheck head => exact le_trans hat h.dequeue_le

end Moves

end Queue
end Znet

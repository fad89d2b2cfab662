import Znet.Queue.OutboundInvariant

/-!
# Every access keeps the queue's invariant

One lemma for each access that changes the shared state (`claim_ok`, `write_ok`,
`publish_ok`, `takeClaim_ok`, `move_ok`, `releaseCell_ok`, `releaseHead_ok`, `encode_ok`,
`releaseClaim_ok`), one for those that only move the thread (`StepOk.silent`), and
`tick_ok`, which puts them together: whatever access a thread makes next, what it knows
afterwards is true, and what the others know stays true unless a cursor is about to be
stored back.
-/

namespace Znet
namespace Queue

variable {α : Type}

/-- What a step of a thread from `pc` to `pc'` has to show. -/
structure StepOk (q : OutboundQueue α) (pc : Pc α) (q' : OutboundQueue α) (pc' : Pc α) :
    Prop where
  ring : Ring q'
  own : At q' pc'
  /-- The others' knowledge survives, but for a cursor about to be stored back. -/
  others : ∀ pc₂, At q pc₂ → Apart pc pc₂ →
    (∀ head, pc₂ = .emptyStore head → q'.dequeue = q.dequeue) → At q' pc₂
  apart : ∀ pc₂, At q pc₂ → Apart pc pc₂ → Apart pc' pc₂
  claim : q'.encoding = true → pc'.Draining ∨ q.encoding = true ∧ ¬ pc.Draining
  owner : ∀ p, Owned q' p → pc'.Owns p ∨ Owned q p ∧ ¬ pc.Owns p
  /-- Only a position nobody has claimed before gets a new owner. -/
  fresh : ∀ p, pc'.Owns p → pc.Owns p ∨ q.enqueue ≤ p
  enqueue_le : q.enqueue ≤ q'.enqueue
  dequeue_le : q.dequeue ≤ q'.dequeue

section Accesses

variable {q : OutboundQueue α} {pc pc' : Pc α}

/-- An access that changes nothing shared. -/
theorem StepOk.silent (hring : Ring q) (hat : At q pc') (hd : pc'.Draining ↔ pc.Draining)
    (ho : ∀ p, pc'.Owns p ↔ pc.Owns p) : StepOk q pc q pc' := by
  refine ⟨hring, hat, fun pc₂ h _ _ => h, fun pc₂ _ h => ?_, fun he => ?_, fun p hp => ?_,
    fun p hp => .inl ((ho p).1 hp), le_rfl, le_rfl⟩
  · exact ⟨fun hdd => h.1 ⟨hd.1 hdd.1, hdd.2⟩, fun p hoo => h.2 p ⟨(ho p).1 hoo.1, hoo.2⟩⟩
  · by_cases hpc : pc.Draining
    · exact .inl (hd.2 hpc)
    · exact .inr ⟨he, hpc⟩
  · by_cases hpc : pc.Owns p
    · exact .inl ((ho p).2 hpc)
    · exact .inr ⟨hp, hpc⟩

/-- Two steps of one thread with nothing in between. -/
theorem StepOk.trans {q' q'' : OutboundQueue α} {pc'' : Pc α} (h : StepOk q pc q' pc')
    (h' : StepOk q' pc' q'' pc'') : StepOk q pc q'' pc'' := by
  refine ⟨h'.ring, h'.own, fun pc₂ h₂ hap hst => ?_, fun pc₂ h₂ hap => ?_, fun he => ?_,
    fun p hp => ?_, fun p hp => ?_, h.enqueue_le.trans h'.enqueue_le,
    h.dequeue_le.trans h'.dequeue_le⟩
  · have hmid := h.others pc₂ h₂ hap fun head hpc =>
      le_antisymm (h'.dequeue_le.trans (hst head hpc).le) h.dequeue_le
    refine h'.others pc₂ hmid (h.apart pc₂ h₂ hap) fun head hpc => ?_
    exact le_antisymm ((hst head hpc).le.trans h.dequeue_le) h'.dequeue_le
  · by_cases hst : ∃ head, pc₂ = .emptyStore head
    · obtain ⟨head, rfl⟩ := hst
      exact ⟨fun h => h.2, fun p h => h.2⟩
    · have hmid := h.others pc₂ h₂ hap fun head hpc => absurd ⟨head, hpc⟩ hst
      exact h'.apart pc₂ hmid (h.apart pc₂ h₂ hap)
  · rcases h'.claim he with hd | ⟨he', hd⟩
    · exact .inl hd
    · rcases h.claim he' with hd' | hold
      · exact absurd hd' hd
      · exact .inr hold
  · rcases h'.owner p hp with ho | ⟨hp', ho⟩
    · exact .inl ho
    · rcases h.owner p hp' with ho' | hold
      · exact absurd ho' ho
      · exact .inr hold
  · rcases h'.fresh p hp with hp' | hle
    · exact h.fresh p hp'
    · exact .inr (h.enqueue_le.trans hle)

variable {pos p : Nat} {first : Bool} {item : Option α}

/-- A slot that looks free at the end of the claimed positions is free. -/
theorem Ring.room_of_sequence_eq (hring : Ring q) (hpos : pos = q.enqueue)
    (hseq : (q.cell pos).sequence = pos) : pos < q.freed + q.slots := by
  by_contra hfull
  have hle := hring.enqueue_le
  have htwo := hring.two_le
  -- the slot still belongs to the position a lap before
  have hlap : pos = q.freed + q.slots := by omega
  have hcell : q.cell pos = q.cell q.freed := by
    obtain ⟨k, -, hslots⟩ := hring.pow
    unfold OutboundQueue.cell
    rw [OutboundQueue.index_eq_mod hslots, OutboundQueue.index_eq_mod hslots, hlap,
      Nat.add_mod_right]
  rw [hcell] at hseq
  rcases hring.busy q.freed le_rfl (by omega) with h | h <;> omega

/-- The compare-exchange that claims the next position. -/
theorem claim_ok (hring : Ring q) {item : α} (hat : At q (.pushCas item pos))
    (hpos : q.enqueue = pos) :
    StepOk q (.pushCas item pos)
      { q with enqueue := pos + 1, claimed := q.claimed ++ [item] } (.pushDepth item pos) := by
  obtain ⟨-, hroom⟩ := hat
  have hroom := hroom hpos.symm
  have hlen := hring.length_claimed
  have hfree := hring.free pos hpos.le hroom
  have hmove : ProducerMove q
      { q with enqueue := pos + 1, claimed := q.claimed ++ [item] } pos := by
    refine ⟨rfl, rfl, rfl, rfl, rfl, rfl, by simp only; omega, fun p hp => ?_, fun p _ _ _ => rfl⟩
    rw [List.getElem?_append_left (by omega)]
  have howned : Owned { q with enqueue := pos + 1, claimed := q.claimed ++ [item] } pos :=
    ⟨by have := hring.freed_le; simp only; omega, Nat.lt_succ_self pos, hfree⟩
  refine ⟨?_, ⟨howned, ?_⟩, fun pc₂ h₂ _ _ => ?_, fun pc₂ h₂ _ => ?_, fun he => ?_, fun p hp => ?_,
    fun p hp => .inr ?_, hmove.enqueue_le, le_rfl⟩
  · have hfreed := hring.freed_le
    refine ⟨hring.pow, ?_, ?_, ?_, hring.moved_le, hring.dequeue_le, fun p hp => ?_,
      fun p hp hp' => ?_,
      fun p hp hp' hs => ?_, ?_, hring.unclaimed, fun p hp => ?_⟩
    · rw [List.length_append, List.length_singleton, hlen, hpos]
    · simp only
      omega
    · simp only
      omega
    · simp only at hp
      exact hring.free p (by omega)
    · simp only at hp'
      rcases Nat.lt_succ_iff_lt_or_eq.1 hp' with hlt | rfl
      · exact hring.busy p hp (by omega)
      · exact .inl hfree
    · simp only at hp'
      rcases Nat.lt_succ_iff_lt_or_eq.1 hp' with hlt | rfl
      · simp only
        rw [List.getElem?_append_left (by omega)]
        exact hring.value p hp (by omega) hs
      · have := hfree.symm.trans hs
        omega
    · have hle : q.encoded.length ≤ q.claimed.length := by
        have := congrArg List.length hring.encoded
        rw [List.length_map, List.length_take] at this
        omega
      simp only
      rw [List.take_append_of_le_length hle]
      exact hring.encoded
    · have := hring.pushed p hp
      simp only
      omega
  · simp only
    rw [List.getElem?_append_right (by omega), hlen, hpos, Nat.sub_self]
    rfl
  · refine h₂.of_producerMove (fun ho => ?_) hmove hring (.inl hpos.le)
    have := (h₂.owned ho).lt_enqueue
    omega
  · refine ⟨fun h => h.1, fun p h => ?_⟩
    obtain rfl : pos = p := h.1
    have := (h₂.owned h.2).lt_enqueue
    omega
  · exact .inr ⟨he, fun h => h⟩
  · by_cases hp0 : pos = p
    · exact .inl hp0
    · have hlt := hp.lt_enqueue
      simp only at hlt
      exact .inr ⟨{ hp with lt_enqueue := by omega }, fun h => h⟩
  · obtain rfl : pos = p := hp
    exact hpos.le

/-! ### The producer's stores -/

theorem Ring.cell_setCell_ne (hring : Ring q) (c : Cell α) (hp : q.freed ≤ p)
    (hp' : p < q.freed + q.slots) (hpos : q.freed ≤ pos) (hpos' : pos < q.freed + q.slots)
    (hne : p ≠ pos) : (q.setCell (q.index pos) c).cell p = q.cell p := by
  rw [OutboundQueue.cell_setCell, if_neg]
  exact fun heq => hne (hring.index_inj hp hp' hpos hpos' heq)

theorem OutboundQueue.cell_setCell_self (pos : Nat) (c : Cell α) :
    (q.setCell (q.index pos) c).cell pos = c := by
  rw [OutboundQueue.cell_setCell, if_pos rfl]

/-- Storing a value leaves every sequence as it was. -/
theorem OutboundQueue.sequence_setValue (pos : Nat) (v : Option α) (p : Nat) :
    ((q.setCell (q.index pos) { q.cell pos with value := v }).cell p).sequence =
      (q.cell p).sequence := by
  rw [OutboundQueue.cell_setCell]
  split
  · next h => rw [OutboundQueue.cell, OutboundQueue.cell, h]
  · rfl

theorem Owned.lt_lap (hring : Ring q) (ho : Owned q p) : p < q.freed + q.slots :=
  ho.lt_enqueue.trans_le hring.enqueue_le

/-- A producer's store into the slot it owns. -/
theorem producerMove_setCell (hring : Ring q) (ho : Owned q pos) (c : Cell α) :
    ProducerMove q (q.setCell (q.index pos) c) pos :=
  ⟨rfl, rfl, rfl, rfl, rfl, rfl, le_rfl, fun _ _ => rfl, fun _ hp hp' hne =>
    hring.cell_setCell_ne c hp hp' ho.freed_le (ho.lt_lap hring) hne⟩

theorem write_ok (hring : Ring q) {item : α} (hat : At q (.pushWrite item pos first)) :
    StepOk q (.pushWrite item pos first)
      (q.setCell (q.index pos) { q.cell pos with value := some item })
      (.pushPublish pos first) := by
  obtain ⟨ho, hitem⟩ := hat
  have hseq := OutboundQueue.sequence_setValue (q := q) pos (some item)
  have howned : ∀ p, Owned (q.setCell (q.index pos) { q.cell pos with value := some item }) p ↔
      Owned q p := fun p =>
    ⟨fun h => { h with sequence := (hseq p).symm.trans h.sequence },
      fun h => { h with sequence := (hseq p).trans h.sequence }⟩
  refine ⟨?_, ⟨(howned pos).2 ho, ?_⟩, fun pc₂ h₂ hap _ => ?_, fun pc₂ _ hap => hap,
    fun he => .inr ⟨he, fun h => h⟩, fun p hp => ?_, fun p hp => .inl hp, le_rfl, le_rfl⟩
  · refine { hring with
      free := fun p hp hp' => ?_, busy := fun p hp hp' => ?_, value := fun p hp hp' hs => ?_ }
    · rw [hseq]
      exact hring.free p hp hp'
    · rw [hseq]
      exact hring.busy p hp hp'
    · rw [hseq] at hs
      have hne : p ≠ pos := by
        rintro rfl
        have := ho.sequence.symm.trans hs
        omega
      have hfreed : q.freed ≤ p := hring.moved_le.trans hp
      rw [hring.cell_setCell_ne _ hfreed (hp'.trans_le hring.enqueue_le) ho.freed_le
        (ho.lt_lap hring) hne]
      exact hring.value p hp hp' hs
  · rw [OutboundQueue.cell_setCell_self]
    exact hitem.symm
  · exact h₂.of_producerMove (fun h => hap.2 pos ⟨rfl, h⟩) (producerMove_setCell hring ho _) hring
      (.inr ho)
  · by_cases hp0 : pos = p
    · exact .inl hp0
    · exact .inr ⟨(howned p).1 hp, hp0⟩

theorem publish_ok (hring : Ring q) (hat : At q (.pushPublish pos first)) :
    StepOk q (.pushPublish pos first)
      (q.setCell (q.index pos) { q.cell pos with sequence := pos + 1 }) (.pushWake pos) := by
  obtain ⟨ho, hval⟩ := hat
  have hself : (q.setCell (q.index pos) { q.cell pos with sequence := pos + 1 }).cell pos =
      { q.cell pos with sequence := pos + 1 } := OutboundQueue.cell_setCell_self pos _
  have hne : ∀ p, q.freed ≤ p → p < q.freed + q.slots → p ≠ pos →
      (q.setCell (q.index pos) { q.cell pos with sequence := pos + 1 }).cell p = q.cell p :=
    fun p hp hp' h => hring.cell_setCell_ne _ hp hp' ho.freed_le (ho.lt_lap hring) h
  have hlap := hring.enqueue_le
  refine ⟨?_, ho.lt_enqueue, fun pc₂ h₂ hap _ => ?_, fun pc₂ _ _ => ?_,
    fun he => .inr ⟨he, fun h => h⟩, fun p hp => ?_, fun p hp => absurd hp id, le_rfl, le_rfl⟩
  · refine { hring with
      free := fun p hp hp' => ?_, busy := fun p hp hp' => ?_, value := fun p hp hp' hs => ?_ }
    · have hlt := ho.lt_enqueue
      have hfreed := hring.freed_le
      rw [hne p (hfreed.trans hp) hp' (fun h => absurd (h ▸ hp) (Nat.not_le.2 hlt))]
      exact hring.free p hp hp'
    · by_cases hpp : p = pos
      · subst hpp
        rw [hself]
        exact .inr rfl
      · rw [hne p hp (hp'.trans_le hlap) hpp]
        exact hring.busy p hp hp'
    · by_cases hpp : p = pos
      · subst hpp
        rw [hself]
        exact hval
      · rw [hne p (hring.moved_le.trans hp) (hp'.trans_le hlap) hpp] at hs ⊢
        exact hring.value p hp hp' hs
  · exact h₂.of_producerMove (fun h => hap.2 pos ⟨rfl, h⟩) (producerMove_setCell hring ho _) hring
      (.inr ho)
  · exact ⟨fun h => h.1, fun p h => h.1⟩
  · have hpp : p ≠ pos := by
      rintro rfl
      have hs := hp.sequence
      rw [hself] at hs
      simp at hs
    have hs := hp.sequence
    rw [hne p hp.freed_le (hp.lt_enqueue.trans_le hlap) hpp] at hs
    exact .inr ⟨{ hp with sequence := hs }, fun h => hpp h.symm⟩

/-- `Push` returns. -/
theorem return_ok (hring : Ring q) (hat : At q (.pushWake pos)) :
    StepOk q (.pushWake pos) { q with pushed := q.pushed ++ [pos] } .idle := by
  refine ⟨?_, trivial, fun pc₂ h₂ _ _ => ?_, fun pc₂ _ hap => hap,
    fun he => .inr ⟨he, fun h => h⟩, fun p hp => .inr ⟨⟨hp.1, hp.2, hp.3⟩, fun h => h⟩,
    fun p hp => absurd hp id, le_rfl, le_rfl⟩
  · exact { hring with
      pushed := List.forall_mem_append.2 ⟨hring.pushed, List.forall_mem_singleton.2 hat⟩ }
  · have hmove : ProducerMove q { q with pushed := q.pushed ++ [pos] } q.enqueue :=
      ⟨rfl, rfl, rfl, rfl, rfl, rfl, le_rfl, fun _ _ => rfl, fun _ _ _ _ => rfl⟩
    exact h₂.of_producerMove (fun ho => lt_irrefl _ (h₂.owned ho).lt_enqueue) hmove hring
      (.inl le_rfl)

/-! ### The drainer's stores -/

theorem takeClaim_ok (hring : Ring q) (he : q.encoding = false) :
    StepOk q .drainClaim { q with encoding := true } .popLoad := by
  obtain ⟨hlen, hmoved, hfreed⟩ := hring.unclaimed he
  have hnone : ∀ pc₂, At q pc₂ → ¬ pc₂.Draining := fun pc₂ h₂ hd => by
    rw [h₂.encoding hd] at he
    cases he
  refine ⟨?_, ⟨⟨rfl, hlen, hfreed⟩, hmoved⟩, fun pc₂ h₂ _ hst => ?_, fun pc₂ h₂ _ => ?_,
    fun _ => .inl trivial, fun p hp => .inr ⟨⟨hp.1, hp.2, hp.3⟩, fun h => h⟩,
    fun p hp => absurd hp id, le_rfl, le_rfl⟩
  · exact { hring with unclaimed := fun h => absurd h (by simp) }
  · exact h₂.of_consumerMove (hnone pc₂ h₂)
      ⟨rfl, rfl, rfl, le_rfl, le_rfl, fun p h => ⟨h.1, rfl⟩⟩ hst
  · exact ⟨fun h => hnone pc₂ h₂ h.2, fun p h => h.1⟩

/-- A step of the thread that holds the claim, which owns no position. -/
theorem StepOk.drained {q' : OutboundQueue α} (hring : Ring q') (hat : At q' pc')
    (hd : pc.Draining) (hd' : q'.encoding = true → pc'.Draining)
    (ho : ∀ p, ¬ pc.Owns p ∧ ¬ pc'.Owns p) (hmove : ConsumerMove q q')
    (howned : ∀ p, Owned q' p → Owned q p) : StepOk q pc q' pc' where
  ring := hring
  own := hat
  others _ h₂ hap hst := h₂.of_consumerMove (fun hd₂ => hap.1 ⟨hd, hd₂⟩) hmove hst
  apart _ _ hap := ⟨fun h => hap.1 ⟨hd, h.2⟩, fun p h => (ho p).2 h.1⟩
  claim he := .inl (hd' he)
  owner p hp := .inr ⟨howned p hp, (ho p).1⟩
  fresh p hp := absurd hp (ho p).2
  enqueue_le := hmove.enqueue.ge
  dequeue_le := hmove.dequeue_le

theorem Owned.ne_readable (hr : Readable q) (ho : Owned q p) : p ≠ q.dequeue := by
  rintro rfl
  have := ho.sequence.symm.trans hr.sequence
  omega

variable (hring : Ring q)

include hring

theorem Readable.lt_lap (hr : Readable q) : q.dequeue < q.freed + q.slots :=
  hr.lt_enqueue.trans_le hring.enqueue_le

theorem move_ok (hat : At q (.popMove pos)) : StepOk q (.popMove pos)
      { q.setCell (q.index pos) { q.cell pos with value := none } with moved := q.moved + 1 }
      (.releaseLoad (q.index pos) (q.cell pos).value) := by
  obtain ⟨hr, hmoved, rfl⟩ := hat
  have hseq := OutboundQueue.sequence_setValue (q := q) q.dequeue none
  have hne : ∀ p, q.freed ≤ p → p < q.freed + q.slots → p ≠ q.dequeue →
      (q.setCell (q.index q.dequeue) { q.cell q.dequeue with value := none }).cell p = q.cell p :=
    fun p hp hp' h => hring.cell_setCell_ne _ hp hp' hr.freed.le (hr.lt_lap hring) h
  have hval := hring.value q.dequeue hmoved.le hr.lt_enqueue hr.sequence
  refine .drained ?_ ⟨⟨{ hr with }, hr.lt_enqueue, (hseq _).trans hr.sequence⟩,
    by simp only [hmoved]; rfl, rfl, hval⟩ trivial (fun _ => trivial) (fun _ => ⟨id, id⟩)
    ⟨rfl, rfl, rfl, le_rfl, le_rfl, fun p h => ⟨h.1, ?_⟩⟩
    fun p hp => ⟨hp.1, hp.2, (hseq p).symm.trans hp.3⟩
  · refine { hring with
      moved_le := hring.moved_le.trans (Nat.le_succ _)
      free := fun p hp hp' => (hseq p).trans (hring.free p hp hp')
      busy := fun p hp hp' => ?_
      value := fun p hp hp' hs => ?_
      unclaimed := fun h => absurd (hr.encoding.symm.trans h) (by simp) }
    · have := hring.busy p hp hp'
      rwa [← hseq p] at this
    · have hs' : (q.cell p).sequence = p + 1 := (hseq p).symm.trans hs
      have hlt : q.moved < p := hp
      have hcell := hne p (hring.moved_le.trans hlt.le) (hp'.trans_le hring.enqueue_le) (by omega)
      exact (congrArg Cell.value hcell).trans (hring.value p hlt.le hp' hs')
  · exact hne p h.freed_le (h.lt_lap hring) (h.ne_readable hr)

theorem releaseCell_ok {i : Nat} (hat : At q (.releaseCell i item pos)) :
    StepOk q (.releaseCell i item pos)
      { q.setCell i { q.cells i with sequence := pos + q.slots } with freed := q.freed + 1 }
      (.releaseHead item pos) := by
  obtain ⟨hr, hmoved, rfl, hitem, rfl⟩ := hat
  have hfreed := hr.freed
  have hlap := hring.enqueue_le
  have hne : ∀ p, q.freed ≤ p → p < q.freed + q.slots → p ≠ q.dequeue →
      (q.setCell (q.index q.dequeue)
        { q.cells (q.index q.dequeue) with sequence := q.dequeue + q.slots }).cell p = q.cell p :=
    fun p hp hp' h => hring.cell_setCell_ne _ hp hp' hr.freed.le (hr.lt_lap hring) h
  refine .drained ?_ ⟨hr.encoding, hr.encoded, congrArg (· + 1) hfreed, hmoved, hitem, rfl⟩ trivial
    (fun _ => trivial) (fun _ => ⟨id, id⟩)
    ⟨rfl, rfl, rfl, Nat.le_succ _, le_rfl, fun p h => ⟨?_, ?_⟩⟩ fun p hp => ?_
  · refine { hring with
      freed_le := (Nat.succ_le_succ hfreed.le).trans hr.lt_enqueue
      enqueue_le := hlap.trans (by simp only [OutboundQueue.setCell]; omega)
      moved_le := (Nat.succ_le_succ hfreed.le).trans hmoved.ge
      dequeue_le := hfreed.ge.trans (Nat.le_succ _)
      free := fun p hp hp' => ?_
      busy := fun p hp hp' => ?_
      value := fun p hp hp' hs => ?_
      unclaimed := fun h => absurd (hr.encoding.symm.trans h) (by simp) }
    · -- the slot just handed back, or one that was free before
      simp only [OutboundQueue.setCell] at hp hp'
      by_cases hback : p = q.dequeue + q.slots
      · obtain ⟨k, -, hslots⟩ := hring.pow
        have hidx : q.index p = q.index q.dequeue := by
          rw [OutboundQueue.index_eq_mod hslots, OutboundQueue.index_eq_mod hslots, hback,
            Nat.add_mod_right]
        show ((q.setCell _ _).cell p).sequence = p
        rw [OutboundQueue.cell_setCell, if_pos hidx, hback]
      · have hfree := hring.free p hp (by omega)
        have hlt := hr.lt_enqueue
        exact (congrArg Cell.sequence (hne p (by omega) (by omega) (by omega))).trans hfree
    · have hlow : q.freed < p := hp
      have hbusy := hring.busy p hlow.le hp'
      rw [← hne p hlow.le (hp'.trans_le hlap) (by omega)] at hbusy
      exact hbusy
    · have hlow : q.moved ≤ p := hp
      have hcell := hne p (hring.moved_le.trans hlow) (hp'.trans_le hlap) (by omega)
      have hs' : (q.cell p).sequence = p + 1 := (congrArg Cell.sequence hcell).symm.trans hs
      exact (congrArg Cell.value hcell).trans (hring.value p hlow hp' hs')
  · have h1 := h.freed_le
    have h2 := h.ne_readable hr
    simp only
    omega
  · exact hne p h.freed_le (h.lt_lap hring) (h.ne_readable hr)
  · have hlow : q.freed < p := hp.freed_le
    have hcell := hne p hlow.le (hp.lt_enqueue.trans_le hlap) (by omega)
    exact ⟨hlow.le, hp.lt_enqueue, (congrArg Cell.sequence hcell).symm.trans hp.sequence⟩

theorem releaseHead_ok (hat : At q (.releaseHead item pos)) :
    StepOk q (.releaseHead item pos) { q with dequeue := pos + 1 } (.encode item) := by
  obtain ⟨he, hlen, hfreed, hmoved, hitem, rfl⟩ := hat
  refine .drained ?_ ⟨he, congrArg (· + 1) hlen, hfreed, hmoved, ?_⟩ trivial (fun _ => trivial)
    (fun _ => ⟨id, id⟩) ⟨rfl, rfl, rfl, le_rfl, Nat.le_succ _, fun p h => ⟨h.1, rfl⟩⟩
    fun p hp => ⟨hp.1, hp.2, hp.3⟩
  · exact { hring with
      dequeue_le := hfreed.ge
      unclaimed := fun h => absurd (he.symm.trans h) (by simp) }
  · rw [hitem, hlen]

theorem encode_ok (hat : At q (.encode item)) :
    StepOk q (.encode item) { q with encoded := q.encoded ++ [item] } .popLoad := by
  obtain ⟨he, hlen, hfreed, hmoved, hitem⟩ := hat
  have hlt : q.encoded.length < q.claimed.length := by
    have := hring.freed_le
    rw [hring.length_claimed]
    omega
  have hlen' : (q.encoded ++ [item]).length = q.dequeue := by
    rw [List.length_append, List.length_singleton, hlen]
  refine .drained { hring with
      encoded := ?_
      unclaimed := fun h => absurd (he.symm.trans h) (by simp) }
        ⟨⟨he, hlen', hfreed⟩, hmoved⟩ trivial
    (fun _ => trivial) (fun _ => ⟨id, id⟩) ⟨rfl, rfl, rfl, le_rfl, le_rfl, fun p h => ⟨h.1, rfl⟩⟩
    fun p hp => ⟨hp.1, hp.2, hp.3⟩
  show q.encoded ++ [item] = (q.claimed.take (q.encoded ++ [item]).length).map some
  rw [List.length_append, List.length_singleton, List.take_add_one, List.map_append,
    ← hring.encoded, hitem, List.getElem?_eq_getElem hlt]
  rfl

theorem releaseClaim_ok (hat : At q .drainRelease) :
    StepOk q .drainRelease { q with encoding := false } .emptyLoad := by
  obtain ⟨hh, hmoved⟩ := hat
  exact .drained { hring with unclaimed := fun _ => ⟨hh.encoded, hmoved, hh.freed⟩ } trivial trivial
    (fun h => absurd h (by simp)) (fun _ => ⟨id, id⟩)
    ⟨rfl, rfl, rfl, le_rfl, le_rfl, fun p h => ⟨h.1, rfl⟩⟩ fun p hp => ⟨hp.1, hp.2, hp.3⟩

/-- **Every access is in order.** -/
theorem tick_ok (hat : At q pc) (spurious : Bool) :
    StepOk q pc (tick q spurious pc).1 (tick q spurious pc).2 := by
  cases pc with
  | idle | drainWake => exact .silent hring trivial Iff.rfl fun _ => Iff.rfl
  | pushLoad item => exact .silent hring le_rfl Iff.rfl fun _ => Iff.rfl
  | pushProbe item pos =>
    rw [tick]
    split
    · next hseq =>
      refine .silent hring ⟨hat, fun heq => ?_⟩ Iff.rfl fun _ => Iff.rfl
      exact hring.room_of_sequence_eq heq hseq
    · split <;> exact .silent hring trivial Iff.rfl fun _ => Iff.rfl
  | pushCas item pos =>
    rw [tick]
    split
    · next h => exact claim_ok hring hat h.1
    · exact .silent hring le_rfl Iff.rfl fun _ => Iff.rfl
  | pushDepth item pos => exact .silent hring hat Iff.rfl fun _ => Iff.rfl
  | pushWrite item pos first => exact write_ok hring hat
  | pushPublish pos first =>
    have hpub := publish_ok hring hat
    cases first with
    | true => exact hpub
    | false => exact hpub.trans (return_ok hpub.ring hpub.own)
  | pushWake pos => exact return_ok hring hat
  | drainClaim =>
    rw [tick]
    split
    · exact .silent hring trivial Iff.rfl fun _ => Iff.rfl
    · next h => exact takeClaim_ok hring (by simpa using h)
  | popLoad => exact .silent hring ⟨hat.1, hat.2, rfl⟩ Iff.rfl fun _ => Iff.rfl
  | popProbe pos =>
    obtain ⟨hh, hmoved, rfl⟩ := hat
    rw [tick]
    split
    · next hseq =>
      refine .silent hring ⟨⟨hh, ?_, hseq⟩, hmoved, rfl⟩ Iff.rfl fun _ => Iff.rfl
      -- a published cell belongs to a claimed position
      by_contra hge
      have hfree := hring.free q.dequeue (by omega) (by
        have := hh.freed
        have := hring.two_le
        omega)
      omega
    · exact .silent hring ⟨hh, hmoved⟩ Iff.rfl fun _ => Iff.rfl
  | popMove pos => exact move_ok hring hat
  | releaseLoad i item =>
    obtain ⟨hr, hmoved, hi, hitem⟩ := hat
    exact .silent hring ⟨hr, hmoved, hi, hitem, rfl⟩ Iff.rfl fun _ => Iff.rfl
  | releaseCell i item pos => exact releaseCell_ok hring hat
  | releaseHead item pos => exact releaseHead_ok hring hat
  | encode item => exact encode_ok hring hat
  | drainRelease => exact releaseClaim_ok hring hat
  | emptyLoad => exact .silent hring rfl Iff.rfl fun _ => Iff.rfl
  | emptyStore head =>
    obtain rfl : head = q.dequeue := hat
    exact .silent hring le_rfl Iff.rfl fun _ => Iff.rfl
  | emptyCheck head =>
    rw [tick]
    split <;> exact .silent hring trivial Iff.rfl fun _ => Iff.rfl

end Accesses

end Queue
end Znet

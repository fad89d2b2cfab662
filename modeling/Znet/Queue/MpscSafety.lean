import Znet.Queue.MpscRing

/-!
# What holds of the bounded queue while threads run
-/

namespace Znet
namespace Queue

variable {α : Type}

/-! ## The invariant -/

variable {T : Type}

/-- Fewer than `2 ^ 62` positions were claimed since any call began that is looking for one. -/
def Mpsc.Calm (σ : Mpsc T α) : Prop :=
  ∀ t n, (σ.pc t).since = some n → σ.shared.queue.claimed.length < n + 2 ^ 62

/-- The ring, what each thread knows, and an owner for each position that was claimed and not
stored into. -/
structure Sound (q : MpscQueue α) (c : PopPc) (pc : T → PushPc α) : Prop where
  holds : Threads.Holds (fun q => MpscRing q ∧ ConsumerAt q c) ProducerAt OwnApart q pc
  attended : ∀ n, q.released ≤ n → n < q.claimed.length →
    (q.slot n).sequence = BitVec.ofNat 64 n → ∃ t, (pc t).owns = some n

section Steps

variable {q : MpscQueue α} {c : PopPc} {pc : T → PushPc α}

theorem Sound.ring (h : Sound q c pc) : MpscRing q := h.holds.shared.1

theorem Sound.consumerAt (h : Sound q c pc) : ConsumerAt q c := h.holds.shared.2

variable {t : T} {q' : MpscQueue α} {c' : PopPc} {drain : Bool} {pos : BitVec 64} {σ : Mpsc T α}
  {pc' : PushPc α} {m : Nat}

theorem Sound.owner_lt (h : Sound q c pc) {n : Nat} (ho : (pc t).owns = some n) :
    n < q.claimed.length := by
  obtain ⟨_, _, hslot⟩ := (h.holds.each t).owned ho
  exact hslot.lt_claimed

/-- **A step of the consumer.** -/
theorem Sound.served (h : Sound q c pc) (hring : MpscRing q') (hat : ConsumerAt q' c')
    (hserved : Served q q') (hback : ∀ n, q'.released ≤ n → n < q'.claimed.length →
      (q'.slot n).sequence = BitVec.ofNat 64 n → (q.slot n).sequence = BitVec.ofNat 64 n) :
    Sound q' c' pc := by
  constructor
  · exact ⟨⟨hring, hat⟩, fun t => (h.holds.each t).of_served hserved, h.holds.pairs⟩
  · intro n (hn : q'.released ≤ n) (hn' : n < q'.claimed.length) hseq
    apply h.attended n (hserved.released_le.trans hn) (hserved.claimed ▸ hn')
    exact hback n hn hn' hseq

/-- A step of the consumer that changes nothing of the queue. -/
theorem Sound.peeked (h : Sound q c pc) (c' : PopPc) (hat : ConsumerAt q c') :
    Sound q c' pc := by
  apply h.served h.ring hat
  · exact ⟨rfl, rfl, le_rfl, fun n hn _ _ => ⟨hn, rfl⟩⟩
  · exact fun _ _ _ hseq => hseq

/-- The consumer moves the oldest value out. -/
theorem Sound.move (h : Sound q (.move drain pos) pc) :
    Sound (popStep q (.move drain pos)).1 (popStep q (.move drain pos)).2 pc := by
  obtain ⟨hrest, hpos, hlt, hseq⟩ := h.consumerAt
  have hlap := h.ring.claimed_le
  have hslot := fun n (hn : q.released ≤ n) (hn' : n < q.released + q.slots) =>
    h.ring.slot_setCell le_rfl (by omega) hn hn' ⟨BitVec.ofNat 64 (q.released + 1), none⟩
  have hcell : q.cell (BitVec.ofNat 64 q.released) = q.slot q.released := rfl
  simp only [popStep, hpos, hrest.dequeue, hcell, hseq]
  apply h.served (h.ring.move hrest hlt hseq)
  · refine ⟨hrest.dequeue, ?_, rfl⟩
    show (q.popped ++ [_]).length = q.released + 1
    rw [List.length_append, List.length_singleton, hrest.moved]
  · refine ⟨rfl, rfl, le_rfl, fun n hn hn' hfree => ⟨hn, ?_⟩⟩
    refine (hslot n hn (by omega)).trans (if_neg ?_)
    rintro rfl
    exact ofNat_ne_succ _ (hfree.symm.trans hseq)
  · intro n (hn : q.released ≤ n) (hn' : n < q.claimed.length) hfree
    have hmoved := congrArg MpscCell.sequence (hslot n hn (by omega))
    by_cases heq : n = q.released
    · subst heq
      rw [if_pos rfl] at hmoved
      exact absurd (hfree.symm.trans hmoved) (ofNat_ne_succ _)
    · rw [if_neg heq] at hmoved
      exact hmoved.symm.trans hfree

/-- The consumer hands the slot back. -/
theorem Sound.release {i : BitVec 64} (h : Sound q (.releaseCell drain i pos) pc) :
    Sound (popStep q (.releaseCell drain i pos)).1 (popStep q (.releaseCell drain i pos)).2 pc := by
  obtain ⟨htaken, hpos⟩ := h.consumerAt
  have hlap := h.ring.claimed_le
  have hmoved := h.ring.moved q.released le_rfl (by rw [htaken.moved]; omega)
  have hcells : q.cells (BitVec.ofNat 64 q.released &&& q.mask) =
      ⟨BitVec.ofNat 64 (q.released + 1), none⟩ := hmoved
  -- a claimed position other than the oldest keeps its slot
  have hslot : ∀ n, q.released < n → n < q.claimed.length →
      (q.setCell (BitVec.ofNat 64 q.released &&& q.mask)
        ⟨BitVec.ofNat 64 (q.released + q.slots), none⟩).slot n = q.slot n := by
    intro n hn hn'
    rw [h.ring.slot_setCell le_rfl (by omega) hn.le (by omega), if_neg (by omega)]
  simp only [popStep, hpos, htaken.index, htaken.dequeue, hcells, handed_back]
  apply h.served (h.ring.release htaken.moved)
  · refine ⟨htaken.moved, ofNat_succ _, htaken.dequeue, Nat.succ_pos _⟩
  · refine ⟨rfl, rfl, Nat.le_succ _, fun n hn hn' hfree => ?_⟩
    have hne : n ≠ q.released := by
      rintro rfl
      exact ofNat_ne_succ _ (hfree.symm.trans (congrArg MpscCell.sequence hmoved))
    exact ⟨by show q.released + 1 ≤ n; omega, hslot n (by omega) hn'⟩
  · intro n (hn : q.released + 1 ≤ n) (hn' : n < q.claimed.length) hfree
    exact (congrArg MpscCell.sequence (hslot n hn hn')).symm.trans hfree

/-- The consumer stores its cursor. -/
theorem Sound.setHead (h : Sound q c pc) (head : BitVec 64)
    (hat : ConsumerAt { q with dequeue := head } c') :
    Sound { q with dequeue := head } c' pc := by
  apply h.served (h.ring.dequeue head) hat
  · exact ⟨rfl, rfl, le_rfl, fun n hn _ _ => ⟨hn, rfl⟩⟩
  · exact fun _ _ _ hfree => hfree

/-- **An access of the consumer.** -/
theorem Sound.popStep (h : Sound q c pc) :
    Sound (popStep q c).1 (popStep q c).2 pc := by
  have hat := h.consumerAt
  cases c with
  | idle => exact h.peeked .idle hat
  | load drain =>
    exact h.peeked (.probe drain _) ⟨hat, rfl⟩
  | probe drain pos =>
    obtain ⟨hrest, rfl⟩ := hat
    rw [Queue.popStep]
    split
    · next hstored =>
      have hseq : (q.slot q.released).sequence = BitVec.ofNat 64 (q.released + 1) := by
        rw [MpscQueue.slot, ← hrest.dequeue, hstored, hrest.dequeue, ofNat_succ]
      refine h.peeked (.move drain _) ⟨hrest, rfl, ?_, hseq⟩
      -- an unclaimed slot has the sequence of its position
      by_contra hempty
      have hfree := h.ring.free q.released (by omega) (by have := h.ring.slots_le.2; omega)
      exact ofNat_ne_succ _ ((congrArg MpscCell.sequence hfree).symm.trans hseq)
    · exact h.peeked .idle hrest
  | move drain pos => exact h.move
  | releaseLoad drain i =>
    exact h.peeked (.releaseCell drain i _) ⟨hat, rfl⟩
  | releaseCell drain i pos => exact h.release
  | releaseHead drain pos =>
    obtain ⟨hmoved, hpos, -, -⟩ := hat
    have hrest : Rest { q with dequeue := pos + 1 } := ⟨hpos, hmoved⟩
    apply h.setHead
    cases drain with
    | false | true => exact hrest
  | emptyLoad =>
    exact h.peeked (.emptyStore _) ⟨hat, rfl⟩
  | emptyStore head =>
    obtain ⟨hrest, rfl⟩ := hat
    exact h.setHead _ ⟨{ hrest with }, rfl⟩
  | emptyCheck head =>
    exact h.peeked .idle hat.1

theorem Sound.call (h : Sound q c pc) (c' : PopPc) (hrest : Rest q → ConsumerAt q c')
    (hcall : Mpsc.call ⟨⟨q, c⟩, pc⟩ c' = some σ) :
    Sound σ.shared.queue σ.shared.consumer σ.pc := by
  obtain ⟨hidle, ⟨⟩⟩ := Option.ite_none_right_eq_some.1 hcall
  cases c with
  | idle => exact h.peeked c' (hrest h.consumerAt)
  | load | probe | move | releaseLoad | releaseCell | releaseHead | emptyLoad | emptyStore
    | emptyCheck => simp [PopPc.isIdle] at hidle

variable [DecidableEq T]

/-- **A step of a producer** that stores to slot `m` or claims a position. -/
theorem Sound.fed (h : Sound q c pc) (t : T) (hring : MpscRing q') (hat : ProducerAt q' pc')
    (hfed : Fed q q' m)
    (hm : q.claimed.length ≤ m ∨ (q.slot m).sequence = BitVec.ofNat 64 m ∧ (pc t).owns = some m)
    (howns : ∀ n, pc'.owns = some n → (pc t).owns = some n ∨ n = q.claimed.length)
    (hattended : ∀ n, q.released ≤ n → n < q'.claimed.length →
      (q'.slot n).sequence = BitVec.ofNat 64 n → pc'.owns = some n ∨
        n < q.claimed.length ∧ (q.slot n).sequence = BitVec.ofNat 64 n ∧ (pc t).owns ≠ some n) :
    Sound q' c (Function.update pc t pc') := by
  constructor
  · apply h.holds.update t
    · exact ⟨hring, h.consumerAt.of_fed hfed h.ring (hm.imp id And.left)⟩
    · exact hat
    · intro u hu hknows hapart
      apply ProducerAt.of_fed hknows _ hfed h.ring
      intro ho
      rcases hm with hle | ⟨-, hown⟩
      · exact absurd (h.owner_lt ho) (Nat.not_lt.2 hle)
      · exact hapart m ⟨hown, ho⟩
    · intro u hu hapart n ⟨hown, ho⟩
      rcases howns n hown with hold | hnew
      · exact hapart n ⟨hold, ho⟩
      · exact absurd (h.owner_lt ho) (by omega)
    · exact fun _ _ => OwnApart.symm
  · intro n (hn : q'.released ≤ n) hn' hseq
    rw [hfed.released] at hn
    have howner : pc'.owns = some n ∨
        (∃ u, (pc u).owns = some n) ∧ ¬ (pc t).owns = some n :=
      (hattended n hn hn' hseq).imp id fun hold => ⟨h.attended n hn hold.1 hold.2.1, hold.2.2⟩
    exact @Threads.exists_update T _ _ _ _ _ (PushPc.owns · = some n) howner

/-- A step of a producer that changes nothing of the queue. -/
theorem Sound.looked (h : Sound q c pc) {old : PushPc α} (hpc : pc t = old) (pc' : PushPc α)
    (hat : ProducerAt q pc') (howns : pc'.owns = old.owns) :
    Sound q c (Function.update pc t pc') := by
  subst hpc
  apply h.fed t h.ring hat (m := q.claimed.length)
    ⟨rfl, rfl, rfl, rfl, List.prefix_rfl, fun _ _ _ _ => rfl⟩ (.inl le_rfl)
  · intro n hown
    exact .inl (howns ▸ hown)
  · intro n _ hn' hseq
    by_cases hown : pc'.owns = some n
    · exact .inl hown
    · exact .inr ⟨hn', hseq, howns ▸ hown⟩

/-- The compare-exchange. -/
theorem Sound.claim (h : Sound q c pc) {call : PushCall α} (hpc : pc t = .cas call pos)
    (hcalm : Mpsc.Calm ⟨⟨q, c⟩, pc⟩) (heq : q.enqueue = pos) :
    Sound { q with enqueue := pos + 1, claimed := q.claimed ++ [call.item] } c
      (Function.update pc t (if call.wants then .depth call.item pos q.claimed.length
        else .write call.item pos q.claimed.length)) := by
  have hat := h.holds.each t
  rw [hpc] at hat
  obtain ⟨n, hpos, hsince, hn, hlap⟩ := hat
  have hnear : q.claimed.length < _ := hcalm t call.since (congrArg PushPc.since hpc)
  -- a position this close to the cursor is the one it stands at
  obtain rfl : n = q.claimed.length := by
    apply eq_of_ofNat_eq hn (by omega)
    rw [← hpos, ← heq, h.ring.enqueue]
  have hring := h.ring.claim call.item hlap
  rw [heq] at hring
  have hlength : (q.claimed ++ [call.item]).length = q.claimed.length + 1 := List.length_append
  have hfree := h.ring.free _ le_rfl hlap
  have howned : OwnsSlot { q with enqueue := pos + 1, claimed := q.claimed ++ [call.item] }
      call.item pos q.claimed.length := by
    refine ⟨h.ring.released_le.trans h.ring.popped_le, ?_, hpos, congrArg MpscCell.sequence hfree,
      ?_⟩
    · show _ < (q.claimed ++ [call.item]).length
      omega
    · exact List.getElem?_concat_length
  have hvalue := congrArg MpscCell.value hfree
  have howns : PushPc.owns (if call.wants then .depth call.item pos q.claimed.length
      else .write call.item pos q.claimed.length) = some q.claimed.length := by
    split <;> rfl
  apply h.fed t hring (m := q.claimed.length)
  · split <;> exact ⟨howned, hvalue⟩
  · exact ⟨rfl, rfl, rfl, rfl, List.prefix_append _ _, fun _ _ _ _ => rfl⟩
  · exact .inl le_rfl
  · intro n hown
    rw [howns] at hown
    exact .inr (Option.some.inj hown).symm
  · intro n _ (hn' : n < (q.claimed ++ [call.item]).length) hseq
    rw [hlength] at hn'
    rw [howns]
    rcases Nat.lt_or_ge n q.claimed.length with hold | hnew
    · refine .inr ⟨hold, hseq, ?_⟩
      rw [hpc]
      nofun
    · exact .inl (congrArg some (by omega))

/-- What a store of the owner does to the others. -/
theorem Sound.stored (h : Sound q c pc) {item : α} (hown : (pc t).owns = some m)
    (ho : OwnsSlot q item pos m) {cell : MpscCell α} {pushed : List (Nat × α)}
    (hring : MpscRing { q.setCell (pos &&& q.mask) cell with pushed := pushed })
    (hat : ProducerAt { q.setCell (pos &&& q.mask) cell with pushed := pushed } pc')
    (howns : ∀ n, pc'.owns = some n → n = m)
    (hcell : cell.sequence = BitVec.ofNat 64 m → pc'.owns = some m) :
    Sound { q.setCell (pos &&& q.mask) cell with pushed := pushed } c
      (Function.update pc t pc') := by
  have hlap := h.ring.claimed_le
  have hslot : ∀ n, q.released ≤ n → n < q.released + q.slots →
      (q.setCell (pos &&& q.mask) cell).slot n = if n = m then cell else q.slot n :=
    fun n hn hn' => h.ring.slot_store ho cell hn hn'
  apply h.fed t hring hat (m := m)
  · refine ⟨rfl, rfl, rfl, rfl, List.prefix_rfl, fun n hn hn' hne => ?_⟩
    exact (hslot n hn hn').trans (if_neg hne)
  · exact .inr ⟨ho.sequence, hown⟩
  · intro n hn
    exact .inl (hown.trans (congrArg some (howns n hn).symm))
  · intro n hn (hn' : n < q.claimed.length) hseq
    have hnow := hslot n hn (by omega)
    by_cases heq : n = m
    · subst heq
      rw [if_pos rfl] at hnow
      exact .inl (hcell ((congrArg MpscCell.sequence hnow).symm.trans hseq))
    · rw [if_neg heq] at hnow
      refine .inr ⟨hn', (congrArg MpscCell.sequence hnow).symm.trans hseq, ?_⟩
      rw [hown]
      exact fun hsame => heq (Option.some.inj hsame).symm

/-- **A producer's access.** -/
theorem Sound.pushStep (h : Sound q c pc) (hcalm : Mpsc.Calm ⟨⟨q, c⟩, pc⟩) (t : T)
    (spurious : Bool) :
    Sound (pushStep q spurious (pc t)).1 c
      (Function.update pc t (pushStep q spurious (pc t)).2) := by
  have hat := h.holds.each t
  cases hpc : pc t with
  | idle => exact h.looked hpc .idle trivial rfl
  | load call =>
    rw [hpc] at hat
    exact h.looked hpc (.probe call _) ⟨_, h.ring.enqueue, hat, le_rfl⟩ rfl
  | probe call pos =>
    rw [hpc] at hat
    obtain ⟨n, rfl, hsince, hn⟩ := hat
    have hnear : q.claimed.length < _ := hcalm t call.since (congrArg PushPc.since hpc)
    rw [Queue.pushStep]
    split
    · next hzero =>
      rcases h.ring.distance hn (by omega) with ⟨-, hlap⟩ | ⟨hne, -⟩
      · exact h.looked hpc (.cas call _) ⟨n, rfl, hsince, hn, hlap⟩ rfl
      · exact absurd hzero hne
    · split
      · exact h.looked hpc .idle trivial rfl
      · exact h.looked hpc (.load call) (hsince.trans hn) rfl
  | cas call pos =>
    rw [Queue.pushStep]
    split
    · next hswap => exact h.claim hpc hcalm hswap.1
    · rw [hpc] at hat
      obtain ⟨n, -, hsince, hn, -⟩ := hat
      exact h.looked hpc (.probe call _) ⟨_, h.ring.enqueue, hsince.trans hn, le_rfl⟩ rfl
  | depth item pos n =>
    rw [hpc] at hat
    exact h.looked hpc (.write item pos n) hat rfl
  | write item pos n =>
    rw [hpc] at hat
    obtain ⟨ho, -⟩ := hat
    have hseq : (q.cell pos).sequence = BitVec.ofNat 64 n := by
      rw [ho.cell, ho.sequence]
    have hring := h.ring.store ho (c := ⟨(q.cell pos).sequence, some item⟩) (.inl hseq)
    have hslot := h.ring.slot_store ho ⟨(q.cell pos).sequence, some item⟩
      ho.released_le (lt_of_lt_of_le ho.lt_claimed h.ring.claimed_le)
    rw [if_pos rfl] at hslot
    apply h.stored (congrArg PushPc.owns hpc) ho hring
    · refine ⟨{ ho with sequence := ?_ }, ?_⟩
      · exact (congrArg MpscCell.sequence hslot).trans hseq
      · exact congrArg MpscCell.value hslot
    · exact fun m hm => (Option.some.inj hm).symm
    · exact fun _ => rfl
  | publish item pos n =>
    rw [hpc] at hat
    obtain ⟨ho, hvalue⟩ := hat
    have hcell : (⟨pos + 1, (q.cell pos).value⟩ : MpscCell α) =
        ⟨BitVec.ofNat 64 (n + 1), some item⟩ := by
      rw [ho.cell, hvalue, ho.position, ofNat_succ]
    have hring := h.ring.store ho (.inr hcell)
    have hslot := h.ring.slot_store ho ⟨pos + 1, (q.cell pos).value⟩
      ho.released_le (lt_of_lt_of_le ho.lt_claimed h.ring.claimed_le)
    rw [if_pos rfl] at hslot
    have hrecord := hring.record (n := n) ho.claimed
      (congrArg MpscCell.sequence (hslot.trans hcell)) (h.ring.not_pushed ho)
    apply h.stored (congrArg PushPc.owns hpc) ho hrecord
    · trivial
    · nofun
    · intro hseq
      exact absurd (hseq.symm.trans (congrArg MpscCell.sequence hcell)) (ofNat_ne_succ n)

/-- **One step.** -/
theorem Sound.next {σ' : Mpsc T α} (h : Sound σ.shared.queue σ.shared.consumer σ.pc)
    (hcalm : σ.Calm) {e : MpscEvent T α} (hnext : σ.next e = some σ') :
    Sound σ'.shared.queue σ'.shared.consumer σ'.pc := by
  obtain ⟨⟨q, c⟩, pc⟩ := σ
  cases e with
  | push t item wants =>
    obtain ⟨hidle, ⟨⟩⟩ := Option.ite_none_right_eq_some.1 hnext
    cases hpc : pc t with
    | idle => exact h.looked hpc (.load { item, wants, since := _ }) le_rfl rfl
    | load | probe | cas | depth | write | publish => simp [hpc, PushPc.isIdle] at hidle
  | produce t spurious =>
    obtain ⟨-, ⟨⟩⟩ := Option.ite_none_left_eq_some.1 hnext
    exact h.pushStep hcalm t spurious
  | pop => exact h.call (.load false) id hnext
  | drain => exact h.call (.load true) id hnext
  | empty => exact h.call .emptyLoad id hnext
  | consume =>
    obtain ⟨-, ⟨⟩⟩ := Option.ite_none_left_eq_some.1 hnext
    exact h.popStep

end Steps

end Queue
end Znet

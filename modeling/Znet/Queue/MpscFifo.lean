import Znet.Queue.MpscSafety

/-!
# The bounded queue is a bounded FIFO

A bounded FIFO appends a value while it is not full and hands out the oldest one.  The queue commits
to the first at the compare-exchange that claims a position and to the second at the store that
hands the slot back, so what it holds is what was claimed and not released; in between, the threads'
accesses may interleave in any way.

* `linearization` — the operations of a run, at the accesses that commit them; `fifoRun_run` —
  **they are a run of the FIFO**.
-/

namespace Znet
namespace Queue

variable {T α : Type}

/-! ## A bounded FIFO -/

inductive FifoOp (α : Type) where
  | push (value : α)
  | pop (value : α)
  deriving DecidableEq

/-- What a bounded FIFO does with its contents. -/
inductive FifoStep (capacity : Nat) : List α → FifoOp α → List α → Prop
  | push {contents : List α} (value : α) : contents.length < capacity →
      FifoStep capacity contents (.push value) (contents ++ [value])
  | pop (value : α) (contents : List α) :
      FifoStep capacity (value :: contents) (.pop value) contents

/-- One operation after the other. -/
inductive FifoRun (capacity : Nat) : List α → List (FifoOp α) → List α → Prop
  | nil (contents : List α) : FifoRun capacity contents [] contents
  | cons {contents contents' contents'' : List α} {op : FifoOp α} {ops : List (FifoOp α)} :
      FifoStep capacity contents op contents' → FifoRun capacity contents' ops contents'' →
      FifoRun capacity contents (op :: ops) contents''

theorem FifoRun.append {capacity : Nat} {a b c : List α} {ops ops' : List (FifoOp α)}
    (h : FifoRun capacity a ops b) (h' : FifoRun capacity b ops' c) :
    FifoRun capacity a (ops ++ ops') c := by
  induction h with
  | nil => exact h'
  | cons hstep _ ih => exact .cons hstep (ih h')

/-! ## Where the queue commits -/

/-- What the queue holds. -/
def MpscQueue.contents (q : MpscQueue α) : List α := q.claimed.drop q.released

/-- What a producer's access commits to. -/
def PushPc.commits (q : MpscQueue α) (spurious : Bool) : PushPc α → List (FifoOp α)
  | .cas call pos => if q.enqueue = pos ∧ spurious = false then [.push call.item] else []
  | _ => []

/-- What an access of the consumer commits to: it hands out the value it moved last. -/
def PopPc.commits (q : MpscQueue α) : PopPc → List (FifoOp α)
  | .releaseCell _ _ _ => (q.popped.getLast?.join).toList.map .pop
  | _ => []

section Commits

variable {q : MpscQueue α}

/-- A position is claimed. -/
theorem fifoStep_claim {capacity : Nat} (item : α) (hle : q.released ≤ q.claimed.length)
    (hroom : q.claimed.length < q.released + capacity) :
    FifoStep capacity q.contents (.push item) ((q.claimed ++ [item]).drop q.released) := by
  rw [List.drop_append_of_le_length hle]
  apply FifoStep.push
  rw [MpscQueue.contents, List.length_drop]
  omega

/-- A slot is handed back. -/
theorem fifoStep_release (h : MpscRing q) (hmoved : q.popped.length = q.released + 1)
    (capacity : Nat) : ∃ value, q.popped.getLast? = some (some value) ∧
      FifoStep capacity q.contents (.pop value) (q.claimed.drop (q.released + 1)) := by
  have hlt : q.released < q.claimed.length := by
    have := h.popped_le
    omega
  refine ⟨q.claimed.get ⟨q.released, hlt⟩, ?_, ?_⟩
  · rw [List.getLast?_eq_getElem?, hmoved, h.popped, hmoved, List.getElem?_map, Nat.add_sub_cancel,
      List.getElem?_take_of_lt (Nat.lt_succ_self _), List.getElem?_eq_getElem hlt]
    rfl
  · rw [MpscQueue.contents, List.drop_eq_getElem_cons hlt]
    exact .pop _ _

variable {c : PopPc} {pc : T → PushPc α}

/-- What a producer's access commits to happens to the contents. -/
theorem Sound.fifoRun_pushStep (h : Sound q c pc) (hcalm : Mpsc.Calm ⟨⟨q, c⟩, pc⟩) (t : T)
    (spurious : Bool) : FifoRun q.slots q.contents ((pc t).commits q spurious)
      (Queue.pushStep q spurious (pc t)).1.contents := by
  have hat := h.holds.each t
  cases hpc : pc t with
  | idle | load | depth | write | publish => exact .nil _
  | probe call pos =>
    rw [Queue.pushStep]
    split
    · exact .nil _
    · split
      · exact .nil _
      · exact .nil _
  | cas call pos =>
    rw [hpc] at hat
    obtain ⟨n, hpos, hsince, hn, hlap⟩ := hat
    have hnear : q.claimed.length < _ := hcalm t call.since (congrArg PushPc.since hpc)
    rw [PushPc.commits, Queue.pushStep]
    split
    · next hswap =>
      obtain rfl : n = q.claimed.length := by
        apply eq_of_ofNat_eq hn (by omega)
        rw [← hpos, ← hswap.1, h.ring.enqueue]
      have hle := h.ring.released_le.trans h.ring.popped_le
      exact .cons (fifoStep_claim call.item hle hlap) (.nil _)
    · exact .nil _

/-- What an access of the consumer commits to happens to the contents. -/
theorem Sound.fifoRun_popStep (h : Sound q c pc) :
    FifoRun q.slots q.contents (c.commits q) (Queue.popStep q c).1.contents := by
  have hat := h.consumerAt
  cases c with
  | idle | load | move | releaseLoad | releaseHead | emptyLoad | emptyStore | emptyCheck =>
    exact .nil _
  | probe drain pos =>
    rw [Queue.popStep]
    split
    · exact .nil _
    · exact .nil _
  | releaseCell drain i pos =>
    obtain ⟨value, hlast, hstep⟩ := fifoStep_release h.ring hat.1.moved q.slots
    rw [PopPc.commits, hlast]
    exact .cons hstep (.nil _)

end Commits

/-! ## What the answers mean -/

section Answers

variable {q : MpscQueue α} {c : PopPc} {pc : T → PushPc α}

theorem Sound.toNat_capacity (h : Sound q c pc) : q.capacity.toNat = q.slots := by
  have hsmall := h.ring.slots_le.1
  unfold MpscQueue.slots at hsmall ⊢
  exact BitVec.toNat_add_of_lt (y := 1) (by show q.mask.toNat + 1 < _; omega)

variable {t : T}

/-- `Push` returns false: every slot is claimed and not released. -/
theorem Sound.refuses (h : Sound q c pc) (hcalm : Mpsc.Calm ⟨⟨q, c⟩, pc⟩)
    (hrefuses : (pc t).refuses q = true) :
    q.claimed.length = q.released + q.slots := by
  have hat := h.holds.each t
  cases hpc : pc t with
  | idle | load | cas | depth | write | publish => simp [hpc, PushPc.refuses] at hrefuses
  | probe call pos =>
    rw [hpc] at hat hrefuses
    obtain ⟨n, rfl, hsince, hn⟩ := hat
    have hnear : q.claimed.length < _ := hcalm t call.since (congrArg PushPc.since hpc)
    simp only [PushPc.refuses, Bool.and_eq_true, decide_eq_true_eq] at hrefuses
    rcases h.ring.distance hn (by omega) with ⟨hzero, -⟩ | ⟨-, hahead | hfull⟩
    · exact absurd hzero hrefuses.1
    · exact absurd hrefuses.2 hahead
    · exact hfull

/-- `Pop` returns false: everything claimed was moved out, or a producer has yet to store the next
value. -/
theorem Sound.findsNothing (h : Sound q c pc) (hnothing : c.findsNothing q = true) :
    q.popped.length = q.claimed.length ∨ ∃ t, (pc t).owns = some q.popped.length := by
  have hat := h.consumerAt
  cases c with
  | idle | load | move | releaseLoad | releaseCell | releaseHead | emptyLoad | emptyStore
    | emptyCheck => simp [PopPc.findsNothing] at hnothing
  | probe drain pos =>
    obtain ⟨hrest, rfl⟩ := hat
    rw [PopPc.findsNothing, decide_eq_true_eq, hrest.dequeue, ofNat_succ] at hnothing
    have hle := h.ring.popped_le
    rw [hrest.moved] at hle ⊢
    rcases Nat.lt_or_ge q.released q.claimed.length with hlt | hge
    · right
      apply h.attended _ le_rfl hlt
      exact (h.ring.busy _ le_rfl hlt).resolve_right hnothing
    · exact .inl (le_antisymm hle hge)

/-- A slot is written to when its last value has been read. -/
theorem Sound.write (h : Sound q c pc) {item : α} {pos : BitVec 64} {n : Nat}
    (hpc : pc t = .write item pos n) : (q.cell pos).value = none := by
  have hat := h.holds.each t
  rw [hpc] at hat
  rw [hat.1.cell]
  exact hat.2

/-- The read cursor is at the oldest position that was not released, or one behind it. -/
theorem ConsumerAt.exists_dequeue (hat : ConsumerAt q c) :
    ∃ n, q.dequeue = BitVec.ofNat 64 n ∧ (n = q.released ∨ n + 1 = q.released) := by
  cases c with
  | idle | load | emptyLoad => exact ⟨_, Rest.dequeue hat, .inl rfl⟩
  | probe | move | emptyStore | emptyCheck
  | releaseCell drain i pos => exact ⟨_, hat.1.dequeue, .inl rfl⟩
  | releaseLoad drain i => exact ⟨_, Taken.dequeue hat, .inl rfl⟩
  | releaseHead drain pos =>
    obtain ⟨-, hpos, hdequeue, hsome⟩ := hat
    refine ⟨q.released - 1, ?_, .inr (by omega)⟩
    rw [hdequeue]
    apply add_right_cancel (b := 1)
    rw [hpos, ofNat_succ, Nat.sub_add_cancel hsome]

/-- `out_queued` is zero: every earlier position was released. -/
theorem Sound.outQueued (h : Sound q c pc) (hzero : (pc t).outQueued q = some 0) :
    (pc t).owns = some q.released := by
  have hat := h.holds.each t
  obtain ⟨n, hdequeue, hn⟩ := h.consumerAt.exists_dequeue
  have hsmall := h.ring.slots_le.1
  have hlap := h.ring.claimed_le
  cases hpc : pc t with
  | idle | load | probe | cas | write | publish => simp [hpc, PushPc.outQueued] at hzero
  | depth item pos m =>
    rw [hpc] at hat hzero
    obtain ⟨ho, -⟩ := hat
    have hreleased := ho.released_le
    have hclaimed := ho.lt_claimed
    have hpos := sub_eq_zero.1 (Option.some.inj hzero)
    rw [ho.position, hdequeue] at hpos
    obtain rfl := eq_of_ofNat_eq (by omega) (by omega) hpos.symm
    exact congrArg some (by omega)

end Answers

/-! ## Along a run -/

variable [DecidableEq T]

def Mpsc.commits (σ : Mpsc T α) : MpscEvent T α → List (FifoOp α)
  | .produce t spurious => (σ.pc t).commits σ.shared.queue spurious
  | .consume => σ.shared.consumer.commits σ.shared.queue
  | _ => []

/-- The operations of a run, in the order they are committed to. -/
def linearization (σ : Mpsc T α) : List (MpscEvent T α) → List (FifoOp α)
  | [] => []
  | e :: es => σ.commits e ++ ((σ.next e).map fun σ' => linearization σ' es).getD []

section Runs

variable {σ σ' : Mpsc T α}

variable {e : MpscEvent T α} {es : List (MpscEvent T α)} {capacity : Nat}

/-- What an event does to the queue. -/
theorem Mpsc.queue_next (hnext : σ.next e = some σ') :
    (σ'.shared.queue = σ.shared.queue ∧ σ.commits e = []) ∨
    (∃ t spurious, e = .produce t spurious ∧
      σ'.shared.queue = (pushStep σ.shared.queue spurious (σ.pc t)).1) ∨
    (e = .consume ∧ σ'.shared.queue = (popStep σ.shared.queue σ.shared.consumer).1) := by
  cases e with
  | push t item wants | pop | drain | empty =>
    obtain ⟨-, ⟨⟩⟩ := Option.ite_none_right_eq_some.1 hnext
    exact .inl ⟨rfl, rfl⟩
  | produce t spurious =>
    obtain ⟨-, ⟨⟩⟩ := Option.ite_none_left_eq_some.1 hnext
    exact .inr (.inl ⟨t, spurious, rfl, rfl⟩)
  | consume =>
    obtain ⟨-, ⟨⟩⟩ := Option.ite_none_left_eq_some.1 hnext
    exact .inr (.inr ⟨rfl, rfl⟩)

variable (q : MpscQueue α)

theorem mask_pushStep (spurious : Bool) (pc : PushPc α) :
    (pushStep q spurious pc).1.mask = q.mask := by
  cases pc with
  | idle | load | depth | write | publish => rfl
  | probe call pos =>
    rw [pushStep]
    split
    · rfl
    · split
      · rfl
      · rfl
  | cas call pos =>
    rw [pushStep]
    split
    · rfl
    · rfl

theorem mask_popStep (pc : PopPc) : (popStep q pc).1.mask = q.mask := by
  cases pc with
  | idle | load | move | releaseLoad | releaseCell | releaseHead | emptyLoad | emptyStore
    | emptyCheck => rfl
  | probe drain pos =>
    rw [popStep]
    split
    · rfl
    · rfl

theorem Mpsc.slots_next (hnext : σ.next e = some σ') :
    σ'.shared.queue.slots = σ.shared.queue.slots := by
  apply slots_congr
  rcases Mpsc.queue_next hnext with ⟨hsame, -⟩ | ⟨t, spurious, -, hpush⟩ | ⟨-, hpop⟩
  · rw [hsame]
  · rw [hpush, mask_pushStep]
  · rw [hpop, mask_popStep]

theorem Sound.fifoRun_next (h : Sound σ.shared.queue σ.shared.consumer σ.pc) (hcalm : σ.Calm)
    (hnext : σ.next e = some σ') :
    FifoRun σ.shared.queue.slots σ.shared.queue.contents (σ.commits e)
      σ'.shared.queue.contents := by
  rcases Mpsc.queue_next hnext with ⟨hsame, hnone⟩ | ⟨t, spurious, rfl, hpush⟩ | ⟨rfl, hpop⟩
  · rw [hsame, hnone]
    exact .nil _
  · rw [hpush]
    exact h.fifoRun_pushStep hcalm t spurious
  · rw [hpop]
    exact h.fifoRun_popStep

/-- **The operations of a run are a run of the FIFO.** -/
theorem fifoRun_run (h : Sound σ.shared.queue σ.shared.consumer σ.pc)
    (hrun : GuardedRun (mpsc T α) (fun σ _ => σ.Calm) σ es σ') :
    FifoRun σ.shared.queue.slots σ.shared.queue.contents (linearization σ es)
      σ'.shared.queue.contents := by
  induction hrun with
  | nil => exact .nil _
  | @cons σ σ₁ _ e es hcalm hstep _ ih =>
    have hnext : σ.next e = some σ₁ := hstep
    have hrest := ih (h.next hcalm hnext)
    rw [Mpsc.slots_next hnext] at hrest
    rw [linearization, hnext]
    exact (h.fifoRun_next hcalm hnext).append hrest

theorem MpscRing.new (hcapacity : capacity ≤ 2 ^ 62) :
    MpscRing (MpscQueue.new capacity : MpscQueue α) := by
  obtain ⟨k, hone, hk, hround⟩ := exists_roundUpPowerOfTwo_le hcapacity
  have hpos := Nat.two_pow_pos k
  have hsmall : 2 ^ k ≤ 2 ^ 62 := Nat.pow_le_pow_right (by decide) hk
  have hslots : (MpscQueue.new capacity : MpscQueue α).slots = 2 ^ k := by
    show (BitVec.ofNat 64 (roundUpPowerOfTwo capacity - 1)).toNat + 1 = 2 ^ k
    rw [hround, BitVec.toNat_ofNat, Nat.mod_eq_of_lt (by omega)]
    omega
  refine ⟨⟨k, hone, hk, hslots⟩, rfl, le_rfl, le_rfl, Nat.zero_le _, ?_, ?_, ?_, ?_, rfl, ?_,
    List.nodup_nil⟩
  · intro n _ (hn' : n < 0 + _)
    show (⟨BitVec.ofNat 64 n &&& (MpscQueue.new capacity : MpscQueue α).mask, none⟩ : MpscCell α) =
      _
    rw [MpscQueue.index_eq hk hslots, Nat.mod_eq_of_lt (by omega)]
  · intro n _ hn'
    exact absurd hn' (Nat.not_lt_zero n)
  · intro n _ hn'
    exact absurd hn' (Nat.not_lt_zero n)
  · intro n _ hn'
    exact absurd hn' (Nat.not_lt_zero n)
  · nofun

omit [DecidableEq T] in
theorem Sound.start (hcapacity : capacity ≤ 2 ^ 62) :
    Sound (MpscQueue.new capacity : MpscQueue α) .idle (fun _ : T => .idle) := by
  refine ⟨⟨⟨.new hcapacity, ⟨rfl, rfl⟩⟩, fun _ => trivial, fun _ _ _ n h => ?_⟩, ?_⟩
  · cases h.1
  · intro n _ hn'
    exact absurd hn' (Nat.not_lt_zero n)

theorem sound_run (h : Sound σ.shared.queue σ.shared.consumer σ.pc)
    (hrun : GuardedRun (mpsc T α) (fun σ _ => σ.Calm) σ es σ') :
    Sound σ'.shared.queue σ'.shared.consumer σ'.pc :=
  hrun.invariant (I := fun τ => Sound τ.shared.queue τ.shared.consumer τ.pc)
    (fun _ _ _ hsound hcalm hnext => hsound.next hcalm hnext) h

theorem slots_run (hrun : GuardedRun (mpsc T α) (fun σ _ => σ.Calm) σ es σ') :
    σ'.shared.queue.slots = σ.shared.queue.slots := by
  apply hrun.invariant (I := fun τ => τ.shared.queue.slots = σ.shared.queue.slots)
  · intro τ e τ' hsame _ hnext
    exact (Mpsc.slots_next hnext).trans hsame
  · rfl

end Runs

/-! ## The consumer takes out what is stored -/

section Drain

variable {q : MpscQueue α} {pc : T → PushPc α}

theorem sound_consumes {k : Nat} {σ σ' : Mpsc T α}
    (h : Sound σ.shared.queue σ.shared.consumer σ.pc)
    (hrun : (mpsc T α).exec σ (List.replicate k .consume) = some σ') :
    Sound σ'.shared.queue σ'.shared.consumer σ'.pc := by
  induction k generalizing σ with
  | zero =>
    cases hrun
    exact h
  | succ k ih =>
    obtain ⟨σ₁, hstep, hrest⟩ := Option.bind_eq_some_iff.1 hrun
    apply ih _ hrest
    have hnext : σ.next .consume = some σ₁ := hstep
    obtain ⟨-, ⟨⟩⟩ := Option.ite_none_left_eq_some.1 hnext
    exact h.popStep

/-- One turn of `DrainTo`: six accesses move one value out. -/
theorem Sound.drain_turn (h : Sound q (.load true) pc) (hlt : q.popped.length < q.claimed.length)
    (howns : ∀ t, (pc t).owns ≠ some q.popped.length) :
    ∃ q', (mpsc T α).exec ⟨⟨q, .load true⟩, pc⟩ (List.replicate 6 .consume) =
        some ⟨⟨q', .load true⟩, pc⟩ ∧
      q'.claimed = q.claimed ∧ q'.popped.length = q.popped.length + 1 := by
  have hrest : Rest q := h.consumerAt
  rw [hrest.moved] at hlt howns
  -- the oldest position is stored into, since nobody owns it
  have hprobe : (q.cell q.dequeue).sequence = q.dequeue + 1 := by
    rw [hrest.dequeue, ofNat_succ]
    apply (h.ring.busy _ le_rfl hlt).resolve_left
    intro hwaits
    obtain ⟨t, ht⟩ := h.attended _ le_rfl hlt hwaits
    exact howns t ht
  have hfound : (mpsc T α).step ⟨⟨q, .probe true q.dequeue⟩, pc⟩ .consume =
      some ⟨⟨q, .move true q.dequeue⟩, pc⟩ := by
    have hstep : Queue.popStep q (.probe true q.dequeue) = (q, .move true q.dequeue) :=
      if_pos hprobe
    show some (⟨⟨(Queue.popStep q _).1, (Queue.popStep q _).2⟩, pc⟩ : Mpsc T α) = _
    rw [hstep]
  refine ⟨_, ((mpsc T α).exec_cons rfl _).trans (((mpsc T α).exec_cons hfound _).trans rfl),
    rfl, ?_⟩
  exact List.length_append

/-- **`DrainTo` takes out every value up to a position nobody before it is still to store.** -/
theorem Sound.drains (k : Nat) (h : Sound q (.load true) pc)
    (hlt : q.popped.length + k ≤ q.claimed.length)
    (howns : ∀ t n, (pc t).owns = some n → q.popped.length + k ≤ n) :
    ∃ q', (mpsc T α).exec ⟨⟨q, .load true⟩, pc⟩ (List.replicate (6 * k) .consume) =
        some ⟨⟨q', .load true⟩, pc⟩ ∧
      q'.claimed = q.claimed ∧ q'.popped.length = q.popped.length + k := by
  induction k generalizing q with
  | zero => exact ⟨q, rfl, rfl, rfl⟩
  | succ k ih =>
    obtain ⟨q₁, hturn, hclaimed, hpopped⟩ := h.drain_turn (by omega)
      (fun t ho => absurd (howns t _ ho) (by omega))
    have hsound : Sound q₁ (.load true) pc := sound_consumes h hturn
    obtain ⟨q', hrun, hclaimed', hpopped'⟩ := ih hsound
      (by rw [hclaimed, hpopped]; omega)
      (fun t n ho => by
        have := howns t n ho
        omega)
    refine ⟨q', ?_, hclaimed'.trans hclaimed, by omega⟩
    rw [Nat.mul_succ, Nat.add_comm, List.replicate_add, (mpsc T α).exec_append hturn]
    exact hrun

variable {n : Nat} {value : α}

/-- What was moved out at a position is what was claimed for it. -/
theorem MpscRing.popped_at (h : MpscRing q) (hclaimed : q.claimed[n]? = some value)
    (hn : n < q.popped.length) :
    q.popped[n]? = some (some value) := by
  rw [h.popped, List.getElem?_map, List.getElem?_take_of_lt hn, hclaimed]
  rfl

/-- A call of `DrainTo` from outside takes a stored value out. -/
theorem Sound.drain_takes (h : Sound q .idle pc) (hclaimed : q.claimed[n]? = some value)
    (hn : q.popped.length ≤ n) (hbefore : ∀ t m, (pc t).owns = some m → n < m) :
    ∃ σ', (mpsc T α).exec ⟨⟨q, .idle⟩, pc⟩
        (.drain :: List.replicate (6 * (n + 1 - q.popped.length)) .consume) = some σ' ∧
      σ'.shared.queue.popped[n]? = some (some value) := by
  have hsound := h.peeked (.load true) h.consumerAt
  have hlt := (List.getElem?_eq_some_iff.1 hclaimed).1
  obtain ⟨q', hrun, hsame, hlength⟩ := hsound.drains (n + 1 - q.popped.length) (by omega)
    (by
      intro t m ho
      have := hbefore t m ho
      omega)
  have hring : MpscRing q' := (sound_consumes hsound hrun).ring
  refine ⟨_, ((mpsc T α).exec_cons rfl _).trans hrun, hring.popped_at ?_ ?_⟩
  · rw [hsame]
    exact hclaimed
  · omega

end Drain

/-! ## The whole -/

/-- **The queue is a bounded FIFO.**  In every interleaving of any number of producers with one
consumer, in which fewer than `2 ^ 62` positions are claimed during a call: the claims and releases
are a run of a FIFO of `capacity()` values; the values come out in the order of their positions,
each position once; a value whose `Push` returned true has been moved out, or comes out with the
next `DrainTo` once the producers before it have stored theirs; `Pop` finds nothing only if
everything claimed was moved out or the next value is still to be stored; `Push` refuses only while
every slot is claimed and not released; a slot is written to only after its last value was read; and
`out_queued` is zero only if every earlier position was released. -/
theorem mpsc_fifo {capacity : Nat} (hcapacity : capacity ≤ 2 ^ 62) {es : List (MpscEvent T α)}
    {σ : Mpsc T α}
    (hrun : GuardedRun (mpsc T α) (fun σ _ => σ.Calm) (.start T α capacity) es σ)
    (hcalm : σ.Calm) :
    FifoRun σ.shared.queue.capacity.toNat [] (linearization (.start T α capacity) es)
      σ.shared.queue.contents ∧
    σ.shared.queue.popped = (σ.shared.queue.claimed.take σ.shared.queue.popped.length).map some ∧
    (σ.shared.queue.pushed.map Prod.fst).Nodup ∧
    (∀ n value, (n, value) ∈ σ.shared.queue.pushed →
      σ.shared.queue.popped[n]? = some (some value) ∨
      σ.shared.queue.popped.length ≤ n ∧
        (σ.shared.consumer = .idle → (∀ t m, (σ.pc t).owns = some m → n < m) →
          ∃ σ', (mpsc T α).exec σ (.drain ::
              List.replicate (6 * (n + 1 - σ.shared.queue.popped.length)) .consume) = some σ' ∧
            σ'.shared.queue.popped[n]? = some (some value))) ∧
    (σ.shared.consumer.findsNothing σ.shared.queue = true →
      σ.shared.queue.popped.length = σ.shared.queue.claimed.length ∨
        ∃ t, (σ.pc t).owns = some σ.shared.queue.popped.length) ∧
    (∀ t, (σ.pc t).refuses σ.shared.queue = true → σ.shared.queue.claimed.length =
      σ.shared.queue.released + σ.shared.queue.capacity.toNat) ∧
    (∀ t item pos n, σ.pc t = .write item pos n → (σ.shared.queue.cell pos).value = none) ∧
    (∀ t, (σ.pc t).outQueued σ.shared.queue = some 0 →
      (σ.pc t).owns = some σ.shared.queue.released) := by
  have hstart : Sound (MpscQueue.new capacity : MpscQueue α) .idle (fun _ : T => .idle) :=
    .start hcapacity
  obtain ⟨⟨q, c⟩, pc⟩ := σ
  have h : Sound q c pc := sound_run hstart hrun
  refine ⟨?_, h.ring.popped, h.ring.once, ?_, h.findsNothing, ?_, fun t _ _ _ => h.write,
    fun t => h.outQueued⟩
  · rw [h.toNat_capacity, slots_run hrun]
    exact fifoRun_run hstart hrun
  · intro n value hpushed
    obtain ⟨hclaimed, -⟩ := h.ring.pushed _ hpushed
    rcases Nat.lt_or_ge n q.popped.length with hout | hin
    · exact .inl (h.ring.popped_at hclaimed hout)
    · refine .inr ⟨hin, ?_⟩
      rintro rfl hbefore
      exact h.drain_takes hclaimed hin hbefore
  · intro t hrefuses
    rw [h.toNat_capacity]
    exact h.refuses hcalm hrefuses

instance Mpsc.decidableCalm [Fintype T] (σ : Mpsc T α) : Decidable σ.Calm :=
  decidable_of_iff
    (∀ t, ∀ n ∈ (σ.pc t).since, σ.shared.queue.claimed.length < n + 2 ^ 62) Iff.rfl

/-- One producer fills a ring of two while the other waits, and is refused the third. -/
theorem mpsc_fifo_refused :
    ∃ σ, GuardedRun (mpsc Bool Nat) (fun σ _ => σ.Calm) (.start Bool Nat 2)
        ([.push false 4 true, .push true 5 false] ++ List.replicate 5 (.produce true false) ++
          .push true 6 false :: List.replicate 5 (.produce true false) ++
          [.push true 7 false, .produce true false]) σ ∧
      (σ.pc true).refuses σ.shared.queue = true ∧
      σ.shared.queue.claimed.length =
        σ.shared.queue.released + σ.shared.queue.capacity.toNat := by
  apply GuardedRun.exists_run (P := fun σ => σ.Calm ∧ (σ.pc true).refuses σ.shared.queue = true)
    (by decide +kernel)
  rintro σ hrun ⟨hcalm, hrefuses⟩
  obtain ⟨-, -, -, -, -, hfull, -⟩ := mpsc_fifo (by decide) hrun hcalm
  exact ⟨hrefuses, hfull true hrefuses⟩

end Queue
end Znet

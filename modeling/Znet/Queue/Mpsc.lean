import Znet.Lib.Machine

/-!
# The bounded queue, access by access

`MpscQueue` of `mpsc_queue.h`: a ring of cells, each with a sequence number that says whose turn it
is.  Any thread pushes, exactly one consumes.  The unit of interleaving is one access to shared
memory, memory is sequentially consistent, and positions and sequence numbers are 64-bit and wrap.
-/

namespace Znet
namespace Queue

/-! ## Capacity -/

/-- The doubling loop of `RoundUpPowerOfTwo`; 62 doublings reach its limit. -/
def roundUpLoop (value : Nat) : Nat → Nat → Nat
  | 0, slots => slots
  | fuel + 1, slots =>
    if slots < value ∧ slots < 2 ^ 63 then roundUpLoop value fuel (slots * 2) else slots

def roundUpPowerOfTwo (value : Nat) : Nat := roundUpLoop value 62 2

variable (value : Nat)

theorem exists_roundUpLoop (fuel k : Nat) (hk : 1 ≤ k) :
    ∃ j, 1 ≤ j ∧ roundUpLoop value fuel (2 ^ k) = 2 ^ j := by
  induction fuel generalizing k with
  | zero => exact ⟨k, hk, rfl⟩
  | succ fuel ih =>
    rw [roundUpLoop]
    split
    · rw [← pow_succ]
      exact ih (k + 1) (by omega)
    · exact ⟨k, hk, rfl⟩

/-- The ring has a power of two of slots, at least two. -/
theorem exists_roundUpPowerOfTwo : ∃ k, 1 ≤ k ∧ roundUpPowerOfTwo value = 2 ^ k :=
  exists_roundUpLoop value 62 1 le_rfl

/-- Up to half the range of a size the ring is no larger than that. -/
theorem exists_roundUpLoop_le {value : Nat} (hvalue : value ≤ 2 ^ 62) (fuel k : Nat) (hk : 1 ≤ k)
    (hk' : k ≤ 62) : ∃ j, 1 ≤ j ∧ j ≤ 62 ∧ roundUpLoop value fuel (2 ^ k) = 2 ^ j := by
  induction fuel generalizing k with
  | zero => exact ⟨k, hk, hk', rfl⟩
  | succ fuel ih =>
    rw [roundUpLoop]
    split
    · next hsmall =>
      have hlt : k < 62 := (Nat.pow_lt_pow_iff_right (by decide)).1
        (lt_of_lt_of_le hsmall.1 hvalue)
      rw [← pow_succ]
      exact ih (k + 1) (by omega) (by omega)
    · exact ⟨k, hk, hk', rfl⟩

theorem exists_roundUpPowerOfTwo_le {value : Nat} (hvalue : value ≤ 2 ^ 62) :
    ∃ k, 1 ≤ k ∧ k ≤ 62 ∧ roundUpPowerOfTwo value = 2 ^ k :=
  exists_roundUpLoop_le hvalue 62 1 le_rfl (by decide)

/-- Each lap has a position for every slot. -/
theorem exists_mod_eq {n : Nat} (hn : 0 < n) (b p : Nat) :
    ∃ r, b ≤ r ∧ r < b + n ∧ r % n = p % n := by
  have hlt := Nat.mod_lt (p + (n - b % n)) hn
  have hsum : b + (p + (n - b % n)) = p + n * (b / n + 1) := by
    have hdiv := Nat.div_add_mod b n
    have hmod := Nat.mod_lt b hn
    rw [Nat.mul_add_one]
    omega
  refine ⟨b + (p + (n - b % n)) % n, by omega, by omega, ?_⟩
  rw [Nat.add_mod_mod, hsum, Nat.add_mul_mod_self_left]

/-- Positions less than a lap apart have different slots. -/
theorem eq_of_mod_eq {p r b n : Nat} (hp : b ≤ p) (hp' : p < b + n) (hr : b ≤ r)
    (hr' : r < b + n) (h : p % n = r % n) : p = r := by
  rcases Nat.le_total p r with hle | hle
  · have hd : (r - p) % n = 0 := by
      rw [← Nat.sub_mod_eq_zero_of_mod_eq h.symm]
    have := Nat.eq_zero_of_dvd_of_lt (Nat.dvd_of_mod_eq_zero hd) (by omega)
    omega
  · have hd : (p - r) % n = 0 := by
      rw [← Nat.sub_mod_eq_zero_of_mod_eq h]
    have := Nat.eq_zero_of_dvd_of_lt (Nat.dvd_of_mod_eq_zero hd) (by omega)
    omega

/-! ## The ring -/

/-- One slot.  A value that has been moved out is `none`. -/
structure MpscCell (α : Type) where
  sequence : BitVec 64
  value : Option α
  deriving DecidableEq, Repr

/-- The shared state, and below it the history: `claimed` lists the values by the position they were
claimed at, `pushed` the positions and values whose `Push` returned true, `popped` what the consumer
moved out; `released` counts the positions whose slot was handed back. -/
structure MpscQueue (α : Type) where
  mask : BitVec 64
  cells : BitVec 64 → MpscCell α
  enqueue : BitVec 64
  dequeue : BitVec 64
  claimed : List α
  pushed : List (Nat × α)
  popped : List (Option α)
  released : Nat

/-- `kBehind`: a distance above it has wrapped around. -/
def kBehind : BitVec 64 := BitVec.ofNat 64 (2 ^ 63 - 1)

namespace MpscQueue

variable {α : Type}

/-- A fresh queue. -/
def new (capacity : Nat) : MpscQueue α where
  mask := BitVec.ofNat 64 (roundUpPowerOfTwo capacity - 1)
  cells i := { sequence := i, value := none }
  enqueue := 0
  dequeue := 0
  claimed := []
  pushed := []
  popped := []
  released := 0

/-- `capacity()`. -/
def capacity (q : MpscQueue α) : BitVec 64 := q.mask + 1

/-- `cells_[pos & mask_]`. -/
def cell (q : MpscQueue α) (pos : BitVec 64) : MpscCell α := q.cells (pos &&& q.mask)

/-- Write one slot. -/
def setCell (q : MpscQueue α) (i : BitVec 64) (c : MpscCell α) : MpscQueue α :=
  { q with cells := Function.update q.cells i c }

end MpscQueue

/-! ## Producers -/

/-- A call of `Push`: its arguments, and how many positions had been claimed when it began. -/
structure PushCall (α : Type) where
  item : α
  /-- `out_queued` is not null. -/
  wants : Bool
  since : Nat
  deriving DecidableEq

/-- Where a producer is.  Each place names the access it makes next, with what it has read so far;
`n` counts the positions claimed before its own. -/
inductive PushPc (α : Type) where
  | idle
  /-- Load `enqueue_`. -/
  | load (call : PushCall α)
  /-- Load the cell's sequence. -/
  | probe (call : PushCall α) (pos : BitVec 64)
  /-- Compare-exchange `enqueue_`. -/
  | cas (call : PushCall α) (pos : BitVec 64)
  /-- Load `dequeue_` for `out_queued`. -/
  | depth (item : α) (pos : BitVec 64) (n : Nat)
  /-- Store the value. -/
  | write (item : α) (pos : BitVec 64) (n : Nat)
  /-- Store the cell's sequence. -/
  | publish (item : α) (pos : BitVec 64) (n : Nat)
  deriving DecidableEq

namespace PushPc

variable {α : Type}

/-- `Push` returns false with this access. -/
def refuses (q : MpscQueue α) : PushPc α → Bool
  | .probe _ pos =>
    decide ((q.cell pos).sequence - pos ≠ 0) && decide (kBehind < (q.cell pos).sequence - pos)
  | _ => false

/-- What `Push` stores to `out_queued` with this access. -/
def outQueued (q : MpscQueue α) : PushPc α → Option (BitVec 64)
  | .depth _ pos _ => some (pos - q.dequeue)
  | _ => none

/-- Whether a producer is between two calls. -/
def isIdle : PushPc α → Bool
  | .idle => true
  | _ => false

/-- How many positions had been claimed when a call began that has not claimed one yet. -/
def since : PushPc α → Option Nat
  | .load call => some call.since
  | .probe call _ => some call.since
  | .cas call _ => some call.since
  | _ => none

/-- The position of a call that has claimed one. -/
def owns : PushPc α → Option Nat
  | .depth _ _ n => some n
  | .write _ _ n => some n
  | .publish _ _ n => some n
  | _ => none

end PushPc

variable {α : Type}

/-- One access of `Push`.  `spurious` makes a compare-exchange fail that need not. -/
def pushStep (q : MpscQueue α) (spurious : Bool) : PushPc α → MpscQueue α × PushPc α
  | .idle => (q, .idle)
  | .load call => (q, .probe call q.enqueue)
  | .probe call pos =>
    if (q.cell pos).sequence - pos = 0 then (q, .cas call pos)
    else if kBehind < (q.cell pos).sequence - pos then (q, .idle)
    else (q, .load call)
  | .cas call pos =>
    if q.enqueue = pos ∧ spurious = false then
      ({ q with enqueue := pos + 1, claimed := q.claimed ++ [call.item] },
        if call.wants then .depth call.item pos q.claimed.length
        else .write call.item pos q.claimed.length)
    else (q, .probe call q.enqueue)
  | .depth item pos n => (q, .write item pos n)
  | .write item pos n =>
    (q.setCell (pos &&& q.mask) { q.cell pos with value := some item }, .publish item pos n)
  | .publish item pos n =>
    ({ q.setCell (pos &&& q.mask) { q.cell pos with sequence := pos + 1 } with
        pushed := q.pushed ++ [(n, item)] }, .idle)

/-! ## The consumer -/

/-- Where the consumer is; `drain` says that the call is `DrainTo`, which goes on after each
value. -/
inductive PopPc where
  | idle
  /-- `NextReadable`: load `dequeue_`. -/
  | load (drain : Bool)
  /-- Load the cell's sequence. -/
  | probe (drain : Bool) (pos : BitVec 64)
  /-- Move the value out of the cell. -/
  | move (drain : Bool) (pos : BitVec 64)
  /-- `ReleaseRead` of slot `i`: load `dequeue_`. -/
  | releaseLoad (drain : Bool) (i : BitVec 64)
  /-- Store the cell's sequence. -/
  | releaseCell (drain : Bool) (i pos : BitVec 64)
  /-- Store `dequeue_`. -/
  | releaseHead (drain : Bool) (pos : BitVec 64)
  /-- `Empty`: load `dequeue_`. -/
  | emptyLoad
  /-- Store it back. -/
  | emptyStore (head : BitVec 64)
  /-- Load `enqueue_` and compare. -/
  | emptyCheck (head : BitVec 64)
  deriving DecidableEq

namespace PopPc

/-- `NextReadable` returns null with this access: `Pop` returns false, and `DrainTo` ends. -/
def findsNothing (q : MpscQueue α) : PopPc → Bool
  | .probe _ pos => decide ((q.cell pos).sequence ≠ pos + 1)
  | _ => false

/-- What `Empty` returns with this access. -/
def empty (q : MpscQueue α) : PopPc → Option Bool
  | .emptyCheck head => some (decide (q.enqueue = head))
  | _ => none

/-- Whether the consumer is between two calls. -/
def isIdle : PopPc → Bool
  | .idle => true
  | _ => false

end PopPc

/-- One access of the consumer. -/
def popStep (q : MpscQueue α) : PopPc → MpscQueue α × PopPc
  | .idle => (q, .idle)
  | .load drain => (q, .probe drain q.dequeue)
  | .probe drain pos =>
    if (q.cell pos).sequence = pos + 1 then (q, .move drain pos) else (q, .idle)
  | .move drain pos =>
    ({ q.setCell (pos &&& q.mask) { q.cell pos with value := none } with
        popped := q.popped ++ [(q.cell pos).value] }, .releaseLoad drain (pos &&& q.mask))
  | .releaseLoad drain i => (q, .releaseCell drain i q.dequeue)
  | .releaseCell drain i pos =>
    ({ q.setCell i { q.cells i with sequence := pos + q.mask + 1 } with
        released := q.released + 1 }, .releaseHead drain pos)
  | .releaseHead drain pos => ({ q with dequeue := pos + 1 }, if drain then .load true else .idle)
  | .emptyLoad => (q, .emptyStore q.dequeue)
  | .emptyStore head => ({ q with dequeue := head }, .emptyCheck head)
  | .emptyCheck _ => (q, .idle)

/-! ## Threads over one queue -/

/-- What the consumer shares with the producers, and where it is. -/
structure Shared (α : Type) where
  queue : MpscQueue α
  consumer : PopPc

/-- The queue, its consumer and its producers. -/
structure Mpsc (T α : Type) where
  shared : Shared α
  pc : T → PushPc α

/-- A thread outside the queue calls in, or one inside it makes its next access. -/
inductive MpscEvent (T α : Type) where
  | push (t : T) (item : α) (wants : Bool)
  | produce (t : T) (spurious : Bool)
  | pop
  | drain
  | empty
  | consume

variable {T : Type} [DecidableEq T]

/-- The consumer calls in. -/
def Mpsc.call (σ : Mpsc T α) (pc : PopPc) : Option (Mpsc T α) :=
  if σ.shared.consumer.isIdle then some { σ with shared := { σ.shared with consumer := pc } }
  else none

/-- What an event does. -/
def Mpsc.next (σ : Mpsc T α) : MpscEvent T α → Option (Mpsc T α)
  | .push t item wants =>
    if (σ.pc t).isIdle then
      some { σ with pc := Function.update σ.pc t
                      (.load { item, wants, since := σ.shared.queue.claimed.length }) }
    else none
  | .produce t spurious =>
    if (σ.pc t).isIdle then none
    else
      let next := pushStep σ.shared.queue spurious (σ.pc t)
      some { shared := { σ.shared with queue := next.1 }, pc := Function.update σ.pc t next.2 }
  | .pop => σ.call (.load false)
  | .drain => σ.call (.load true)
  | .empty => σ.call .emptyLoad
  | .consume =>
    if σ.shared.consumer.isIdle then none
    else
      let next := popStep σ.shared.queue σ.shared.consumer
      some { σ with shared := { queue := next.1, consumer := next.2 } }

/-- All interleavings of all threads. -/
def mpsc (T α : Type) [DecidableEq T] : Machine (Mpsc T α) (MpscEvent T α) := ⟨Mpsc.next⟩

/-- A fresh queue, with no thread inside it. -/
def Mpsc.start (T α : Type) (capacity : Nat) : Mpsc T α where
  shared := { queue := .new capacity, consumer := .idle }
  pc _ := .idle

end Queue
end Znet

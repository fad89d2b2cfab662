import Znet.Queue.Mpsc

/-!
# The outbound queue, access by access

`OutboundQueue` over `MpscQueue` (`outbound_queue.h`, `mpsc_queue.h`): a bounded ring
that any thread pushes into and that whichever thread takes the claim drains.  The unit
of interleaving is one access to shared memory: each load, store, exchange and
compare-exchange of the source is one step of the thread that makes it, and memory is
sequentially consistent.

Positions and cell sequences are natural numbers: the source's are 64-bit and compared by
their wrapped distance.  `Znet.Queue.OutboundWrapped` says that the two do the same.
-/

namespace Znet
namespace Queue

/-! ## The queue -/

/-- One slot of the ring.  A value that has been moved out is `none`. -/
structure Cell (α : Type) where
  sequence : Nat
  value : Option α
  deriving DecidableEq, Repr

/-- The shared state, and below it the history: `claimed` lists the items by the position
they were claimed at, `encoded` what the encode callbacks were given, `pushed` the
positions whose `Push` returned true; `moved` and `freed` count the positions whose value
was moved out and whose slot was handed back. -/
structure OutboundQueue (α : Type) where
  slots : Nat
  cells : Nat → Cell α
  enqueue : Nat
  dequeue : Nat
  encoding : Bool
  claimed : List α
  encoded : List (Option α)
  pushed : List Nat
  moved : Nat
  freed : Nat

namespace OutboundQueue

variable {α : Type}

/-- A fresh queue. -/
def new (capacity : Nat) : OutboundQueue α where
  slots := roundUpPowerOfTwo capacity
  cells i := { sequence := i, value := none }
  enqueue := 0
  dequeue := 0
  encoding := false
  claimed := []
  encoded := []
  pushed := []
  moved := 0
  freed := 0

/-- `pos & mask_`. -/
def index (q : OutboundQueue α) (pos : Nat) : Nat := pos &&& (q.slots - 1)

def cell (q : OutboundQueue α) (pos : Nat) : Cell α := q.cells (q.index pos)

/-- Write one slot. -/
def setCell (q : OutboundQueue α) (i : Nat) (c : Cell α) : OutboundQueue α :=
  { q with cells := Function.update q.cells i c }

/-- `size()`, from the two cursors it loads. -/
def sizeOf (head tail : Nat) : Nat := if head < tail then tail - head else 0

end OutboundQueue

/-! ## The program counters -/

/-- Where a thread is.  Each place names the access the thread makes next, with what it has
read so far. -/
inductive Pc (α : Type) where
  | idle
  /-- `Push`: load `enqueue_`. -/
  | pushLoad (item : α)
  /-- Load the cell's sequence. -/
  | pushProbe (item : α) (pos : Nat)
  /-- Compare-exchange `enqueue_`. -/
  | pushCas (item : α) (pos : Nat)
  /-- Load `dequeue_` for `out_queued`. -/
  | pushDepth (item : α) (pos : Nat)
  /-- Store the value; `first` says that `out_queued` was zero. -/
  | pushWrite (item : α) (pos : Nat) (first : Bool)
  /-- Store the cell's sequence. -/
  | pushPublish (pos : Nat) (first : Bool)
  /-- Call the wake callback, at the end of `Push`. -/
  | pushWake (pos : Nat)
  /-- `Drain`: exchange `encoding_`. -/
  | drainClaim
  /-- `Pop`: load `dequeue_`. -/
  | popLoad
  /-- Load the cell's sequence. -/
  | popProbe (pos : Nat)
  /-- Move the value out of the cell. -/
  | popMove (pos : Nat)
  /-- `ReleaseRead` of slot `i`: load `dequeue_`. -/
  | releaseLoad (i : Nat) (item : Option α)
  /-- Store the cell's sequence. -/
  | releaseCell (i : Nat) (item : Option α) (pos : Nat)
  /-- Store `dequeue_`. -/
  | releaseHead (item : Option α) (pos : Nat)
  /-- Call the encode callback. -/
  | encode (item : Option α)
  /-- Store `encoding_`. -/
  | drainRelease
  /-- `Empty`: load `dequeue_`. -/
  | emptyLoad
  /-- Store it back. -/
  | emptyStore (head : Nat)
  /-- Load `enqueue_` and compare. -/
  | emptyCheck (head : Nat)
  /-- Call the wake callback, at the end of `Drain`. -/
  | drainWake
  deriving DecidableEq

variable {α : Type}

/-- One access.  `spurious` makes a compare-exchange fail that need not. -/
def tick (q : OutboundQueue α) (spurious : Bool) : Pc α → OutboundQueue α × Pc α
  | .idle => (q, .idle)
  | .pushLoad item => (q, .pushProbe item q.enqueue)
  | .pushProbe item pos =>
    if (q.cell pos).sequence = pos then (q, .pushCas item pos)
    else if (q.cell pos).sequence < pos then (q, .idle)
    else (q, .pushLoad item)
  | .pushCas item pos =>
    if q.enqueue = pos ∧ spurious = false then
      ({ q with enqueue := pos + 1, claimed := q.claimed ++ [item] }, .pushDepth item pos)
    else (q, .pushProbe item q.enqueue)
  | .pushDepth item pos => (q, .pushWrite item pos (decide (pos = q.dequeue)))
  | .pushWrite item pos first =>
    (q.setCell (q.index pos) { q.cell pos with value := some item }, .pushPublish pos first)
  | .pushPublish pos first =>
    let q' := q.setCell (q.index pos) { q.cell pos with sequence := pos + 1 }
    if first then (q', .pushWake pos) else ({ q' with pushed := q'.pushed ++ [pos] }, .idle)
  | .pushWake pos => ({ q with pushed := q.pushed ++ [pos] }, .idle)
  | .drainClaim => if q.encoding then (q, .idle) else ({ q with encoding := true }, .popLoad)
  | .popLoad => (q, .popProbe q.dequeue)
  | .popProbe pos =>
    if (q.cell pos).sequence = pos + 1 then (q, .popMove pos) else (q, .drainRelease)
  | .popMove pos =>
    ({ q.setCell (q.index pos) { q.cell pos with value := none } with moved := q.moved + 1 },
      .releaseLoad (q.index pos) (q.cell pos).value)
  | .releaseLoad i item => (q, .releaseCell i item q.dequeue)
  | .releaseCell i item pos =>
    ({ q.setCell i { q.cells i with sequence := pos + q.slots } with freed := q.freed + 1 },
      .releaseHead item pos)
  | .releaseHead item pos => ({ q with dequeue := pos + 1 }, .encode item)
  | .encode item => ({ q with encoded := q.encoded ++ [item] }, .popLoad)
  | .drainRelease => ({ q with encoding := false }, .emptyLoad)
  | .emptyLoad => (q, .emptyStore q.dequeue)
  | .emptyStore head => ({ q with dequeue := head }, .emptyCheck head)
  | .emptyCheck head => if q.enqueue = head then (q, .idle) else (q, .drainWake)
  | .drainWake => (q, .idle)

/-! ## Threads over one queue -/

/-- The queue and where each thread is. -/
structure System (T α : Type) where
  queue : OutboundQueue α
  pc : T → Pc α

/-- A thread outside the queue calls in, or a thread inside it makes its next access. -/
inductive Event (T α : Type) where
  | push (t : T) (item : α)
  | drain (t : T)
  | step (t : T) (spurious : Bool)

variable {T : Type} [DecidableEq T]

/-- Whether a thread is between two calls. -/
def Pc.isIdle : Pc α → Bool
  | .idle => true
  | _ => false

theorem Pc.isIdle_iff {pc : Pc α} : pc.isIdle = true ↔ pc = .idle := by
  cases pc <;> simp [isIdle]

/-- What an event does. -/
def System.next (σ : System T α) : Event T α → Option (System T α)
  | .push t item =>
    if (σ.pc t).isIdle then some { σ with pc := Function.update σ.pc t (.pushLoad item) }
    else none
  | .drain t =>
    if (σ.pc t).isIdle then some { σ with pc := Function.update σ.pc t .drainClaim } else none
  | .step t spurious =>
    if (σ.pc t).isIdle then none
    else
      some
        { queue := (tick σ.queue spurious (σ.pc t)).1
          pc := Function.update σ.pc t (tick σ.queue spurious (σ.pc t)).2 }

/-- All interleavings of all threads. -/
def machine (T α : Type) [DecidableEq T] : Machine (System T α) (Event T α) :=
  ⟨System.next⟩

/-- No thread inside the queue. -/
def System.start (T α : Type) (capacity : Nat) : System T α :=
  { queue := .new capacity, pc := fun _ => .idle }

/-- The steps of one thread until it returns, `n` of them at most. -/
def steps (t : T) (n : Nat) : List (Event T α) := List.replicate n (.step t false)

/-! ## A schedule that loses an item -/

/-- The schedules name their two threads by literals. -/
scoped instance neZero_two : NeZero (2 : Nat) := ⟨two_ne_zero⟩

/-- What can be seen of a system of two threads. -/
structure Report where
  idle : Bool
  dequeue : Nat
  enqueue : Nat
  pushed : List Nat
  encoded : List (Option Nat)
  deriving DecidableEq

def System.report (σ : System (Fin 2) Nat) : Report where
  idle := (σ.pc 0).isIdle && (σ.pc 1).isIdle
  dequeue := σ.queue.dequeue
  enqueue := σ.queue.enqueue
  pushed := σ.queue.pushed
  encoded := σ.queue.encoded

/-- The report after a schedule on a fresh queue of two slots. -/
def reportAfter (es : List (Event (Fin 2) Nat)) : Option Report :=
  ((machine (Fin 2) Nat).exec (System.start (Fin 2) Nat 2) es).map System.report

/-- Thread 0 pushes and drains; before its `Empty` stores the cursor back, thread 1 pushes
and drains. -/
def overtakingDrains : List (Event (Fin 2) Nat) :=
  [.push 0 10] ++ steps 0 7 ++ [.drain 0] ++ steps 0 12 ++
  [.push 1 11] ++ steps 1 7 ++ [.drain 1] ++ steps 1 14

/-- Then thread 0 goes on to the end of its `Drain`, and thread 1 pushes once more. -/
def strandingSchedule : List (Event (Fin 2) Nat) :=
  overtakingDrains ++ steps 0 3 ++ [.push 1 12] ++ steps 1 6

/-- **The read cursor moves back, and an item is out of reach.**  After the two drains the
cursor is 2; the store of thread 0's `Empty` takes it back to 1.  The next push returns
true with no call left in progress, but its item at position 2 is never reached: a
further `Drain` ends without passing anything on. -/
theorem rollback_strands_an_item :
    (reportAfter overtakingDrains).map Report.dequeue = some 2 ∧
    (reportAfter (overtakingDrains ++ steps 0 1)).map Report.dequeue = some 1 ∧
    reportAfter strandingSchedule = some ⟨true, 1, 3, [0, 1, 2], [some 10, some 11]⟩ ∧
    reportAfter (strandingSchedule ++ [.drain 0] ++ steps 0 8) =
      some ⟨true, 1, 3, [0, 1, 2], [some 10, some 11]⟩ := by
  decide +kernel

end Queue
end Znet

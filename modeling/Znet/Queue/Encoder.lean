import Znet.Queue.OutboundSafety

/-!
# A session with a dedicated encoder

One live client session (`session_encoder.cc`, `worker_signal.h`, `peer_session.cc`): any
number of producers push packets, the encoder thread drains the queue and sleeps on its
signal, and the client's loop calls `Process`, which drains the queue itself while it is
shallow.  The queue's part of every thread is that of `Znet.Queue.Outbound`, access by
access; here the wake callback, the signal's mutex and flag, the encoder's wait and the
two loads of `ShouldEncodeInline` are added.

The client's own signal, which the wake callback raises last, is not part of the state: the
client's loop may call `Process` at any time.
-/

namespace Znet
namespace Queue

/-! ## Threads and places -/

/-- The threads of a session. -/
inductive Thread (P : Type) where
  | producer (p : P)
  | encoder
  | client
  deriving DecidableEq

/-- Where a thread is.  The places inside `Raise` remember the place of the queue's code
that called it. -/
inductive Place (α : Type) where
  /-- In `Push` or `Drain`, or between two calls. -/
  | at (pc : Pc α)
  /-- `Raise`: load the owner. -/
  | raiseOwner (resume : Pc α)
  /-- Lock the signal's mutex. -/
  | raiseLock (resume : Pc α)
  /-- Store `woken`. -/
  | raiseSet (resume : Pc α)
  /-- Unlock. -/
  | raiseUnlock (resume : Pc α)
  /-- Notify, and wake the client's loop. -/
  | raiseDone (resume : Pc α)
  /-- The encoder's loop: store the owner. -/
  | encStart
  /-- Lock the signal's mutex. -/
  | encLock
  /-- Test `woken`, holding the mutex. -/
  | encTest
  /-- Blocked in `cv.wait`. -/
  | encBlocked
  /-- Clear `woken`. -/
  | encReset
  /-- Unlock, and go round. -/
  | encUnlock
  /-- `ShouldEncodeInline`: load `dequeue_`. -/
  | procHead
  /-- Load `enqueue_`, and decide. -/
  | procTail (head : Nat)
  deriving DecidableEq

variable {P α : Type}

/-- The queue's part of a place. -/
def Place.pc : Place α → Pc α
  | .at pc => pc
  | .raiseOwner resume | .raiseLock resume | .raiseSet resume | .raiseUnlock resume
  | .raiseDone resume => resume
  | _ => .idle

def kInlineEncodeDepth : Nat := 1

/-- `ShouldEncodeInline`, from the flag and the two cursors it loads. -/
def shouldEncodeInline (hasEncoder : Bool) (head tail : Nat) : Bool :=
  !hasEncoder || decide (OutboundQueue.sizeOf head tail ≤ kInlineEncodeDepth)

/-! ## The session -/

/-- The queue, the encoder's signal and where each thread is. -/
structure Session (P α : Type) where
  queue : OutboundQueue α
  woken : Bool
  owner : Option (Thread P)
  mutex : Option (Thread P)
  place : Thread P → Place α

/-- A fresh session: the wake callback is set and the encoder about to run. -/
def Session.start (P α : Type) (capacity : Nat) : Session P α where
  queue := .new capacity
  woken := false
  owner := none
  mutex := none
  place
    | .encoder => .encStart
    | _ => .at .idle

/-- A producer calls `Push`, the client's loop calls `Process`, or a thread goes on. -/
inductive Act (P α : Type) where
  | push (p : P) (item : α)
  | process
  | step (t : Thread P) (spurious : Bool)

variable [DecidableEq P]

variable (σ : Session P α)

def Session.goto (t : Thread P) (place : Place α) : Session P α :=
  { σ with place := Function.update σ.place t place }

/-- The next access of the queue's code. -/
def Session.tick (t : Thread P) (spurious : Bool) (pc : Pc α) : Session P α :=
  { σ with queue := (Queue.tick σ.queue spurious pc).1 }.goto t
    (.at (Queue.tick σ.queue spurious pc).2)

/-- What thread `t` does next, if it can go on. -/
def Session.step (t : Thread P) (spurious : Bool) : Option (Session P α) :=
  match σ.place t with
  | .at .idle =>
    -- the encoder goes round its loop; everyone else waits for a call
    if t = .encoder then some (σ.goto t .encLock) else none
  | .at (.pushWake pos) => some (σ.goto t (.raiseOwner (.pushWake pos)))
  | .at .drainWake => some (σ.goto t (.raiseOwner .drainWake))
  | .at pc => some (σ.tick t spurious pc)
  | .raiseOwner resume =>
    if σ.owner = some t then some (σ.goto t (.raiseDone resume))
    else some (σ.goto t (.raiseLock resume))
  | .raiseLock resume =>
    if σ.mutex = none then some ({ σ with mutex := some t }.goto t (.raiseSet resume)) else none
  | .raiseSet resume => some ({ σ with woken := true }.goto t (.raiseUnlock resume))
  | .raiseUnlock resume => some ({ σ with mutex := none }.goto t (.raiseDone resume))
  | .raiseDone resume => some (σ.tick t false resume)
  | .encStart => some ({ σ with owner := some t }.goto t (.at .drainClaim))
  | .encLock | .encBlocked =>
    if σ.mutex = none then some ({ σ with mutex := some t }.goto t .encTest) else none
  | .encTest =>
    if σ.woken then some (σ.goto t .encReset)
    else some ({ σ with mutex := none }.goto t .encBlocked)
  | .encReset => some ({ σ with woken := false }.goto t .encUnlock)
  | .encUnlock => some ({ σ with mutex := none }.goto t (.at .drainClaim))
  | .procHead => some (σ.goto t (.procTail σ.queue.dequeue))
  | .procTail head =>
    if shouldEncodeInline true head σ.queue.enqueue then some (σ.goto t (.at .drainClaim))
    else some (σ.goto t (.at .idle))

/-- Whether a thread is between two calls. -/
def Place.isIdle : Place α → Bool
  | .at .idle => true
  | _ => false

theorem Place.isIdle_iff {place : Place α} : place.isIdle = true ↔ place = .at .idle := by
  cases place with
  | «at» pc => cases pc <;> simp [isIdle]
  | _ => simp [isIdle]

def Session.next : Act P α → Option (Session P α)
  | .push p item =>
    if (σ.place (.producer p)).isIdle then
      some (σ.goto (.producer p) (.at (.pushLoad item)))
    else none
  | .process =>
    if (σ.place .client).isIdle then some (σ.goto .client .procHead) else none
  | .step t spurious => σ.step t spurious

/-- All interleavings of the session's threads. -/
def sessionMachine (P α : Type) [DecidableEq P] : Machine (Session P α) (Act P α) :=
  ⟨Session.next⟩

/-! ## A schedule that strands two packets -/

def go (t : Thread P) (n : Nat) : List (Act P α) := List.replicate n (.step t false)

/-- What can be seen of a session with two producers. -/
structure SessionReport where
  producersIdle : Bool
  encoderBlocked : Bool
  clientIdle : Bool
  woken : Bool
  dequeue : Nat
  enqueue : Nat
  pushed : List Nat
  deriving DecidableEq

def Session.report (σ : Session (Fin 2) Nat) : SessionReport where
  producersIdle := (σ.place (.producer 0)).isIdle && (σ.place (.producer 1)).isIdle
  encoderBlocked := decide (σ.place .encoder = .encBlocked)
  clientIdle := (σ.place .client).isIdle
  woken := σ.woken
  dequeue := σ.queue.dequeue
  enqueue := σ.queue.enqueue
  pushed := σ.queue.pushed

def sessionAfter (es : List (Act (Fin 2) Nat)) : Option SessionReport :=
  ((sessionMachine (Fin 2) Nat).exec (Session.start (Fin 2) Nat 4) es).map Session.report

/-- The encoder goes to sleep; producer 0 pushes and wakes it; while the encoder is about to
store the cursor past that packet, producer 1 claims the next position, reads the old
cursor and is held up, and producer 0 pushes behind it; the encoder finds the next
position unpublished and goes back to sleep; then producer 1 goes on. -/
def strandedSchedule : List (Act (Fin 2) Nat) :=
  go .encoder 11 ++ [.push 0 10] ++ go (.producer 0) 12 ++ go .encoder 10 ++
  [.push 1 11] ++ go (.producer 1) 4 ++ [.push 0 12] ++ go (.producer 0) 6 ++
  go .encoder 14 ++ go (.producer 1) 2

/-- **Two packets nobody is going to encode.**  No producer is inside `Push`, the encoder is
blocked with no wake pending, the client's loop is between two calls, three pushes have
returned true, and positions 1 and 2 are still queued, which is too deep for
`ShouldEncodeInline`. -/
theorem claim_behind_cursor_strands :
    sessionAfter strandedSchedule = some ⟨true, true, true, false, 1, 3, [0, 2, 1]⟩ ∧
    shouldEncodeInline true 1 3 = false := by
  decide +kernel

/-! ## The queue's threads alone -/

/-- The session without its signal: the system of `Znet.Queue.Outbound`. -/
def Session.system : System (Thread P) α where
  queue := σ.queue
  pc t := (σ.place t).pc

theorem Session.system_goto (t : Thread P) (place : Place α) : (σ.goto t place).system =
      { queue := σ.queue, pc := Function.update σ.system.pc t place.pc } := by
  rw [system, System.mk.injEq]
  refine ⟨rfl, funext fun u => ?_⟩
  by_cases hut : u = t
  · subst hut
    simp [goto]
  · simp [goto, system, hut]

end Queue
end Znet

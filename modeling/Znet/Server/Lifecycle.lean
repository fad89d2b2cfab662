import Znet.Lib.Machine

/-!
# A server's sessions, from `Listen` to the end of its shutdown

`Server` (`server.cc`): the acceptor's thread takes sessions in, drives them until their handshake
has settled and hands them to a worker; each worker drives its own; `Stop` closes the backend, and
the acceptor's thread then tears everything down.  The application hears of it through
`event_callback`.

One `ProcessSessions` and one tick of a worker are steps of their own, and so is each turn of the
acceptor's loop; between any two of them a session may be closed from outside.  What `Process` comes
to, the clock and what the application closes when it hears an event are the surroundings' choice.
A session map is the list of its sessions; they are numbered in the order they were accepted.
-/

namespace Znet
namespace Server

/-- What the application is told. -/
inductive Event where
  | startup
  | shutdown
  | incomingClientConnected (id : Nat)
  | incomingClientDisconnected (id : Nat)
  deriving DecidableEq, Repr

/-- The session an event is about. -/
def Event.session : Event → Option Nat
  | .incomingClientConnected id => some id
  | .incomingClientDisconnected id => some id
  | _ => none

/-- `PeerSession`, as far as the server looks at it. -/
structure Session where
  isAlive : Bool
  isReady : Bool
  connectTime : Nat
  deriving DecidableEq, Repr

/-- What one call of `Process` comes to on a session that is alive. -/
structure Outcome where
  /-- The handshake settles: `Ready()`. -/
  settles : Bool
  /-- The session is closed by the end of it. -/
  dies : Bool

/-- What a step meets. -/
structure Surroundings where
  now : Nat
  process : Nat → Outcome
  /-- The sessions the application closes when it hears an event. -/
  reacts : Event → List Nat

/-- The part of `ServerConfig` that is read here. -/
structure ServerConfig where
  /-- `options.max_connections`. -/
  maxConnections : Int
  connectionTimeout : Nat

/-- A worker: its sessions, and whether it is still in its loop. -/
structure TaskData where
  sessions : List Nat
  running : Bool
  deriving DecidableEq, Repr

/-- Where the acceptor's thread is in `MainProcessor`. -/
inductive MainPc where
  /-- At the condition of its loop. -/
  | loop
  /-- In `CheckNetwork`. -/
  | network
  /-- Before `ProcessSessions`. -/
  | sessions
  /-- In `tasks_.clear()`. -/
  | clearing
  | done
  deriving DecidableEq, Repr

/-- The server. -/
structure State where
  config : ServerConfig
  /-- How many sessions were accepted. -/
  accepted : Nat
  session : Nat → Session
  pending : List Nat
  tasks : List TaskData
  /-- `backend_->IsAlive()`. -/
  listening : Bool
  main : MainPc
  shutdownComplete : Bool
  /-- What the application has been told, in order. -/
  log : List Event

/-- `Listen` with some number of workers: `MainProcessor` begins. -/
def listen (config : ServerConfig) (workers : Nat) : State where
  config := config
  accepted := 0
  session _ := { isAlive := false, isReady := false, connectTime := 0 }
  pending := []
  tasks := List.replicate workers { sessions := [], running := true }
  listening := true
  main := .loop
  shutdownComplete := false
  log := [.startup]

namespace State

/-! ## One session -/

/-- `PeerSession::Close`. -/
def close (s : State) (id : Nat) : State :=
  { s with session := Function.update s.session id { s.session id with isAlive := false } }

variable (env : Surroundings) (s : State)

/-- `event_callback()(event)`. -/
def raise (event : Event) : State :=
  (env.reacts event).foldl close { s with log := s.log ++ [event] }

/-- `PeerSession::Process`. -/
def process (id : Nat) : State :=
  if (s.session id).isAlive then
    { s with
      session := Function.update s.session id
        { isAlive := !(env.process id).dies
          isReady := (s.session id).isReady || (env.process id).settles
          connectTime :=
            if !(s.session id).isReady && (env.process id).settles then env.now
            else (s.session id).connectTime } }
  else s

/-! ## A session map -/

/-- What the sweep does with a dead session: the application hears of it if it was told of it. -/
def sweep (id : Nat) : State :=
  if (s.session id).isReady then s.raise env (.incomingClientDisconnected id) else s

/-- `CleanupAndProcessSessions`; the second part is what is left of the map. -/
def cleanupAndProcessSessions (sessions : List Nat) : State × List Nat :=
  let remove := sessions.filter fun id => !(s.session id).isAlive
  let left := sessions.filter fun id => (s.session id).isAlive
  (left.foldl (process env) (remove.foldl (sweep env) s), left)

/-! ## From the acceptor to a worker -/

/-- The loop of `SelectNextTask`. -/
def selectLoop : List TaskData → Nat → Nat → Nat → Nat
  | [], _, min, _ => min
  | data :: rest, i, min, minCount =>
    if data.sessions.length < minCount then selectLoop rest (i + 1) i data.sessions.length
    else selectLoop rest (i + 1) min minCount

/-- `SelectNextTask`: the first of the workers with the fewest sessions. -/
def selectNextTask : List TaskData → Option Nat
  | [] => none
  | data :: rest => some (selectLoop (data :: rest) 0 0 data.sessions.length)

/-- `SubmitSession`. -/
def submitSession (w id : Nat) : State :=
  let told := s.raise env (.incomingClientConnected id)
  { told with
    tasks := told.tasks.modify w fun data => { data with sessions := data.sessions ++ [id] } }

/-- `PromoteReady`. -/
def promoteReady (id : Nat) : State :=
  match selectNextTask s.tasks with
  | none => s.close id
  | some w => s.submitSession env w id

/-- A pending session that takes too long. -/
def timeout (id : Nat) : State :=
  if !(s.session id).isReady && (decide (0 < s.config.connectionTimeout) &&
      decide (s.config.connectionTimeout < env.now - (s.session id).connectTime)) then s.close id
  else s

/-- A ready session leaves `pending_sessions_`. -/
def promote (id : Nat) : State :=
  let promoted := s.promoteReady env id
  { promoted with pending := promoted.pending.erase id }

/-- `ProcessSessions`. -/
def processSessions : State :=
  let swept := cleanupAndProcessSessions env s s.pending
  let timed := swept.2.foldl (timeout env) { swept.1 with pending := swept.2 }
  (swept.2.filter fun id => (timed.session id).isReady).foldl (promote env) timed

/-- `ActiveSessionCount`. -/
def activeSessionCount : Nat :=
  s.pending.length + (s.tasks.map fun data => data.sessions.length).sum

/-- `CheckNetwork` with a session that `Accept` returned. -/
def accept (now : Nat) (s : State) : State :=
  let id := s.accepted
  let taken := { s with
    accepted := id + 1
    session := Function.update s.session id
      { isAlive := true, isReady := false, connectTime := now } }
  if 0 < s.config.maxConnections ∧ s.config.maxConnections ≤ s.activeSessionCount then
    taken.close id
  else { taken with pending := taken.pending ++ [id] }

/-- `DisconnectPending`. -/
def disconnectPending : State :=
  (s.pending.foldl close s).processSessions env

/-! ## A worker -/

/-- The sessions of a worker. -/
def sessionsOf (w : Nat) : List Nat := ((s.tasks[w]?).map TaskData.sessions).getD []

/-- A turn of `WorkerLoop`. -/
def workerTick (w : Nat) : State :=
  let swept := cleanupAndProcessSessions env s (s.sessionsOf w)
  { swept.1 with tasks := swept.1.tasks.set w { sessions := swept.2, running := true } }

/-- What `WorkerLoop` does after its loop; the map goes with its `TaskData`. -/
def workerExit (w : Nat) : State :=
  let closed := (s.sessionsOf w).foldl close s
  { closed with tasks := closed.tasks.set w { sessions := [], running := false } }

end State

/-! ## The whole -/

/-- What can happen next. -/
inductive Step where
  /-- A session is closed by the application or with its peer's close. -/
  | close (id : Nat)
  /-- `Stop`, or the backend fails. -/
  | stop
  /-- The condition of the acceptor's loop holds. -/
  | enter
  /-- `Accept` returns a session. -/
  | accept (now : Nat)
  /-- `Accept` returns null. -/
  | drained
  | processSessions (env : Surroundings)
  /-- The acceptor leaves its loop. -/
  | leave (env : Surroundings)
  | workerTick (w : Nat) (env : Surroundings)
  /-- A worker sees the request to stop. -/
  | workerExit (w : Nat)
  /-- The workers are gone: the rest of `MainProcessor`. -/
  | finish (env : Surroundings)

namespace State

/-- Whether worker `w` is in its loop. -/
def isRunning (s : State) (w : Nat) : Bool := ((s.tasks[w]?).map TaskData.running).getD false

def next (s : State) : Step → Option State
  | .close id => some (s.close id)
  | .stop => some { s with listening := false }
  | .enter => if s.main = .loop ∧ s.listening then some { s with main := .network } else none
  | .accept now => if s.main = .network then some (s.accept now) else none
  | .drained => if s.main = .network then some { s with main := .sessions } else none
  | .processSessions env =>
    if s.main = .sessions then some { s.processSessions env with main := .loop } else none
  | .leave env =>
    if s.main = .loop ∧ s.listening = false then
      some { s.raise env .shutdown with main := .clearing }
    else none
  | .workerTick w env => if s.isRunning w then some (s.workerTick env w) else none
  | .workerExit w => if s.main = .clearing ∧ s.isRunning w then some (s.workerExit w) else none
  | .finish env =>
    if s.main = .clearing ∧ s.tasks.all (fun data => !data.running) then
      some { disconnectPending env { s with tasks := [] } with
        listening := false, main := .done, shutdownComplete := true }
    else none

end State

/-- All interleavings of the threads. -/
def lifecycle : Machine State Step := ⟨State.next⟩

end Server
end Znet

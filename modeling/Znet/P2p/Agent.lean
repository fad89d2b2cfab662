import Mathlib.Data.List.AList
import Znet.P2p.Punch

/-!
# The agent

`Agent` of `agent.cc`: one socket that carries every punched peer.  Gathers and punches are
handed over from any thread and worked off by one thread, which drains the socket, ticks the
gathers and the punches, and processes the sessions, over and over until it is stopped.  A
callback of a punch moves from the list of those handed over to that of the punches in flight,
and from there to the route of the session that the punch has become.

A callback may ask the agent for more, and so may other threads: that only ever touches what was
handed over, so every invocation of a callback ends a step, and such calls are steps between
these.  What the probe of a gather does, whether a session becomes ready or closes, whether the
cookie of a path response is right, in which order a table is walked and the clock are the
environment's.  `Stop` waits for the thread, so it is not called from there.
-/

namespace Znet
namespace P2p

open Zdt

/-! ## State -/

/-- What a table of routes is keyed by. -/
abbrev Key := List UInt8

/-- A punch; the callback by its number, if one was passed. -/
structure PunchInFlight where
  machine : ZDTPunch
  onDone : Option Nat

structure Gathering (Probe : Type) where
  probe : Probe
  onDone : Option Nat

structure Route where
  /-- The number of the session. -/
  session : Nat
  remoteGuid : BitVec 64
  localGuid : BitVec 64
  waiters : List Nat
  readyDeadline : Int
  deriving DecidableEq

/-- A session, as far as the agent asks. -/
structure Session where
  ready : Bool := false
  closed : Bool := false
  deriving DecidableEq

/-- What follows once the waiters of a route are resolved. -/
inductive Resume where
  /-- The route is erased. -/
  | erase (key : Key) (todo : List Key) (now : Int)
  | next (todo : List Key) (now : Int)
  /-- The session is closed and the route erased. -/
  | close (key : Key) (todo : List Key) (now : Int)
  /-- The session is closed; the agent stops. -/
  | stop (todo : List Key)
  deriving DecidableEq

/-- Where the agent's thread is, and once it has ended, the one that stops it. -/
inductive Phase where
  | stopped
  | looping
  /-- `DrainSocket`. -/
  | draining
  /-- `TickGathers`. -/
  | gathering (i : Nat) (now : Int)
  /-- The first loop of `TickPunches`. -/
  | matching (i : Nat)
  /-- The second. -/
  | ticking (i : Nat) (now : Int)
  /-- `ProcessSessions`, with the routes that are left. -/
  | sweeping (todo : List Key) (now : Int)
  /-- `Process` of the session of a route. -/
  | processing (key : Key) (todo : List Key) (now : Int)
  /-- `ResolveWaiters`, with the callbacks that are left. -/
  | resolving (waiters : List Nat) (result : Result) (session : Nat) (resume : Resume)
  /-- The thread has ended. -/
  | exited
  | stopGathers
  | stopPunches
  | stopRoutes (todo : List Key)
  deriving DecidableEq

/-- An invocation of a punch's callback; whether the session was ready and alive is history. -/
structure PunchAnswer where
  id : Nat
  result : Result
  session : Option Nat
  ready : Bool
  alive : Bool
  deriving DecidableEq

structure Agent (Probe : Type) where
  running : Bool := false
  stopRequested : Bool := false
  socket : Nat := 0
  pendingRebind : Option Nat := none
  phase : Phase := .stopped
  pending : List PunchInFlight := []
  pendingGathers : List (Gathering Probe) := []
  punches : List PunchInFlight := []
  gathers : List (Gathering Probe) := []
  routes : AList (fun _ : Key => Route) := ∅
  sessions : List Session := []
  /-- History: how many callbacks were passed to `Gather`. -/
  gatherCalls : Nat := 0
  /-- History: how many were passed to `Punch`. -/
  punchCalls : Nat := 0
  /-- History: the callbacks of gathers that were invoked. -/
  gathered : List (Nat × Result) := []
  /-- History: the callbacks of punches that were invoked. -/
  punched : List PunchAnswer := []
  /-- History: the routes that another took the place of. -/
  overwritten : List Route := []

/-- What the agent is built with, and what it uses of others. -/
structure AgentContext (Probe : Type) where
  /-- `RouteKey`. -/
  routeKey : InetAddress → BitVec 32 → Key
  enableConnectionMigration : Bool := false
  owns : Probe → InetAddress → Bool
  onDatagram : Probe → InetAddress → List UInt8 → Probe
  tick : Probe → Int → Probe
  done : Probe → Int → Bool
  result : Probe → Result

namespace Agent

variable {Probe : Type}

/-! ## Callbacks -/

variable (ctx : AgentContext Probe) (s : Agent Probe)

/-- `IsAlive`. -/
def alive (session : Nat) : Bool :=
  match s.sessions[session]? with
  | some x => !x.closed
  | none => false

/-- `IsReady`. -/
def isReady (session : Nat) : Bool :=
  match s.sessions[session]? with
  | some x => x.ready
  | none => false

/-- The callback of a gather is invoked, if there is one. -/
def answerGather (callback : Option Nat) (result : Result) : Agent Probe :=
  { s with gathered := callback.toList.map (·, result) ++ s.gathered }

/-- The callback of a punch is invoked, if there is one. -/
def answerPunch (callback : Option Nat) (result : Result) (session : Option Nat) : Agent Probe :=
  { s with
    punched := callback.toList.map (fun id =>
      { id, result, session, ready := session.any s.isReady, alive := session.any s.alive }) ++
        s.punched }

/-- The number of a callback, if one is passed. -/
def numbered (callback : Bool) (calls : Nat) : Option Nat := if callback then some calls else none

/-- `Gather`. -/
def gather (probe : Probe) (callback : Bool) : Agent Probe :=
  let onDone := numbered callback s.gatherCalls
  let s := { s with gatherCalls := s.gatherCalls + callback.toNat }
  if !s.running then s.answerGather onDone .alreadyStopped
  else { s with pendingGathers := s.pendingGathers ++ [⟨probe, onDone⟩] }

/-- What an offer is refused with; `success` if it is not.  An address that is not valid is none. -/
def refusal (offer : PunchOffer) : Result :=
  offer.candidates.foldl (fun refusal candidate =>
    if candidate.address = none then .invalidAddress
    else if candidate.type = .relayed ∧ candidate.relayToken = 0 then .invalidArgument
    else refusal) (if offer.candidates = [] then .invalidAddress else .success)

/-- `Punch`. -/
def punch (offer : PunchOffer) (callback : Bool) (now : Int) (guid : BitVec 64) : Agent Probe :=
  let onDone := numbered callback s.punchCalls
  let s := { s with punchCalls := s.punchCalls + callback.toNat }
  if refusal offer ≠ .success then s.answerPunch onDone (refusal offer) none
  else if !s.running then s.answerPunch onDone .alreadyStopped none
  else
    { s with
      pending := s.pending ++ [⟨.new offer now ctx.enableConnectionMigration guid, onDone⟩] }

/-- `Rebind`, once the new socket is bound. -/
def rebind (socket : Nat) : Agent Probe :=
  if !s.running then s else { s with pendingRebind := some socket }

/-- `ApplyPendingRebind`. -/
def applyPendingRebind : Agent Probe :=
  { s with socket := s.pendingRebind.getD s.socket, pendingRebind := none }

/-! ## Datagrams -/

/-- A datagram leaves a punch pending, completes it where it came from, or tells that the versions
do not fit. -/
theorem onDatagram_outcome (m : ZDTPunch) (source : InetAddress) (channel : BitVec 32)
    (data : List UInt8) :
    (m.onDatagram source channel data).outcome = .pending ∨
    (∃ first, (m.onDatagram source channel data).outcome = .completed source channel first) ∨
    (m.onDatagram source channel data).outcome = .failed .incompatibleVersion := by
  rw [ZDTPunch.onDatagram]
  split
  · exact .inl rfl
  · split
    · split
      · exact .inl rfl
      · exact .inr (.inl ⟨some data, rfl⟩)
    · exact .inl rfl
    · split
      · exact .inl rfl
      · rw [ZDTPunch.onRequest1]
        split <;> exact .inl rfl
    · split
      · exact .inr (.inl ⟨none, rfl⟩)
      · exact .inl rfl
    · split
      · exact .inr (.inr rfl)
      · exact .inl rfl
    · exact .inl rfl

/-- A route is put into the table. -/
def putRoute (key : Key) (route : Route) : Agent Probe :=
  { s with
    routes := s.routes.insert key route
    overwritten := (s.routes.lookup key).toList ++ s.overwritten }

/-- `FailPunch`. -/
def failPunch (index : Nat) (punch : PunchInFlight) (reason : Result) : Agent Probe :=
  { s with punches := s.punches.eraseIdx index }.answerPunch punch.onDone reason none

/-- `CompletePunch`. -/
def completePunch (index : Nat)
    (punch : PunchInFlight) (source : InetAddress) (channel : BitVec 32) (now : Int) :
    Agent Probe :=
  let s :=
    { s with
      punches := s.punches.eraseIdx index
      sessions := s.sessions ++ [({} : Session)] }
  s.putRoute (ctx.routeKey source channel)
    { session := s.sessions.length - 1
      remoteGuid := punch.machine.connection.remoteGuid
      localGuid := punch.machine.connection.localGuid
      waiters := punch.onDone.toList
      readyDeadline := now + punch.machine.offer.timeout }

/-- A punch has had a datagram. -/
def conclude (index : Nat) (punch : PunchInFlight) (r : Punched) (now : Int) : Agent Probe :=
  let punch := { punch with machine := r.machine }
  match r.outcome with
  | .pending => { s with punches := s.punches.set index punch }
  | .completed source channel _ => s.completePunch ctx index punch source channel now
  | .failed reason => s.failPunch index punch reason

variable {ctx : AgentContext Probe} {s s' : Agent Probe} {index : Nat} {r : Punched}
  {source : InetAddress} {channel : BitVec 32} {now : Int}

theorem conclude_pending {punch : PunchInFlight} (h : r.outcome = .pending) (now : Int) :
    s.conclude ctx index punch r now =
      { s with punches := s.punches.set index { punch with machine := r.machine } } := by
  simp only [conclude, h]

theorem conclude_completed {punch : PunchInFlight} {first : Option (List UInt8)}
    (h : r.outcome = .completed source channel first) (now : Int) :
    s.conclude ctx index punch r now =
      s.completePunch ctx index { punch with machine := r.machine } source channel now := by
  simp only [conclude, h]

theorem conclude_failed {punch : PunchInFlight} {reason : Result} (h : r.outcome = .failed reason)
    (now : Int) :
    s.conclude ctx index punch r now =
      s.failPunch index { punch with machine := r.machine } reason := by
  simp only [conclude, h]

variable (ctx s)

/-- `HandleOffline`. -/
def handleOffline (source : InetAddress)
    (channel : BitVec 32) (data : List UInt8) (now : Int) : Agent Probe :=
  match s.gathers.findIdx? fun g => channel == 0 && ctx.owns g.probe source with
  | some i =>
    { s with
      gathers := s.gathers.modify i fun g =>
        { g with probe := ctx.onDatagram g.probe source data } }
  | none =>
    match s.punches.findIdx? fun p => p.machine.owns source channel with
    | none => s
    | some i =>
      match s.punches[i]? with
      | none => s
      | some p => s.conclude ctx i p (p.machine.onDatagram source channel data) now

/-- `ChallengeNewPath`: whether a session that is alive claims a connection id. -/
def challengeNewPath (cid : BitVec 64) : Bool :=
  s.routes.entries.any fun entry => entry.2.remoteGuid == cid && s.alive entry.2.session

/-- The path message of a datagram. -/
def pathMessage (data : List UInt8) : Option (ZDTPathMessage ZDTCookie) :=
  Reading.parse (do
    let id ← readOfflineHeader
    match id with
    | none => pure none
    | some _ => readPathMessage) data

/-- `CompletePathMigration`, if the cookie is right; `found` is where the loop meets a route with
the connection id first. -/
def completePathMigration (source : InetAddress)
    (data : List UInt8) (verified : Bool) (found : Key) : Agent Probe :=
  match pathMessage data with
  | none => s
  | some response =>
    if !verified then s
    else
      match s.routes.lookup found with
      | none => s
      | some route =>
        if route.remoteGuid ≠ response.cid ∨ ¬ s.alive route.session ∨
            found = ctx.routeKey source 0 then s
        else
          { s with routes := s.routes.erase found }.putRoute (ctx.routeKey source 0) route

/-- What arrived, in the loop of `DrainSocket`.  What belongs to a route goes to its transport, or
is a challenge to answer. -/
def onArrival (source : InetAddress)
    (raw : List UInt8) (now : Int) (verified : Bool) (found : Key) : Agent Probe :=
  match if raw = [] then none else drained raw with
  | none => s
  | some (channel, data) =>
    if (s.routes.lookup (ctx.routeKey source channel)).isSome then s
    else if channel = 0 ∧ ctx.enableConnectionMigration then
      if !hasFlag (data.headD 0).toBitVec kFlagOnline then
        if peekOfflineHeader data = some .pathResponse then
          s.completePathMigration ctx source data verified found
        else s.handleOffline ctx source channel data now
      else if (peekCid data).any s.challengeNewPath then s
      else s.handleOffline ctx source channel data now
    else s.handleOffline ctx source channel data now

variable {ctx s}

/-- What a datagram can do to the agent. -/
inductive Arrived (ctx : AgentContext Probe) (s : Agent Probe) (source : InetAddress) (now : Int) :
    Agent Probe → Prop
  | nothing : Arrived ctx s source now s
  /-- It belongs to a gather. -/
  | gather (i : Nat) (f : Gathering Probe → Gathering Probe)
      (hkeeps : ∀ g, (f g).onDone = g.onDone) :
      Arrived ctx s source now { s with gathers := s.gathers.modify i f }
  /-- It belongs to a punch, and there is no route where it came from. -/
  | punch {i : Nat} {p : PunchInFlight} {channel : BitVec 32} {data : List UInt8}
      (hp : s.punches[i]? = some p)
      (hfresh : s.routes.lookup (ctx.routeKey source channel) = none) :
      Arrived ctx s source now
        (s.conclude ctx i p (p.machine.onDatagram source channel data) now)
  /-- A route moves to where there is none. -/
  | migrated {found : Key} {route : Route} (hroute : s.routes.lookup found = some route)
      (hne : ctx.routeKey source 0 ≠ found)
      (hfresh : s.routes.lookup (ctx.routeKey source 0) = none) :
      Arrived ctx s source now
        ({ s with routes := s.routes.erase found }.putRoute (ctx.routeKey source 0) route)

theorem arrived_handleOffline (hfresh : s.routes.lookup (ctx.routeKey source channel) = none)
    (data : List UInt8) (now : Int) :
    Arrived ctx s source now (s.handleOffline ctx source channel data now) := by
  rw [handleOffline]
  split
  · exact .gather _ _ fun _ => rfl
  · split
    · exact .nothing
    · split
      · exact .nothing
      next hp => exact .punch hp hfresh

theorem arrived_completePathMigration (hfresh : s.routes.lookup (ctx.routeKey source 0) = none)
    (data : List UInt8) (now : Int) (verified : Bool) (found : Key) :
    Arrived ctx s source now (s.completePathMigration ctx source data verified found) := by
  rw [completePathMigration]
  split
  · exact .nothing
  · split
    · exact .nothing
    · split
      · exact .nothing
      next hroute =>
        split
        · exact .nothing
        next hmoves => exact .migrated hroute (fun h => hmoves (.inr (.inr h.symm))) hfresh

theorem arrived_onArrival (ctx : AgentContext Probe) (s : Agent Probe) (source : InetAddress)
    (raw : List UInt8) (now : Int) (verified : Bool) (found : Key) :
    Arrived ctx s source now (s.onArrival ctx source raw now verified found) := by
  rw [onArrival]
  split
  · exact .nothing
  next channel data _ =>
    split
    · exact .nothing
    next hnone =>
      have hfresh : s.routes.lookup (ctx.routeKey source channel) = none := by simpa using hnone
      split
      next hmigratable =>
        obtain ⟨rfl, -⟩ := hmigratable
        split
        · split
          · exact arrived_completePathMigration hfresh data now verified found
          · exact arrived_handleOffline hfresh data now
        · split
          · exact .nothing
          · exact arrived_handleOffline hfresh data now
      · exact arrived_handleOffline hfresh data now

/-- What arrives does not concern where the thread is. -/
theorem Arrived.frame (h : Arrived ctx s source now s') :
    s'.running = s.running ∧ s'.stopRequested = s.stopRequested ∧ s'.phase = s.phase := by
  cases h with
  | nothing | gather i f hkeeps => exact ⟨rfl, rfl, rfl⟩
  | @punch i p channel data hp hfresh =>
    rcases onDatagram_outcome p.machine source channel data with hpending | ⟨first, hdone⟩ | hfailed
    · rw [conclude_pending hpending]
      exact ⟨rfl, rfl, rfl⟩
    · rw [conclude_completed hdone]
      exact ⟨rfl, rfl, rfl⟩
    · rw [conclude_failed hfailed]
      exact ⟨rfl, rfl, rfl⟩
  | migrated hroute hne hfresh => exact ⟨rfl, rfl, rfl⟩

/-! ## The thread -/

variable (ctx s)

/-- A gather is ticked, and answered if it is done. -/
def tickGather (i : Nat) (now : Int) : Agent Probe :=
  match s.gathers[i]? with
  | none => { s with punches := s.punches ++ s.pending, pending := [], phase := .matching 0 }
  | some g =>
    let probe := ctx.tick g.probe now
    if ctx.done probe now then
      { s with gathers := s.gathers.eraseIdx i }.answerGather g.onDone (ctx.result probe)
    else
      { s with gathers := s.gathers.set i { g with probe }, phase := .gathering (i + 1) now }

/-- The route of a public candidate, if there is one. -/
def existing (candidates : List Candidate) : Option (Key × Route) :=
  candidates.findSome? fun candidate =>
    if candidate.type ≠ .reflexive then none
    else
      candidate.address.bind fun address =>
        (s.routes.lookup (ctx.routeKey address 0)).map (ctx.routeKey address 0, ·)

/-- A punch toward a peer that routes already is resolved with its session, or waits for it. -/
def matchPunch (i : Nat) (now : Int) : Agent Probe :=
  match s.punches[i]? with
  | none => { s with phase := .ticking 0 now }
  | some p =>
    match s.existing ctx p.machine.offer.candidates with
    | none => { s with phase := .matching (i + 1) }
    | some (key, route) =>
      let s := { s with punches := s.punches.eraseIdx i }
      if s.isReady route.session then s.answerPunch p.onDone .success (some route.session)
      else
        { s with
          routes := s.routes.insert key { route with waiters := route.waiters ++ p.onDone.toList } }

/-- A punch is ticked. -/
def tickPunch (i : Nat) (now : Int) (p : PunchInFlight) : Agent Probe :=
  match (p.machine.tick now).outcome with
  | .failed reason => s.failPunch i p reason
  | _ =>
    { s with
      punches := s.punches.set i { p with machine := (p.machine.tick now).machine }
      phase := .ticking (i + 1) now }

/-- The waiters of a route are taken, to be resolved. -/
def resolve (key : Key) (route : Route) (result : Result) (resume : Resume) : Agent Probe :=
  { s with
    routes := s.routes.insert key { route with waiters := [] }
    phase := .resolving route.waiters result route.session resume }

/-- A session closes. -/
def closeSession (session : Nat) : Agent Probe :=
  { s with sessions := s.sessions.modify session fun x => { x with closed := true } }

/-- A route in `ProcessSessions`, up to `Process`. -/
def sweepRoute (key : Key) (todo : List Key) (now : Int) : Agent Probe :=
  match s.routes.lookup key with
  | none => { s with phase := .sweeping todo now }
  | some route =>
    if !s.alive route.session then s.resolve key route .cannotConnect (.erase key todo now)
    else { s with phase := .processing key todo now }

/-- A route in `ProcessSessions`, after `Process`. -/
def processed (key : Key) (todo : List Key) (now : Int) : Agent Probe :=
  match s.routes.lookup key with
  | none => { s with phase := .sweeping todo now }
  | some route =>
    if route.waiters = [] then { s with phase := .sweeping todo now }
    else if s.isReady route.session then s.resolve key route .success (.next todo now)
    else if route.readyDeadline ≤ now then s.resolve key route .timeout (.close key todo now)
    else { s with phase := .sweeping todo now }

/-- The waiters are resolved. -/
def resumed (session : Nat) : Resume → Agent Probe
  | .erase key todo now => { s with routes := s.routes.erase key, phase := .sweeping todo now }
  | .next todo now => { s with phase := .sweeping todo now }
  | .close key todo now =>
    { s.closeSession session with routes := s.routes.erase key, phase := .sweeping todo now }
  | .stop todo => { s.closeSession session with phase := .stopRoutes todo }

/-- The next step of the thread, or of `Stop` once it has ended, with the clock where it is read and
the order in which the table is walked. -/
def advance (now : Int) (order : List Key) : Option (Agent Probe) :=
  match s.phase with
  | .stopped => none
  | .looping =>
    if s.stopRequested then some { s with phase := .exited }
    else some { s.applyPendingRebind with phase := .draining }
  | .draining =>
    some { s with
      gathers := s.gathers ++ s.pendingGathers
      pendingGathers := []
      phase := .gathering 0 now }
  | .gathering i now => some (s.tickGather ctx i now)
  | .matching i => some (s.matchPunch ctx i now)
  | .ticking i now' =>
    match s.punches[i]? with
    | some p => some (s.tickPunch i now' p)
    | none =>
      if order.Perm s.routes.keys then some { s with phase := .sweeping order now } else none
  | .sweeping [] _ => some { s with phase := .looping }
  | .sweeping (key :: todo) now => some (s.sweepRoute key todo now)
  | .processing key todo now => some (s.processed key todo now)
  | .resolving (waiter :: waiters) result session resume =>
    some ({ s with phase := .resolving waiters result session resume }.answerPunch
      (some waiter) result
      (if result = Result.success then some session else none))
  | .resolving [] _ session resume => some (s.resumed session resume)
  | .exited =>
    some { s with
      punches := s.punches ++ s.pending
      pending := []
      gathers := s.gathers ++ s.pendingGathers
      pendingGathers := []
      phase := .stopGathers }
  | .stopGathers =>
    match s.gathers with
    | g :: gathers => some ({ s with gathers }.answerGather g.onDone .alreadyStopped)
    | [] => some { s with phase := .stopPunches }
  | .stopPunches =>
    match s.punches with
    | p :: punches => some ({ s with punches }.answerPunch p.onDone .alreadyStopped none)
    | [] => if order.Perm s.routes.keys then some { s with phase := .stopRoutes order } else none
  | .stopRoutes (key :: todo) =>
    match s.routes.lookup key with
    | none => some { s with phase := .stopRoutes todo }
    | some route => some (s.resolve key route .alreadyStopped (.stop todo))
  | .stopRoutes [] => some { s with routes := ∅, phase := .stopped }

variable {ctx s}

/-- It is under the key of the candidate's address. -/
theorem existing_eq_some {candidates : List Candidate} {key : Key} {route : Route}
    (h : s.existing ctx candidates = some (key, route)) :
    ∃ candidate ∈ candidates, candidate.type = .reflexive ∧
      ∃ address, candidate.address = some address ∧ key = ctx.routeKey address 0 ∧
        s.routes.lookup key = some route := by
  obtain ⟨candidate, hmem, hfound⟩ := List.exists_of_findSome?_eq_some h
  split at hfound
  next => cases hfound
  next htype =>
    obtain ⟨address, haddress, hmap⟩ := Option.bind_eq_some_iff.1 hfound
    obtain ⟨route', hlookup, heq⟩ := Option.map_eq_some_iff.1 hmap
    cases heq
    exact ⟨candidate, hmem, not_not.1 htype, address, haddress, rfl, hlookup⟩

/-- What a step of the thread, or of `Stop`, can be. -/
inductive Advanced (ctx : AgentContext Probe) (s : Agent Probe) (now : Int) : Agent Probe → Prop
  | exit (hphase : s.phase = .looping) (hrequested : s.stopRequested = true) :
      Advanced ctx s now { s with phase := .exited }
  | drain (hphase : s.phase = .looping) :
      Advanced ctx s now { s.applyPendingRebind with phase := .draining }
  | takeGathers (hphase : s.phase = .draining) :
      Advanced ctx s now { s with
        gathers := s.gathers ++ s.pendingGathers
        pendingGathers := []
        phase := .gathering 0 now }
  | gather {i : Nat} {start : Int} (hphase : s.phase = .gathering i start) :
      Advanced ctx s now (s.tickGather ctx i start)
  | matching {i : Nat} (hphase : s.phase = .matching i) :
      Advanced ctx s now (s.matchPunch ctx i now)
  | tick {i : Nat} {start : Int} {p : PunchInFlight} (hphase : s.phase = .ticking i start)
      (hp : s.punches[i]? = some p) : Advanced ctx s now (s.tickPunch i start p)
  | sweep {i : Nat} {start : Int} {order : List Key} (hphase : s.phase = .ticking i start) :
      Advanced ctx s now { s with phase := .sweeping order now }
  | swept {start : Int} (hphase : s.phase = .sweeping [] start) :
      Advanced ctx s now { s with phase := .looping }
  | route {key : Key} {todo : List Key} {start : Int}
      (hphase : s.phase = .sweeping (key :: todo) start) :
      Advanced ctx s now (s.sweepRoute key todo start)
  | processed {key : Key} {todo : List Key} {start : Int}
      (hphase : s.phase = .processing key todo start) :
      Advanced ctx s now (s.processed key todo start)
  | resolved {waiter : Nat} {waiters : List Nat} {result : Result} {session : Nat} {resume : Resume}
      (hphase : s.phase = .resolving (waiter :: waiters) result session resume) :
      Advanced ctx s now
        ({ s with phase := .resolving waiters result session resume }.answerPunch
          (some waiter) result (if result = Result.success then some session else none))
  | resumed {result : Result} {session : Nat} {resume : Resume}
      (hphase : s.phase = .resolving [] result session resume) :
      Advanced ctx s now (s.resumed session resume)
  | takeAll (hphase : s.phase = .exited) :
      Advanced ctx s now { s with
        punches := s.punches ++ s.pending
        pending := []
        gathers := s.gathers ++ s.pendingGathers
        pendingGathers := []
        phase := .stopGathers }
  | stopGather {g : Gathering Probe} {gathers : List (Gathering Probe)}
      (hphase : s.phase = .stopGathers) (hgathers : s.gathers = g :: gathers) :
      Advanced ctx s now ({ s with gathers }.answerGather g.onDone .alreadyStopped)
  | stoppedGathers (hphase : s.phase = .stopGathers) (hempty : s.gathers = []) :
      Advanced ctx s now { s with phase := .stopPunches }
  | stopPunch {p : PunchInFlight} {punches : List PunchInFlight} (hphase : s.phase = .stopPunches)
      (hpunches : s.punches = p :: punches) :
      Advanced ctx s now ({ s with punches }.answerPunch p.onDone .alreadyStopped none)
  | stoppedPunches {order : List Key} (hphase : s.phase = .stopPunches) (hempty : s.punches = [])
      (hperm : order.Perm s.routes.keys) : Advanced ctx s now { s with phase := .stopRoutes order }
  | skipRoute {key : Key} {todo : List Key} (hphase : s.phase = .stopRoutes (key :: todo))
      (hnone : s.routes.lookup key = none) : Advanced ctx s now { s with phase := .stopRoutes todo }
  | stopRoute {key : Key} {todo : List Key} {route : Route}
      (hphase : s.phase = .stopRoutes (key :: todo)) (hroute : s.routes.lookup key = some route) :
      Advanced ctx s now (s.resolve key route .alreadyStopped (.stop todo))
  | stopped (hphase : s.phase = .stopRoutes []) :
      Advanced ctx s now { s with routes := ∅, phase := .stopped }

theorem advanced_of_advance {order : List Key} (h : s.advance ctx now order = some s') :
    Advanced ctx s now s' := by
  rw [advance] at h
  split at h
  next => cases h
  next hphase =>
    split at h
    next hrequested =>
      cases h
      exact .exit hphase hrequested
    next =>
      cases h
      exact .drain hphase
  next hphase =>
    cases h
    exact .takeGathers hphase
  next hphase =>
    cases h
    exact .gather hphase
  next hphase =>
    cases h
    exact .matching hphase
  next hphase =>
    split at h
    next hp =>
      cases h
      exact .tick hphase hp
    next =>
      obtain ⟨-, hnext⟩ := Option.ite_none_right_eq_some.1 h
      cases hnext
      exact .sweep hphase
  next hphase =>
    cases h
    exact .swept hphase
  next hphase =>
    cases h
    exact .route hphase
  next hphase =>
    cases h
    exact .processed hphase
  next hphase =>
    cases h
    exact .resolved hphase
  next hphase =>
    cases h
    exact .resumed hphase
  next hphase =>
    cases h
    exact .takeAll hphase
  next hphase =>
    split at h
    next hgathers =>
      cases h
      exact .stopGather hphase hgathers
    next hempty =>
      cases h
      exact .stoppedGathers hphase hempty
  next hphase =>
    split at h
    next hpunches =>
      cases h
      exact .stopPunch hphase hpunches
    next hempty =>
      obtain ⟨hperm, hnext⟩ := Option.ite_none_right_eq_some.1 h
      cases hnext
      exact .stoppedPunches hphase hempty hperm
  next hphase =>
    split at h
    next hnone =>
      cases h
      exact .skipRoute hphase hnone
    next hroute =>
      cases h
      exact .stopRoute hphase hroute
  next hphase =>
    cases h
    exact .stopped hphase

/-- `Process` of a session that is not closed makes it ready. -/
def becomesReady (s : Agent Probe) : Option (Agent Probe) :=
  match s.phase with
  | .processing key _ _ =>
    (s.routes.lookup key).bind fun route =>
      if s.alive route.session then
        some { s with
          sessions := s.sessions.modify route.session fun x => { x with ready := true } }
      else none
  | _ => none

theorem becomesReady_eq_some (h : s.becomesReady = some s') :
    ∃ sessions, s' = { s with sessions } := by
  rw [becomesReady] at h
  split at h
  · obtain ⟨route, -, hnext⟩ := Option.bind_eq_some_iff.1 h
    obtain ⟨-, heq⟩ := Option.ite_none_right_eq_some.1 hnext
    exact ⟨_, (Option.some.inj heq).symm⟩
  · cases h

end Agent

inductive AgentEvent (Probe : Type) where
  | start (socket : Nat)
  /-- `Stop`, up to where it asks the thread to end. -/
  | stop
  | requestStop
  | rebind (socket : Nat)
  | gather (probe : Probe) (callback : Bool)
  | punch (offer : PunchOffer) (callback : Bool) (now : Int) (guid : BitVec 64)
  /-- A session closes: its application, its peer or a timeout. -/
  | close (session : Nat)
  | ready
  | datagram (source : InetAddress) (raw : List UInt8) (now : Int) (verified : Bool) (found : Key)
  | advance (now : Int) (order : List Key)

/-- Runs of an agent. -/
def agent {Probe : Type} (ctx : AgentContext Probe) : Machine (Agent Probe) (AgentEvent Probe) where
  step s
    | .start socket =>
      if s.phase = .stopped ∧ s.running = false then
        some { s with running := true, stopRequested := false, socket, phase := .looping }
      else none
    | .stop => some { s with running := false }
    | .requestStop =>
      if s.phase ≠ .stopped ∧ s.running = false then some { s with stopRequested := true } else none
    | .rebind socket => some (s.rebind socket)
    | .gather probe callback => some (s.gather probe callback)
    | .punch offer callback now guid => some (s.punch ctx offer callback now guid)
    | .close session => some (s.closeSession session)
    | .ready => s.becomesReady
    | .datagram source raw now verified found =>
      if s.phase = .draining then some (s.onArrival ctx source raw now verified found) else none
    | .advance now order => s.advance ctx now order

/-! ## A peer to run against -/

/-- Where the peer of the runs is. -/
def samplePeer : InetAddress := .inet ⟨.ipv4 (Vector.replicate 4 9), 4100⟩

/-- An agent with gathers that wait. -/
def sampleContext : AgentContext Unit where
  routeKey address channel := address.hostKey ++ [UInt8.ofNat channel.toNat]
  owns _ _ := false
  onDatagram probe _ _ := probe
  tick probe _ := probe
  done _ _ := false
  result _ := .success

def sampleKey : Key := sampleContext.routeKey samplePeer 0

/-- The broker's offer. -/
def sampleOffer : PunchOffer :=
  { candidates := [{ type := .reflexive, address := some samplePeer }], isInitiator := true }

/-- The peer's answer arrives. -/
def sampleReply : AgentEvent Unit := .datagram samplePeer (buildReply2 8 1200 0) 0 false []

end P2p
end Znet

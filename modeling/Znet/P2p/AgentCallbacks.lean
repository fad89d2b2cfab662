import Znet.Lib.Custody
import Znet.P2p.Agent

/-!
# Every request is answered once

A callback that was passed to `Gather` or `Punch` is in one place: it was handed over and not yet
taken, belongs to a gather or a punch in flight, waits at a route, is among those being resolved, or
has been invoked.  No step loses or doubles one, whatever the callbacks themselves ask for, and
`Stop` empties all these places but the last.

* `answered_once` — **every request is answered once** when `Stop` has returned, and a route never
  takes the place of another.
-/

namespace Znet
namespace P2p

open Zdt Custody

/-! ## Phases -/

namespace Phase

/-- The callbacks that are being resolved. -/
def waiters : Phase → List Nat
  | .resolving waiters _ _ _ => waiters
  | _ => []

@[simp] theorem waiters_resolving (waiters : List Nat) (result : Result) (session : Nat)
    (resume : Resume) : (resolving waiters result session resume).waiters = waiters := rfl

variable (i : Nat) (todo : List Key) (now : Int)

@[simp] theorem waiters_gathering : (gathering i now).waiters = [] := rfl

@[simp] theorem waiters_matching : (matching i).waiters = [] := rfl

@[simp] theorem waiters_ticking : (ticking i now).waiters = [] := rfl

@[simp] theorem waiters_sweeping : (sweeping todo now).waiters = [] := rfl

@[simp] theorem waiters_stopGathers : stopGathers.waiters = [] := rfl

@[simp] theorem waiters_stopRoutes : (stopRoutes todo).waiters = [] := rfl

/-- How far the agent is in stopping. -/
def stage : Phase → Nat
  | .exited => 1
  | .stopGathers => 2
  | .stopPunches => 3
  | .stopRoutes _ => 4
  | .resolving _ _ _ (.stop _) => 4
  | .stopped => 5
  | _ => 0

/-- Whether callbacks may wait at the route of a key. -/
def mayWait : Phase → Key → Prop
  | .resolving _ _ _ (.erase k _ _), key => key ≠ k
  | .resolving _ _ _ (.close k _ _), key => key ≠ k
  | .resolving _ _ _ (.stop todo), key => key ∈ todo
  | .stopRoutes todo, key => key ∈ todo
  | .stopped, _ => False
  | _, _ => True

theorem stage_resolving (waiters waiters' : List Nat) (result : Result) (session : Nat)
    (resume : Resume) : (resolving waiters result session resume).stage =
      (resolving waiters' result session resume).stage := by
  cases resume <;> rfl

theorem mayWait_resolving (waiters waiters' : List Nat) (result : Result) (session : Nat)
    (resume : Resume) (key : Key) : (resolving waiters result session resume).mayWait key =
      (resolving waiters' result session resume).mayWait key := by
  cases resume <;> rfl

end Phase

/-- The callback of a punch, if it has one. -/
def PunchInFlight.callbacks (p : PunchInFlight) : List Nat := p.onDone.toList

/-- The callback of a gather, if it has one. -/
def Gathering.callbacks {Probe : Type} (g : Gathering Probe) : List Nat := g.onDone.toList

namespace Agent

variable {Probe : Type} {ctx : AgentContext Probe} {s s' : Agent Probe}

/-! ## The places of a callback -/

/-- How often the callback of a gather is somewhere. -/
def gatherTally (s : Agent Probe) (id : Nat) : Nat :=
  held Gathering.callbacks s.pendingGathers id + held Gathering.callbacks s.gathers id +
    held (fun answer => [answer.1]) s.gathered id

/-- How often the callback of a punch is somewhere. -/
def punchTally (s : Agent Probe) (id : Nat) : Nat :=
  held PunchInFlight.callbacks s.pending id + held PunchInFlight.callbacks s.punches id +
    tableHeld Route.waiters s.routes id + s.phase.waiters.count id +
      held (fun answer => [answer.id]) s.punched id

/-- Nothing is lost or doubled, and no route is overwritten. -/
structure Conserves (s s' : Agent Probe) : Prop where
  gatherCalls : s'.gatherCalls = s.gatherCalls
  punchCalls : s'.punchCalls = s.punchCalls
  gathers : ∀ id, s'.gatherTally id = s.gatherTally id
  punches : ∀ id, s'.punchTally id = s.punchTally id
  overwritten : s'.overwritten = s.overwritten

theorem Conserves.refl (s : Agent Probe) : Conserves s s :=
  ⟨rfl, rfl, fun _ => rfl, fun _ => rfl, rfl⟩

theorem held_callback {α : Type} (f : Nat → α) {token : α → List Nat} (h : ∀ n, token (f n) = [n])
    (callback : Option Nat) (id : Nat) :
    held token (callback.toList.map f) id = callback.toList.count id := by
  cases callback with
  | none => rfl
  | some n => simp [h]

variable (callback : Option Nat) (result : Result)

theorem gatherTally_answerGather (s : Agent Probe) (id : Nat) :
    (s.answerGather callback result).gatherTally id =
      s.gatherTally id + callback.toList.count id := by
  simp only [gatherTally, answerGather, held_append]
  rw [held_callback (·, result) (fun _ => rfl)]
  omega

theorem punchTally_answerPunch (s : Agent Probe) (session : Option Nat) (id : Nat) :
    (s.answerPunch callback result session).punchTally id =
      s.punchTally id + callback.toList.count id := by
  simp only [punchTally, answerPunch, held_append]
  rw [held_callback _ (fun _ => rfl)]
  omega

/-! ## Datagrams -/

variable {i session : Nat} {p q : PunchInFlight} {source : InetAddress} {channel : BitVec 32}
  {now : Int} {key : Key} {route : Route} {result : Result} {resume : Resume} {todo : List Key}

theorem conserves_failPunch (hp : s.punches[i]? = some p) (hq : q.onDone = p.onDone)
    (reason : Result) :
    Conserves s (s.failPunch i q reason) := by
  refine ⟨rfl, rfl, fun _ => rfl, fun id => ?_, rfl⟩
  rw [failPunch, punchTally_answerPunch, hq]
  simp only [punchTally]
  rw [held_eraseIdx PunchInFlight.callbacks id hp, PunchInFlight.callbacks]
  omega

/-- The callback goes to the waiters of the route, which is new. -/
theorem conserves_completePunch (hp : s.punches[i]? = some p) (hq : q.onDone = p.onDone)
    (hfresh : s.routes.lookup (ctx.routeKey source channel) = none) (now : Int) :
    Conserves s (s.completePunch ctx i q source channel now) := by
  refine ⟨rfl, rfl, fun _ => rfl, fun id => ?_, ?_⟩
  · simp only [punchTally, completePunch, putRoute]
    rw [tableHeld_insert, tableHeld_erase_of_none _ _ hfresh, hq,
      held_eraseIdx PunchInFlight.callbacks id hp]
    simp only [PunchInFlight.callbacks]
    omega
  · simp only [completePunch, putRoute, hfresh]
    rfl

theorem conserves_conclude (hp : s.punches[i]? = some p)
    (hfresh : s.routes.lookup (ctx.routeKey source channel) = none) (data : List UInt8)
    (now : Int) :
    Conserves s (s.conclude ctx i p (p.machine.onDatagram source channel data) now) := by
  rcases onDatagram_outcome p.machine source channel data with hpending | ⟨first, hdone⟩ | hfailed
  · rw [conclude_pending hpending]
    refine ⟨rfl, rfl, fun _ => rfl, fun id => ?_, rfl⟩
    simp only [punchTally]
    rw [held_set PunchInFlight.callbacks id hp (by rfl)]
  · rw [conclude_completed hdone]
    exact conserves_completePunch hp (by rfl) hfresh now
  · rw [conclude_failed hfailed]
    exact conserves_failPunch hp (by rfl) _

/-- A datagram moves a callback at most from a punch to its route, and a route with its waiters. -/
theorem conserves_arrived (h : Arrived ctx s source now s') :
    Conserves s s' := by
  cases h with
  | nothing => exact .refl s
  | gather i f hkeeps =>
    refine ⟨rfl, rfl, fun id => ?_, fun _ => rfl, rfl⟩
    have hsame : ∀ g, (f g).callbacks = g.callbacks := fun g => congrArg Option.toList (hkeeps g)
    simp only [gatherTally]
    rw [held_modify Gathering.callbacks id hsame]
  | punch hp hfresh => exact conserves_conclude hp hfresh _ now
  | @migrated found route hroute hne hfresh =>
    have hfree : (s.routes.erase found).lookup (ctx.routeKey source 0) = none := by
      rw [AList.lookup_erase_ne hne, hfresh]
    refine ⟨rfl, rfl, fun _ => rfl, fun id => ?_, ?_⟩
    · simp only [punchTally, putRoute]
      rw [tableHeld_insert, tableHeld_erase_of_none _ _ hfree,
        tableHeld_lookup Route.waiters id hroute]
    · simp only [putRoute, hfree]
      rfl

/-! ## The thread -/

theorem conserves_tickGather (hphase : s.phase.waiters = []) (i : Nat) (now : Int) :
    Conserves s (s.tickGather ctx i now) := by
  rw [tickGather]
  split
  · refine ⟨rfl, rfl, fun _ => rfl, fun id => ?_, rfl⟩
    simp only [punchTally, held_append, held_nil, hphase, Phase.waiters_matching]
    omega
  next g hg =>
    dsimp only
    split
    · refine ⟨rfl, rfl, fun id => ?_, fun _ => rfl, rfl⟩
      rw [gatherTally_answerGather]
      simp only [gatherTally]
      rw [held_eraseIdx Gathering.callbacks id hg, Gathering.callbacks]
      omega
    · refine ⟨rfl, rfl, fun id => ?_, fun id => ?_, rfl⟩
      · simp only [gatherTally]
        rw [held_set Gathering.callbacks id hg (by rfl)]
      · simp only [punchTally, hphase, Phase.waiters_gathering]

/-- The callback is invoked, or waits with those that are there. -/
theorem conserves_matchPunch (hphase : s.phase.waiters = []) (i : Nat) (now : Int) :
    Conserves s (s.matchPunch ctx i now) := by
  rw [matchPunch]
  split
  · refine ⟨rfl, rfl, fun _ => rfl, fun id => ?_, rfl⟩
    simp only [punchTally, hphase, Phase.waiters_ticking]
  next p hp =>
    split
    · refine ⟨rfl, rfl, fun _ => rfl, fun id => ?_, rfl⟩
      simp only [punchTally, hphase, Phase.waiters_matching]
    next key route hexisting =>
      dsimp only
      split
      · refine ⟨rfl, rfl, fun _ => rfl, fun id => ?_, rfl⟩
        rw [punchTally_answerPunch]
        simp only [punchTally]
        rw [held_eraseIdx PunchInFlight.callbacks id hp, PunchInFlight.callbacks]
        omega
      · obtain ⟨-, -, -, -, -, -, hlookup⟩ := existing_eq_some hexisting
        refine ⟨rfl, rfl, fun _ => rfl, fun id => ?_, rfl⟩
        simp only [punchTally]
        rw [tableHeld_insert, tableHeld_lookup Route.waiters id hlookup,
          held_eraseIdx PunchInFlight.callbacks id hp, PunchInFlight.callbacks]
        simp only [List.count_append]
        omega

theorem conserves_tickPunch (hphase : s.phase.waiters = []) (hp : s.punches[i]? = some p)
    (now : Int) : Conserves s (s.tickPunch i now p) := by
  rw [tickPunch]
  split
  · exact conserves_failPunch hp rfl _
  · refine ⟨rfl, rfl, fun _ => rfl, fun id => ?_, rfl⟩
    simp only [punchTally, hphase, Phase.waiters_ticking]
    rw [held_set PunchInFlight.callbacks id hp (by rfl)]

/-- Only the phase changes, and no callback is being resolved. -/
theorem conserves_phase {phase : Phase} (hphase : s.phase.waiters = [])
    (hnext : phase.waiters = []) :
    Conserves s { s with phase } := by
  refine ⟨rfl, rfl, fun _ => rfl, fun id => ?_, rfl⟩
  simp only [punchTally, hphase, hnext]

/-- The waiters leave the route and are being resolved. -/
theorem conserves_resolve (hphase : s.phase.waiters = [])
    (hroute : s.routes.lookup key = some route) (result : Result) (resume : Resume) :
    Conserves s (s.resolve key route result resume) := by
  refine ⟨rfl, rfl, fun _ => rfl, fun id => ?_, rfl⟩
  simp only [punchTally, resolve, hphase, Phase.waiters_resolving]
  rw [tableHeld_insert, tableHeld_lookup Route.waiters id hroute]
  simp only [List.count_nil]
  omega

theorem conserves_sweepRoute (hphase : s.phase.waiters = []) (key : Key) (todo : List Key)
    (now : Int) : Conserves s (s.sweepRoute key todo now) := by
  rw [sweepRoute]
  split
  · exact conserves_phase hphase rfl
  next hroute =>
    split
    · exact conserves_resolve hphase hroute _ _
    · exact conserves_phase hphase rfl

theorem conserves_processed (hphase : s.phase.waiters = []) (key : Key) (todo : List Key)
    (now : Int) : Conserves s (s.processed key todo now) := by
  rw [processed]
  split
  · exact conserves_phase hphase rfl
  next hroute =>
    split
    · exact conserves_phase hphase rfl
    · split
      · exact conserves_resolve hphase hroute _ _
      · split
        · exact conserves_resolve hphase hroute _ _
        · exact conserves_phase hphase rfl

/-- A route without waiters can go. -/
theorem tableHeld_erase_route {routes : AList fun _ : Key => Route}
    (h : ∀ route, routes.lookup key = some route → route.waiters = []) (id : Nat) :
    tableHeld Route.waiters (routes.erase key) id = tableHeld Route.waiters routes id := by
  cases hlookup : routes.lookup key with
  | none => exact tableHeld_erase_of_none _ _ hlookup
  | some route =>
    rw [tableHeld_lookup Route.waiters id hlookup, h route hlookup, List.count_nil, Nat.zero_add]

/-! ## What has been emptied -/

/-- What has been emptied, by where the agent is. -/
structure Parked (s : Agent Probe) : Prop where
  requested : s.stopRequested = true → s.running = false
  running : 0 < s.phase.stage → s.running = false
  handed : 1 < s.phase.stage → s.pending = [] ∧ s.pendingGathers = []
  gathers : 2 < s.phase.stage → s.gathers = []
  punches : 3 < s.phase.stage → s.punches = []
  routes : ∀ key route, s.routes.lookup key = some route → route.waiters = [] ∨ s.phase.mayWait key

section

variable (h : Parked s)
include h

/-- While the thread runs there is nothing to say. -/
theorem Parked.working (hrunning : s'.running = s.running)
    (hrequested : s'.stopRequested = s.stopRequested) (hstage : s'.phase.stage = 0)
    (hwait : ∀ key, s'.phase.mayWait key) : Parked s' where
  requested := by
    rw [hrunning, hrequested]
    exact h.requested
  running := by omega
  handed := by omega
  gathers := by omega
  punches := by omega
  routes key _ _ := .inr (hwait key)

/-- The places stay as they are, and so does the stage. -/
theorem Parked.frame (hrunning : s'.running = s.running)
    (hrequested : s'.stopRequested = s.stopRequested) (hpending : s'.pending = s.pending)
    (hpendingGathers : s'.pendingGathers = s.pendingGathers) (hgathers : s'.gathers = s.gathers)
    (hpunches : s'.punches = s.punches) (hroutes : s'.routes = s.routes)
    (hstage : s'.phase.stage = s.phase.stage)
    (hwait : ∀ key route, s.routes.lookup key = some route →
      s.phase.mayWait key → s'.phase.mayWait key) : Parked s' where
  requested := by rw [hrunning, hrequested]; exact h.requested
  running := by rw [hrunning, hstage]; exact h.running
  handed := by rw [hpending, hpendingGathers, hstage]; exact h.handed
  gathers := by rw [hgathers, hstage]; exact h.gathers
  punches := by rw [hpunches, hstage]; exact h.punches
  routes key route hroute := by
    rw [hroutes] at hroute
    exact (h.routes key route hroute).imp_right (hwait key route hroute)

/-- The waiters of one route are taken. -/
theorem Parked.resolve
    (hstage : (Phase.resolving route.waiters result route.session resume).stage = s.phase.stage)
    (hwait : ∀ k, k ≠ key → s.phase.mayWait k →
      (Phase.resolving route.waiters result route.session resume).mayWait k) :
    Parked (s.resolve key route result resume) where
  requested := h.requested
  running hpos := h.running (hstage ▸ hpos)
  handed hpos := h.handed (hstage ▸ hpos)
  gathers hpos := h.gathers (hstage ▸ hpos)
  punches hpos := h.punches (hstage ▸ hpos)
  routes k other hother := by
    by_cases hk : k = key
    · subst hk
      rw [Agent.resolve, AList.lookup_insert] at hother
      cases hother
      exact .inl rfl
    · rw [Agent.resolve, AList.lookup_insert_ne hk] at hother
      exact (h.routes k other hother).imp_right (hwait k hk)

theorem Parked.sweepRoute (hstage : s.phase.stage = 0) : Parked (s.sweepRoute key todo now) := by
  rw [Agent.sweepRoute]
  split
  · exact h.working rfl rfl rfl fun _ => trivial
  · split
    · exact h.resolve hstage.symm fun _ hne _ => hne
    · exact h.working rfl rfl rfl fun _ => trivial

theorem Parked.processed (hstage : s.phase.stage = 0) : Parked (s.processed key todo now) := by
  rw [Agent.processed]
  split
  · exact h.working rfl rfl rfl fun _ => trivial
  · split
    · exact h.working rfl rfl rfl fun _ => trivial
    · split
      · exact h.working rfl rfl rfl fun _ => trivial
      · split
        · exact h.resolve hstage.symm fun _ hne _ => hne
        · exact h.working rfl rfl rfl fun _ => trivial

theorem Parked.tickGather (hphase : s.phase = .gathering i now) :
    Parked (s.tickGather ctx i now) := by
  have hstage : s.phase.stage = 0 := by rw [hphase]; rfl
  have hwait : ∀ key, s.phase.mayWait key := by rw [hphase]; exact fun _ => trivial
  rw [Agent.tickGather]
  split
  · exact h.working rfl rfl rfl fun _ => trivial
  · dsimp only
    split
    · exact h.working rfl rfl hstage hwait
    · exact h.working rfl rfl rfl fun _ => trivial

theorem Parked.matchPunch (hphase : s.phase = .matching i) (now : Int) :
    Parked (s.matchPunch ctx i now) := by
  have hstage : s.phase.stage = 0 := by rw [hphase]; rfl
  have hwait : ∀ key, s.phase.mayWait key := by rw [hphase]; exact fun _ => trivial
  rw [Agent.matchPunch]
  split
  · exact h.working rfl rfl rfl fun _ => trivial
  · split
    · exact h.working rfl rfl rfl fun _ => trivial
    · dsimp only
      split <;> exact h.working rfl rfl hstage hwait

theorem Parked.tickPunch (hphase : s.phase = .ticking i now) (p : PunchInFlight) :
    Parked (s.tickPunch i now p) := by
  have hstage : s.phase.stage = 0 := by rw [hphase]; rfl
  have hwait : ∀ key, s.phase.mayWait key := by rw [hphase]; exact fun _ => trivial
  rw [Agent.tickPunch]
  split
  · exact h.working rfl rfl hstage hwait
  · exact h.working rfl rfl rfl fun _ => trivial

/-! ## Steps -/

/-- The waiters are resolved, so a route that goes has none left. -/
theorem conserves_resumed (hphase : s.phase = .resolving [] result session resume) :
    Conserves s (s.resumed session resume) := by
  have hwaiters : s.phase.waiters = [] := by rw [hphase]; rfl
  have hroutes := h.routes
  rw [hphase] at hroutes
  cases resume with
  | erase key todo now =>
    refine ⟨rfl, rfl, fun _ => rfl, fun id => ?_, rfl⟩
    have hempty : ∀ route, s.routes.lookup key = some route → route.waiters = [] :=
      fun route hroute => (hroutes key route hroute).resolve_right fun hne => hne rfl
    simp only [punchTally, resumed, hwaiters, Phase.waiters_sweeping]
    rw [tableHeld_erase_route hempty]
  | next todo now => exact conserves_phase hwaiters rfl
  | close key todo now =>
    refine ⟨rfl, rfl, fun _ => rfl, fun id => ?_, rfl⟩
    have hempty : ∀ route, s.routes.lookup key = some route → route.waiters = [] :=
      fun route hroute => (hroutes key route hroute).resolve_right fun hne => hne rfl
    simp only [punchTally, resumed, closeSession, hwaiters, Phase.waiters_sweeping]
    rw [tableHeld_erase_route hempty]
  | stop todo =>
    refine ⟨rfl, rfl, fun _ => rfl, fun id => ?_, rfl⟩
    simp only [punchTally, resumed, closeSession, hwaiters, Phase.waiters_stopRoutes]

theorem Parked.resumed (hphase : s.phase = .resolving [] result session resume) :
    Parked (s.resumed session resume) := by
  cases resume with
  | erase key todo now | next todo now
  | close key todo now => exact h.working rfl rfl rfl fun _ => trivial
  | stop todo =>
    refine h.frame rfl rfl rfl rfl rfl rfl rfl (by rw [hphase]; rfl) ?_
    rw [hphase]
    exact fun _ _ _ hwait => hwait

/-- **No step of the thread, or of `Stop`, loses or doubles a callback.** -/
theorem conserves_advanced (hstep : Advanced ctx s now s') : Conserves s s' := by
  cases hstep with
  | exit hphase _ | sweep hphase | swept hphase
  | stoppedGathers hphase _
  | stoppedPunches hphase _ _
  | skipRoute hphase _ => exact conserves_phase (by rw [hphase]; rfl) rfl
  | drain hphase =>
    refine ⟨rfl, rfl, fun _ => rfl, fun id => ?_, rfl⟩
    simp only [punchTally, applyPendingRebind, hphase]
    rfl
  | takeGathers hphase =>
    refine ⟨rfl, rfl, fun id => ?_, fun id => ?_, rfl⟩
    · simp only [gatherTally, held_append, held_nil]
      omega
    · simp only [punchTally, hphase]
      rfl
  | gather hphase => exact conserves_tickGather (by rw [hphase]; rfl) _ _
  | matching hphase => exact conserves_matchPunch (by rw [hphase]; rfl) _ now
  | tick hphase hp => exact conserves_tickPunch (by rw [hphase]; rfl) hp _
  | route hphase => exact conserves_sweepRoute (by rw [hphase]; rfl) _ _ _
  | processed hphase => exact conserves_processed (by rw [hphase]; rfl) _ _ _
  | @resolved waiter waiters result session resume hphase =>
    refine ⟨rfl, rfl, fun _ => rfl, fun id => ?_, rfl⟩
    rw [punchTally_answerPunch]
    simp only [punchTally, hphase, Phase.waiters_resolving, Option.toList_some]
    rw [List.count_cons (l := waiters), List.count_singleton]
    omega
  | resumed hphase => exact conserves_resumed h hphase
  | takeAll hphase =>
    have hwaiters : s.phase.waiters = [] := by rw [hphase]; rfl
    refine ⟨rfl, rfl, fun id => ?_, fun id => ?_, rfl⟩
    · simp only [gatherTally, held_append, held_nil]
      omega
    · simp only [punchTally, held_append, held_nil, hwaiters, Phase.waiters_stopGathers]
      omega
  | stopGather hphase hgathers =>
    refine ⟨rfl, rfl, fun id => ?_, fun _ => rfl, rfl⟩
    rw [gatherTally_answerGather]
    simp only [gatherTally, hgathers, held_cons, Gathering.callbacks]
    omega
  | stopPunch hphase hpunches =>
    refine ⟨rfl, rfl, fun _ => rfl, fun id => ?_, rfl⟩
    rw [punchTally_answerPunch]
    simp only [punchTally, hpunches, held_cons, PunchInFlight.callbacks]
    omega
  | stopRoute hphase hroute => exact conserves_resolve (by rw [hphase]; rfl) hroute _ _
  | stopped hphase =>
    refine ⟨rfl, rfl, fun _ => rfl, fun id => ?_, rfl⟩
    have hroutes := h.routes
    rw [hphase] at hroutes
    -- the loop has been at every route
    have hzero : tableHeld Route.waiters s.routes id = 0 :=
      tableHeld_eq_zero _ _ fun key route hroute =>
        (hroutes key route hroute).resolve_right List.not_mem_nil
    simp only [punchTally, hphase, hzero]
    rfl

/-- Each stage of `Stop` empties one place, and nothing is put there again. -/
theorem parked_advanced (hstep : Advanced ctx s now s') : Parked s' := by
  cases hstep with
  | exit _ hrequested =>
    exact
      { requested := h.requested
        running := fun _ => h.requested hrequested
        handed := fun hlt => absurd hlt (Nat.lt_irrefl 1)
        gathers := fun hlt => absurd hlt (Nat.not_lt_of_le (by decide : 1 ≤ 2))
        punches := fun hlt => absurd hlt (Nat.not_lt_of_le (by decide : 1 ≤ 3))
        routes := fun _ _ _ => .inr trivial }
  | drain _ | takeGathers _ | sweep _ | swept _ => exact h.working rfl rfl rfl fun _ => trivial
  | gather hphase => exact h.tickGather hphase
  | matching hphase => exact h.matchPunch hphase now
  | tick hphase _ => exact h.tickPunch hphase _
  | route hphase => exact h.sweepRoute (by rw [hphase]; rfl)
  | processed hphase => exact h.processed (by rw [hphase]; rfl)
  | resolved hphase =>
    refine h.frame rfl rfl rfl rfl rfl rfl rfl ?_ ?_
    · rw [hphase]
      exact Phase.stage_resolving _ _ _ _ _
    · rw [hphase]
      intro key _ _ hwait
      exact (Phase.mayWait_resolving _ _ _ _ _ key).mp hwait
  | resumed hphase => exact h.resumed hphase
  | takeAll hphase =>
    exact
      { requested := h.requested
        running := fun _ => h.running (by rw [hphase]; decide)
        handed := fun _ => ⟨rfl, rfl⟩
        gathers := fun hlt => absurd hlt (Nat.lt_irrefl 2)
        punches := fun hlt => absurd hlt (Nat.not_lt_of_le (by decide : 2 ≤ 3))
        routes := fun _ _ _ => .inr trivial }
  | stopGather hphase _ =>
    have hstage : s.phase.stage = 2 := by rw [hphase]; rfl
    exact { h with gathers := fun hlt => absurd hlt (Nat.not_lt_of_le (Nat.le_of_eq hstage)) }
  | stoppedGathers hphase hempty =>
    exact
      { requested := h.requested
        running := fun _ => h.running (by rw [hphase]; decide)
        handed := fun _ => h.handed (by rw [hphase]; decide)
        gathers := fun _ => hempty
        punches := fun hlt => absurd hlt (Nat.lt_irrefl 3)
        routes := fun _ _ _ => .inr trivial }
  | stopPunch hphase _ =>
    have hstage : s.phase.stage = 3 := by rw [hphase]; rfl
    exact { h with punches := fun hlt => absurd hlt (Nat.not_lt_of_le (Nat.le_of_eq hstage)) }
  | stoppedPunches hphase hempty hperm =>
    refine
      { requested := h.requested
        running := fun _ => h.running (by rw [hphase]; decide)
        handed := fun _ => h.handed (by rw [hphase]; decide)
        gathers := fun _ => h.gathers (by rw [hphase]; decide)
        punches := fun _ => hempty
        routes := fun key route hroute => .inr ?_ }
    -- every route is on the way of the loop
    apply hperm.mem_iff.2
    exact AList.mem_keys.1 (AList.lookup_isSome.1 (Option.isSome_of_eq_some hroute))
  | skipRoute hphase hnone =>
    refine h.frame rfl rfl rfl rfl rfl rfl rfl (by rw [hphase]; rfl) ?_
    rw [hphase]
    intro k route hroute hmem
    apply (List.mem_cons.1 hmem).resolve_left
    rintro rfl
    exact absurd hroute (by rw [hnone]; exact nofun)
  | stopRoute hphase _ =>
    refine h.resolve (by rw [hphase]; rfl) ?_
    rw [hphase]
    intro k hne hmem
    exact (List.mem_cons.1 hmem).resolve_left hne
  | stopped hphase =>
    exact
      { requested := h.requested
        running := fun _ => h.running (by rw [hphase]; decide)
        handed := fun _ => h.handed (by rw [hphase]; decide)
        gathers := fun _ => h.gathers (by rw [hphase]; decide)
        punches := fun _ => h.punches (by rw [hphase]; decide)
        routes := fun key route hroute => absurd hroute (by rw [AList.lookup_empty]; exact nofun) }

end

/-! ## Requests -/

/-- Every callback that was passed is in one place, and no other is anywhere. -/
structure Accounted (s : Agent Probe) : Prop where
  gathers : ∀ id, s.gatherTally id = if id < s.gatherCalls then 1 else 0
  punches : ∀ id, s.punchTally id = if id < s.punchCalls then 1 else 0
  overwritten : s.overwritten = []

theorem Accounted.conserves (h : Accounted s) (hstep : Conserves s s') : Accounted s' where
  gathers id := by rw [hstep.gathers, hstep.gatherCalls, h.gathers]
  punches id := by rw [hstep.punches, hstep.punchCalls, h.punches]
  overwritten := by rw [hstep.overwritten, h.overwritten]

/-- The callback that is passed has the next number. -/
theorem count_numbered (callback : Bool) (calls id : Nat) :
    (if id < calls then 1 else 0) + (numbered callback calls).toList.count id =
      if id < calls + callback.toNat then 1 else 0 := by
  cases callback with
  | false => rfl
  | true =>
    simp only [numbered, if_true, Option.toList_some, List.count_singleton, beq_iff_eq,
      Bool.toNat_true]
    split_ifs <;> omega

theorem Accounted.gather (h : Accounted s) (probe : Probe) (callback : Bool) :
    Accounted (s.gather probe callback) := by
  rw [Agent.gather]
  split
  · refine { h with gathers := fun id => ?_ }
    rw [gatherTally_answerGather]
    exact (congrArg (· + _) (h.gathers id)).trans (count_numbered callback s.gatherCalls id)
  · refine { h with gathers := fun id => ?_ }
    have htally := h.gathers id
    simp only [gatherTally] at htally
    simp only [gatherTally, held_append, held_cons, held_nil, Gathering.callbacks]
    rw [← count_numbered callback, ← htally]
    omega

theorem Accounted.answerPunch (h : Accounted s) (callback : Bool) (result : Result) :
    Accounted ({ s with punchCalls := s.punchCalls + callback.toNat }.answerPunch
      (numbered callback s.punchCalls) result none) := by
  refine { h with punches := fun id => ?_ }
  rw [punchTally_answerPunch]
  exact (congrArg (· + _) (h.punches id)).trans (count_numbered callback s.punchCalls id)

theorem Accounted.punch (h : Accounted s) (offer : PunchOffer) (callback : Bool) (now : Int)
    (guid : BitVec 64) : Accounted (s.punch ctx offer callback now guid) := by
  rw [Agent.punch]
  split
  · exact h.answerPunch callback _
  · split
    · exact h.answerPunch callback _
    · refine { h with punches := fun id => ?_ }
      have htally := h.punches id
      simp only [punchTally] at htally
      simp only [punchTally, held_append, held_cons, held_nil, PunchInFlight.callbacks]
      rw [← count_numbered callback, ← htally]
      omega

/-- While the agent runs it is not stopping. -/
theorem Parked.not_stopping (h : Parked s) (hrunning : ¬ (!s.running) = true) :
    ¬ 0 < s.phase.stage :=
  fun hpos => hrunning (by rw [h.running hpos]; rfl)

/-- Once the agent does not run, nothing is handed over. -/
theorem Parked.gather (h : Parked s) (probe : Probe) (callback : Bool) :
    Parked (s.gather probe callback) := by
  rw [Agent.gather]
  split
  · exact h.frame rfl rfl rfl rfl rfl rfl rfl rfl fun _ _ _ hwait => hwait
  next hrunning =>
    exact { h with
      handed := fun hlt => absurd (Nat.lt_of_succ_lt hlt) (h.not_stopping hrunning) }

theorem Parked.punch (h : Parked s) (offer : PunchOffer) (callback : Bool) (now : Int)
    (guid : BitVec 64) : Parked (s.punch ctx offer callback now guid) := by
  rw [Agent.punch]
  split
  · exact h.frame rfl rfl rfl rfl rfl rfl rfl rfl fun _ _ _ hwait => hwait
  · split
    · exact h.frame rfl rfl rfl rfl rfl rfl rfl rfl fun _ _ _ hwait => hwait
    next hrunning =>
      exact { h with
        handed := fun hlt => absurd (Nat.lt_of_succ_lt hlt) (h.not_stopping hrunning) }

/-! ## Runs -/

/-- **What holds of every run**: every callback is in one place, and what has been emptied is so. -/
structure Kept (s : Agent Probe) : Prop where
  accounted : Accounted s
  parked : Parked s

theorem kept_initial : Kept ({} : Agent Probe) where
  accounted := ⟨fun _ => rfl, fun _ => rfl, rfl⟩
  parked :=
    { requested := nofun
      running := fun _ => rfl
      handed := fun _ => ⟨rfl, rfl⟩
      gathers := fun _ => rfl
      punches := fun _ => rfl
      routes := fun key route hroute => absurd hroute (by rw [AList.lookup_empty]; exact nofun) }

theorem kept_of_step {e : AgentEvent Probe} (h : Kept s) (hstep : (agent ctx).step s e = some s') :
    Kept s' := by
  obtain ⟨haccounted, hparked⟩ := h
  cases e with
  | start socket =>
    obtain ⟨⟨hphase, -⟩, hnext⟩ := Option.ite_none_right_eq_some.1 hstep
    cases hnext
    refine ⟨haccounted.conserves ⟨rfl, rfl, fun _ => rfl, fun id => ?_, rfl⟩, ?_⟩
    · simp only [punchTally, hphase]
      rfl
    · exact
        { requested := nofun
          running := fun hlt => absurd hlt (Nat.lt_irrefl 0)
          handed := fun hlt => absurd hlt (Nat.not_lt_zero 1)
          gathers := fun hlt => absurd hlt (Nat.not_lt_zero 2)
          punches := fun hlt => absurd hlt (Nat.not_lt_zero 3)
          routes := fun _ _ _ => .inr trivial }
  | stop =>
    cases hstep
    exact ⟨haccounted.conserves ⟨rfl, rfl, fun _ => rfl, fun _ => rfl, rfl⟩,
      { hparked with requested := fun _ => rfl, running := fun _ => rfl }⟩
  | requestStop =>
    obtain ⟨⟨-, hrunning⟩, hnext⟩ := Option.ite_none_right_eq_some.1 hstep
    cases hnext
    exact ⟨haccounted.conserves ⟨rfl, rfl, fun _ => rfl, fun _ => rfl, rfl⟩,
      { hparked with requested := fun _ => hrunning }⟩
  | rebind socket =>
    cases hstep
    rw [Agent.rebind]
    split
    · exact ⟨haccounted, hparked⟩
    · exact ⟨haccounted.conserves ⟨rfl, rfl, fun _ => rfl, fun _ => rfl, rfl⟩,
        hparked.frame rfl rfl rfl rfl rfl rfl rfl rfl fun _ _ _ hwait => hwait⟩
  | gather probe callback =>
    cases hstep
    exact ⟨haccounted.gather probe callback, hparked.gather probe callback⟩
  | punch offer callback now guid =>
    cases hstep
    exact ⟨haccounted.punch offer callback now guid, hparked.punch offer callback now guid⟩
  | close session =>
    cases hstep
    exact ⟨haccounted.conserves ⟨rfl, rfl, fun _ => rfl, fun _ => rfl, rfl⟩,
      hparked.frame rfl rfl rfl rfl rfl rfl rfl rfl fun _ _ _ hwait => hwait⟩
  | ready =>
    obtain ⟨sessions, rfl⟩ := becomesReady_eq_some hstep
    exact ⟨haccounted.conserves ⟨rfl, rfl, fun _ => rfl, fun _ => rfl, rfl⟩,
      hparked.frame rfl rfl rfl rfl rfl rfl rfl rfl fun _ _ _ hwait => hwait⟩
  | datagram source raw now verified found =>
    obtain ⟨hphase, hnext⟩ := Option.ite_none_right_eq_some.1 hstep
    cases hnext
    have harrived := arrived_onArrival ctx s source raw now verified found
    refine ⟨haccounted.conserves (conserves_arrived harrived), ?_⟩
    obtain ⟨hrunning, hrequested, hsame⟩ := harrived.frame
    refine hparked.working hrunning hrequested ?_ ?_
    · rw [hsame, hphase]
      rfl
    · rw [hsame, hphase]
      exact fun _ => trivial
  | advance now order =>
    have hadvanced : Advanced ctx s now s' := advanced_of_advance hstep
    exact ⟨haccounted.conserves (conserves_advanced hparked hadvanced),
      parked_advanced hparked hadvanced⟩

end Agent

open Agent

/-- **Every request is answered once.**  Whatever is asked of an agent, from whichever thread or
callback, and whatever arrives, dies or moves: when `Stop` has returned, the callback of each
`Gather` and each `Punch` has been invoked exactly once; and a route never takes the place of
another. -/
theorem answered_once {Probe : Type} (ctx : AgentContext Probe) {es : List (AgentEvent Probe)}
    {s : Agent Probe} (hrun : (agent ctx).exec {} es = some s) :
    (s.phase = .stopped →
      (∀ id < s.gatherCalls, (s.gathered.map Prod.fst).count id = 1) ∧
      (∀ id < s.punchCalls, (s.punched.map (·.id)).count id = 1)) ∧
    s.overwritten = [] := by
  have hkept : Kept s :=
    (agent ctx).exec_invariant (I := Kept) (fun _ _ _ h hstep => kept_of_step h hstep) hrun
      kept_initial
  obtain ⟨haccounted, hparked⟩ := hkept
  refine ⟨fun hphase => ?_, haccounted.overwritten⟩
  have hstage : s.phase.stage = 5 := by rw [hphase]; rfl
  obtain ⟨hpending, hpendingGathers⟩ := hparked.handed (by omega)
  have hgathers := hparked.gathers (by omega)
  have hpunches := hparked.punches (by omega)
  constructor
  · intro id hid
    have htally := haccounted.gathers id
    rw [gatherTally, hpendingGathers, hgathers, if_pos hid] at htally
    rw [List.map_eq_flatMap]
    simpa [held] using htally
  · intro id hid
    have htally := haccounted.punches id
    have hwaiting : tableHeld Route.waiters s.routes id = 0 := by
      apply tableHeld_eq_zero
      intro key route hroute
      have hroutes := hparked.routes key route hroute
      rw [hphase] at hroutes
      exact hroutes.resolve_right fun hwait => hwait
    rw [punchTally, hpending, hpunches, hwaiting, hphase, if_pos hid] at htally
    rw [List.map_eq_flatMap]
    simpa [held, Phase.waiters] using htally

/-- A gather that waits and a punch that has become a session, as the agent is stopped. -/
def sampleStop : List (AgentEvent Unit) :=
  [.start 1, .gather () true, .punch sampleOffer true 0 7] ++ List.replicate 10 (.advance 0 []) ++
    [sampleReply, .stop, .requestStop] ++ List.replicate 17 (.advance 0 [sampleKey])

/-- Both are told. -/
theorem answered_once_stopped :
    ∃ s, (agent sampleContext).exec {} sampleStop = some s ∧ s.phase = .stopped ∧
      0 < s.gatherCalls ∧ (s.gathered.map Prod.fst).count 0 = 1 ∧
      0 < s.punchCalls ∧ (s.punched.map (·.id)).count 0 = 1 := by
  apply Machine.exists_exec (P := fun s => s.phase = .stopped ∧ 0 < s.gatherCalls ∧
    0 < s.punchCalls)
    (by decide +kernel)
  rintro s hs ⟨hphase, hgather, hpunch⟩
  obtain ⟨hanswered, -⟩ := answered_once sampleContext hs
  obtain ⟨hgathered, hpunched⟩ := hanswered hphase
  exact ⟨hphase, hgather, hgathered 0 hgather, hpunch, hpunched 0 hpunch⟩

end P2p
end Znet

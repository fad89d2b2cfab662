import Znet.P2p.Agent

/-!
# Sessions that a punch is answered with

`TickPunches` and `ResolveWaiters` look at whether a session is ready, never at whether it has
closed since; a session stays ready when it closes, and its route stays until the next sweep.  So a
punch may be answered with a session that is dead already, and a punch toward a peer that is gone
may be given the old session, or wait for it, instead of punching again.

* `success_usable` — **every success comes with a session that is ready and alive**, and a punch
  that finds no live session goes on punching, in the runs in which no session closes while it is
  handed out (`undisturbed`).
-/

namespace Znet
namespace P2p

open Zdt

namespace Agent

variable {Probe : Type} {ctx : AgentContext Probe} {s s' : Agent Probe}

/-! ## The condition -/

/-- No session closes between being found ready and being handed out to the last of those that wait,
and the session that a punch is matched with has not closed. -/
def undisturbed (ctx : AgentContext Probe) (s : Agent Probe) : AgentEvent Probe → Bool
  | .close session =>
    match s.phase with
    | .processing key _ _ =>
      (s.routes.lookup key).all fun route =>
        decide (route.session ≠ session) || route.waiters.isEmpty || !s.isReady session
    | .resolving waiters result handed _ =>
      waiters.isEmpty || decide (result ≠ .success) || decide (handed ≠ session)
    | _ => true
  | .advance _ _ =>
    match s.phase with
    | .matching i =>
      (s.punches[i]?).all fun p =>
        (s.existing ctx p.machine.offer.candidates).all fun found => s.alive found.2.session
    | _ => true
  | _ => true

/-! ## Sessions -/

theorem isReady_closeSession (s : Agent Probe) (session n : Nat) :
    (s.closeSession session).isReady n = s.isReady n := by
  simp only [isReady, closeSession, List.getElem?_modify, Option.map_eq_map]
  cases s.sessions[n]? with
  | none => rfl
  | some x =>
    simp only [Option.map_some]
    split <;> rfl

variable {session i : Nat} {result : Result} {now : Int} {order : List Key}

theorem alive_closeSession {n : Nat} (h : session ≠ n) :
    (s.closeSession session).alive n = s.alive n := by
  simp only [alive, closeSession, List.getElem?_modify, if_neg h, Option.map_eq_map, Option.map_id']

/-! ## Answers -/

/-- Every success came with a session that was ready and alive. -/
def Answers (s : Agent Probe) : Prop :=
  ∀ answer ∈ s.punched, answer.result = .success →
    (∃ session, answer.session = some session) ∧ answer.ready = true ∧ answer.alive = true

theorem Answers.answerPunch (h : Answers s) (callback : Option Nat) {session : Option Nat}
    (hsuccess : result = .success → ∃ n, session = some n ∧ s.isReady n = true ∧ s.alive n = true) :
    Answers (s.answerPunch callback result session) := by
  intro answer hmem
  rcases List.mem_append.1 hmem with hnew | hold
  · obtain ⟨id, -, rfl⟩ := List.mem_map.1 hnew
    intro hresult
    obtain ⟨n, rfl, hready, halive⟩ := hsuccess hresult
    exact ⟨⟨n, rfl⟩, hready, halive⟩
  · exact h answer hold

/-- A failure says nothing of a session. -/
theorem Answers.fail (h : Answers s) (callback : Option Nat) (hfail : result ≠ .success)
    (session : Option Nat) :
    Answers (s.answerPunch callback result session) :=
  h.answerPunch callback fun hsuccess => absurd hsuccess hfail

/-- A punch that fails has a reason. -/
theorem tick_failed {m : ZDTPunch} {reason : Result} (h : (m.tick now).outcome = .failed reason) :
    reason ≠ .success := by
  revert h
  rw [ZDTPunch.tick]
  split
  · rintro ⟨⟩
    exact nofun
  · exact nofun

theorem Answers.arrived (h : Answers s) {source : InetAddress}
    (harrived : Arrived ctx s source now s') : Answers s' := by
  cases harrived with
  | nothing | gather i f hkeeps => exact h
  | @punch i p channel data hp hfresh =>
    rcases onDatagram_outcome p.machine source channel data with hpending | ⟨first, hdone⟩ | hfailed
    · rw [conclude_pending hpending]
      exact h
    · rw [conclude_completed hdone]
      exact h
    · rw [conclude_failed hfailed]
      have hfail : Result.incompatibleVersion ≠ .success := nofun
      exact Answers.fail (s := { s with punches := _ }) h _ hfail _
  | migrated hroute hne hfresh => exact h

/-! ## While a session is handed out -/

/-- What the thread relies on: a session that was found ready is alive as long as it is to be handed
out. -/
def Serving (s : Agent Probe) : Prop :=
  match s.phase with
  | .processing key _ _ =>
    ∀ route, s.routes.lookup key = some route → route.waiters ≠ [] →
      s.isReady route.session = true → s.alive route.session = true
  | .resolving waiters result session _ =>
    result = .success → s.isReady session = true ∧ (waiters ≠ [] → s.alive session = true)
  | _ => True

/-- The phase, the routes and the sessions stay as they are. -/
theorem Serving.frame (h : Serving s) (hphase : s'.phase = s.phase) (hroutes : s'.routes = s.routes)
    (hsessions : s'.sessions = s.sessions) : Serving s' := by
  have hready : s'.isReady = s.isReady := by
    funext n
    rw [isReady, hsessions, isReady]
  have halive : s'.alive = s.alive := by
    funext n
    rw [alive, hsessions, alive]
  rw [Serving, hphase, hroutes, hready, halive]
  exact h

/-- A session closes that is not being handed out. -/
theorem Serving.closeSession (h : Serving s) (hguard : undisturbed ctx s (.close session) = true) :
    Serving (s.closeSession session) := by
  rw [Serving] at h ⊢
  rw [undisturbed] at hguard
  have hphase : (s.closeSession session).phase = s.phase := rfl
  rw [hphase]
  split
  next key _ _ hprocessing =>
    simp only [hprocessing] at h hguard
    intro route hroute hwaiters hready
    have hlookup : s.routes.lookup key = some route := hroute
    rw [isReady_closeSession] at hready
    rw [hlookup, Option.all_some] at hguard
    have hne : session ≠ route.session := by
      rintro rfl
      simp [hwaiters, hready] at hguard
    rw [alive_closeSession hne]
    exact h route hlookup hwaiters hready
  next waiters result handed _ hresolving =>
    simp only [hresolving] at h hguard
    intro hresult
    obtain ⟨hready, halive⟩ := h hresult
    refine ⟨by rw [isReady_closeSession, hready], fun hwaiters => ?_⟩
    have hne : session ≠ handed := by
      rintro rfl
      simp [hwaiters, hresult] at hguard
    rw [alive_closeSession hne]
    exact halive hwaiters
  next => trivial

/-- A session becomes ready only while it is alive. -/
theorem Serving.becomesReady (h : s.becomesReady = some s') : Serving s' := by
  rw [Agent.becomesReady] at h
  split at h
  next key todo now hprocessing =>
    obtain ⟨route, hroute, hnext⟩ := Option.bind_eq_some_iff.1 h
    obtain ⟨halive, heq⟩ := Option.ite_none_right_eq_some.1 hnext
    cases heq
    simp only [Serving, hprocessing]
    intro route' hroute' _ _
    obtain rfl : route = route' := Option.some.inj (hroute.symm.trans hroute')
    simp only [alive, List.getElem?_modify, Option.map_eq_map] at halive ⊢
    cases hsession : s.sessions[route.session]? with
    | none => simp [hsession] at halive
    | some x => simpa [hsession] using halive
  next => cases h

/-- **What holds of every undisturbed run.** -/
structure Usable (s : Agent Probe) : Prop where
  answers : Answers s
  serving : Serving s

section

variable (h : Usable s)
include h

theorem Usable.tickGather (i : Nat) (now : Int) : Usable (s.tickGather ctx i now) := by
  rw [Agent.tickGather]
  split
  · exact ⟨h.answers, trivial⟩
  · dsimp only
    split
    · exact ⟨h.answers, h.serving.frame rfl rfl rfl⟩
    · exact ⟨h.answers, trivial⟩

/-- A punch is matched with a session that has not closed. -/
theorem Usable.matchPunch (hphase : s.phase = .matching i) (now : Int)
    (hguard : undisturbed ctx s (.advance now order) = true) :
    Usable (s.matchPunch ctx i now) := by
  simp only [undisturbed, hphase] at hguard
  rw [Agent.matchPunch]
  split
  · exact ⟨h.answers, trivial⟩
  next p hp =>
    split
    · exact ⟨h.answers, trivial⟩
    next key route hexisting =>
      rw [hp, Option.all_some, hexisting, Option.all_some] at hguard
      dsimp only
      split
      next hready =>
        refine ⟨Answers.answerPunch (s := { s with punches := _ }) h.answers _ ?_,
          h.serving.frame rfl rfl rfl⟩
        exact fun _ => ⟨route.session, rfl, hready, hguard⟩
      next =>
        refine ⟨h.answers, ?_⟩
        rw [Serving]
        simp only [hphase]

theorem Usable.tickPunch (p : PunchInFlight) : Usable (s.tickPunch i now p) := by
  rw [Agent.tickPunch]
  split
  next hfailed =>
    exact ⟨Answers.fail (s := { s with punches := _ }) h.answers _ (tick_failed hfailed) _,
      h.serving.frame rfl rfl rfl⟩
  next => exact ⟨h.answers, trivial⟩

theorem Usable.sweepRoute (key : Key) (todo : List Key) (now : Int) :
    Usable (s.sweepRoute key todo now) := by
  rw [Agent.sweepRoute]
  split
  · exact ⟨h.answers, trivial⟩
  next route hroute =>
    split
    · exact ⟨h.answers, nofun⟩
    next halive =>
      have hkept : s.alive route.session = true := by simpa using halive
      refine ⟨h.answers, fun route' hroute' _ _ => ?_⟩
      obtain rfl : route = route' := Option.some.inj (hroute.symm.trans hroute')
      exact hkept

theorem Usable.processed {key : Key} {todo : List Key}
    (hphase : s.phase = .processing key todo now) : Usable (s.processed key todo now) := by
  have hserving := h.serving
  simp only [Serving, hphase] at hserving
  rw [Agent.processed]
  split
  · exact ⟨h.answers, trivial⟩
  next route hroute =>
    split
    · exact ⟨h.answers, trivial⟩
    next hwaiters =>
      split
      next hready =>
        refine ⟨h.answers, fun _ => ⟨hready, fun _ => ?_⟩⟩
        exact hserving route hroute hwaiters hready
      next =>
        split
        · exact ⟨h.answers, nofun⟩
        · exact ⟨h.answers, trivial⟩

theorem Usable.resumed (session : Nat) (resume : Resume) : Usable (s.resumed session resume) := by
  cases resume <;> exact ⟨h.answers, trivial⟩

/-- The next of those that wait is given the session, which is still alive. -/
theorem Usable.resolveNext {waiter : Nat} {waiters : List Nat} {resume : Resume}
    (hphase : s.phase = .resolving (waiter :: waiters) result session resume) :
    Usable ({ s with phase := .resolving waiters result session resume }.answerPunch (some waiter)
      result (if result = Result.success then some session else none)) := by
  have hserving := h.serving
  simp only [Serving, hphase] at hserving
  constructor
  · apply Answers.answerPunch (s := { s with phase := _ }) h.answers
    intro hresult
    obtain ⟨hready, halive⟩ := hserving hresult
    exact ⟨session, if_pos hresult, hready, halive (List.cons_ne_nil waiter waiters)⟩
  · intro hresult
    obtain ⟨hready, halive⟩ := hserving hresult
    exact ⟨hready, fun _ => halive (List.cons_ne_nil waiter waiters)⟩

theorem usable_advanced (hguard : undisturbed ctx s (.advance now order) = true)
    (hstep : Advanced ctx s now s') :
    Usable s' := by
  have hfail : Result.alreadyStopped ≠ .success := nofun
  cases hstep with
  | exit _ _ | drain _ | takeGathers _ => exact ⟨h.answers, trivial⟩
  | gather _ => exact h.tickGather _ _
  | matching hphase => exact h.matchPunch hphase now hguard
  | tick _ _ => exact h.tickPunch _
  | sweep _ | swept _ => exact ⟨h.answers, trivial⟩
  | route _ => exact h.sweepRoute _ _ _
  | processed hphase => exact h.processed hphase
  | resolved hphase => exact h.resolveNext hphase
  | resumed _ => exact h.resumed _ _
  | takeAll _ => exact ⟨h.answers, trivial⟩
  | stopGather _ _ => exact ⟨h.answers, h.serving.frame rfl rfl rfl⟩
  | stoppedGathers _ _ => exact ⟨h.answers, trivial⟩
  | stopPunch _ _ =>
    exact ⟨Answers.fail (s := { s with punches := _ }) h.answers _ hfail _,
      h.serving.frame rfl rfl rfl⟩
  | stoppedPunches _ _ _ | skipRoute _ _ => exact ⟨h.answers, trivial⟩
  | stopRoute _ _ => exact ⟨h.answers, nofun⟩
  | stopped _ => exact ⟨h.answers, trivial⟩

theorem Usable.punch (offer : PunchOffer) (callback : Bool) (now : Int)
    (guid : BitVec 64) : Usable (s.punch ctx offer callback now guid) := by
  rw [Agent.punch]
  split
  next hrefused =>
    exact ⟨Answers.fail (s := { s with punchCalls := _ }) h.answers _ hrefused _,
      h.serving.frame rfl rfl rfl⟩
  next =>
    split
    · have hfail : Result.alreadyStopped ≠ .success := nofun
      exact ⟨Answers.fail (s := { s with punchCalls := _ }) h.answers _ hfail _,
        h.serving.frame rfl rfl rfl⟩
    · exact ⟨h.answers, h.serving.frame rfl rfl rfl⟩

theorem Usable.gather (probe : Probe) (callback : Bool) : Usable (s.gather probe callback) := by
  rw [Agent.gather]
  split <;> exact ⟨h.answers, h.serving.frame rfl rfl rfl⟩

/-- What arrives does not concern a phase in which a session is handed out. -/
theorem Usable.onArrival (hphase : s.phase = .draining) (source : InetAddress)
    (raw : List UInt8) (now : Int) (verified : Bool) (found : Key) :
    Usable (s.onArrival ctx source raw now verified found) := by
  have harrived := arrived_onArrival ctx s source raw now verified found
  refine ⟨h.answers.arrived harrived, ?_⟩
  obtain ⟨-, -, hsame⟩ := harrived.frame
  simp only [Serving, hsame, hphase]

end

theorem usable_of_step {e : AgentEvent Probe} (h : Usable s) (hguard : undisturbed ctx s e = true)
    (hstep : (agent ctx).step s e = some s') : Usable s' := by
  cases e with
  | start socket =>
    obtain ⟨-, hnext⟩ := Option.ite_none_right_eq_some.1 hstep
    cases hnext
    exact ⟨h.answers, trivial⟩
  | stop =>
    cases hstep
    exact ⟨h.answers, h.serving.frame rfl rfl rfl⟩
  | requestStop =>
    obtain ⟨-, hnext⟩ := Option.ite_none_right_eq_some.1 hstep
    cases hnext
    exact ⟨h.answers, h.serving.frame rfl rfl rfl⟩
  | rebind socket =>
    cases hstep
    rw [Agent.rebind]
    split
    · exact h
    · exact ⟨h.answers, h.serving.frame rfl rfl rfl⟩
  | gather probe callback =>
    cases hstep
    exact h.gather probe callback
  | punch offer callback now guid =>
    cases hstep
    exact h.punch offer callback now guid
  | close session =>
    cases hstep
    exact ⟨h.answers, h.serving.closeSession hguard⟩
  | ready =>
    have hserving : Serving s' := Serving.becomesReady hstep
    obtain ⟨sessions, rfl⟩ := becomesReady_eq_some hstep
    exact ⟨h.answers, hserving⟩
  | datagram source raw now verified found =>
    obtain ⟨hphase, hnext⟩ := Option.ite_none_right_eq_some.1 hstep
    cases hnext
    exact h.onArrival hphase source raw now verified found
  | advance now order => exact usable_advanced h hguard (advanced_of_advance hstep)

/-- No public candidate leads to a session that is alive. -/
def Gone (ctx : AgentContext Probe) (s : Agent Probe) (candidates : List Candidate) : Prop :=
  ∀ candidate ∈ candidates, candidate.type = .reflexive → ∀ address route,
    candidate.address = some address → s.routes.lookup (ctx.routeKey address 0) = some route →
      s.alive route.session = false

/-- A punch that finds no live session goes on. -/
theorem punches_again {p : PunchInFlight} (hphase : s.phase = .matching i)
    (hp : s.punches[i]? = some p) (hgone : Gone ctx s p.machine.offer.candidates)
    (hguard : undisturbed ctx s (.advance now order) = true)
    (hstep : (agent ctx).step s (.advance now order) = some s') :
    s'.punches = s.punches ∧ s'.phase = .matching (i + 1) := by
  simp only [undisturbed, hphase] at hguard
  rw [hp, Option.all_some] at hguard
  have hnone : s.existing ctx p.machine.offer.candidates = none := by
    cases hexisting : s.existing ctx p.machine.offer.candidates with
    | none => rfl
    | some found =>
      obtain ⟨key, route⟩ := found
      rw [hexisting, Option.all_some] at hguard
      obtain ⟨candidate, hmem, htype, address, haddress, rfl, hlookup⟩ := existing_eq_some hexisting
      rw [hgone candidate hmem htype address route haddress hlookup] at hguard
      cases hguard
  have hnext : s.advance ctx now order = some s' := hstep
  simp only [advance, hphase, matchPunch, hp, hnone] at hnext
  cases hnext
  exact ⟨rfl, rfl⟩

end Agent

open Agent

/-- **A successful punch yields a usable session**, in every run in which no session closes while it
is being handed out and no punch is matched with a session that has closed: the session is there,
ready and alive when the callback is invoked, and a punch toward a peer without a live session goes
on punching. -/
theorem success_usable {Probe : Type} (ctx : AgentContext Probe) {es : List (AgentEvent Probe)}
    {s : Agent Probe}
    (hrun : GuardedRun (agent ctx) (fun s e => undisturbed ctx s e = true) {} es s) :
    (∀ answer ∈ s.punched, answer.result = .success →
      (∃ session, answer.session = some session) ∧ answer.ready = true ∧ answer.alive = true) ∧
    (∀ i p now order s', s.phase = .matching i → s.punches[i]? = some p →
      Gone ctx s p.machine.offer.candidates → undisturbed ctx s (.advance now order) = true →
      (agent ctx).step s (.advance now order) = some s' →
      s'.punches = s.punches ∧ s'.phase = .matching (i + 1)) := by
  have husable : Usable s :=
    hrun.invariant (I := Usable) (fun _ _ _ h hguard hstep => usable_of_step h hguard hstep)
      ⟨fun _ hmem => absurd hmem List.not_mem_nil, trivial⟩
  refine ⟨husable.answers, ?_⟩
  intro i p now order s' hphase hp hgone hguard hstep
  exact punches_again hphase hp hgone hguard hstep

/-- A punch becomes a session, which becomes ready and is handed out. -/
def sampleSuccess : List (AgentEvent Unit) :=
  [.start 1, .punch sampleOffer true 0 7] ++ List.replicate 9 (.advance 0 []) ++ [sampleReply] ++
    List.replicate 5 (.advance 0 [sampleKey]) ++ [.ready] ++ List.replicate 3 (.advance 0 [])

/-- It closes and is swept, and the same peer is punched again, up to where the punch looks for a
session that is there already. -/
def sampleAgain : List (AgentEvent Unit) :=
  sampleSuccess ++ [.close 0] ++ List.replicate 9 (.advance 0 [sampleKey]) ++
    [.punch sampleOffer true 0 9] ++ List.replicate 3 (.advance 0 [])

/-- The first punch was answered with a session that was ready and alive; the second goes on. -/
theorem success_usable_again :
    ∃ s, GuardedRun (agent sampleContext) (fun s e => undisturbed sampleContext s e = true) {}
        sampleAgain s ∧ s.alive 0 = false ∧
      (∃ answer ∈ s.punched, answer.result = .success ∧ answer.ready = true ∧
        answer.alive = true) ∧
      ∃ s', (agent sampleContext).step s (.advance 0 []) = some s' ∧ s'.punches = s.punches ∧
        s'.phase = .matching 1 := by
  apply GuardedRun.exists_run (P := fun s => s.alive 0 = false ∧
    Result.success ∈ s.punched.map (·.result) ∧ s.phase = .matching 0 ∧ s.punches.length = 1 ∧
    s.routes.keys = [] ∧ undisturbed sampleContext s (.advance 0 []) = true ∧
    ((agent sampleContext).step s (.advance 0 [])).isSome = true) (by decide +kernel)
  rintro s hrun ⟨hdead, hsuccess, hphase, hlength, hkeys, hguard, hstep⟩
  obtain ⟨hsuccesses, hagain⟩ := success_usable sampleContext hrun
  obtain ⟨answer, hanswer, hresult⟩ := List.mem_map.1 hsuccess
  obtain ⟨-, hready, halive⟩ := hsuccesses answer hanswer hresult
  obtain ⟨p, hp⟩ := List.length_eq_one_iff.1 hlength
  obtain ⟨s', hs'⟩ := Option.isSome_iff_exists.1 hstep
  have hgone : Gone sampleContext s p.machine.offer.candidates := by
    intro candidate _ _ address route _ hroute
    have hmem := AList.mem_keys.1 (AList.lookup_isSome.1 (Option.isSome_of_eq_some hroute))
    rw [hkeys] at hmem
    cases hmem
  obtain ⟨hpunches, hnext⟩ := hagain 0 p 0 [] s' hphase (by rw [hp]; rfl) hgone hguard hs'
  exact ⟨hdead, ⟨answer, hanswer, hresult, hready, halive⟩, s', hs', hpunches, hnext⟩

/-- It closes, and the same peer is punched again. -/
def sampleDead : List (AgentEvent Unit) :=
  sampleSuccess ++ [.close 0, .punch sampleOffer true 0 9] ++ List.replicate 5 (.advance 0 [])

/-- **A punch is answered with a session that has closed.** -/
theorem success_with_dead_session :
    ∃ s answer, (agent sampleContext).exec {} sampleDead = some s ∧ answer ∈ s.punched ∧
      answer.result = .success ∧ answer.session = some 0 ∧ answer.alive = false ∧
      s.punches.length = 0 := by
  have hexec : ((agent sampleContext).exec {} sampleDead).map
      (fun s => (s.punched.head?, s.punches.length)) =
        some (some ⟨1, .success, some 0, true, false⟩, 0) := by
    decide +kernel
  obtain ⟨s, hs, hfacts⟩ := Option.map_eq_some_iff.1 hexec
  obtain ⟨hhead, hpunches⟩ := Prod.mk.inj hfacts
  exact ⟨s, _, hs, List.mem_of_mem_head? hhead, rfl, rfl, rfl, hpunches⟩

end P2p
end Znet

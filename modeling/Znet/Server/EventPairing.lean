import Znet.Server.SessionLife

/-!
# Connect and disconnect events are paired

What the application hears of one session is a prefix of *connected, disconnected*, in every
interleaving.  A worker that leaves its loop closes the sessions it has and says nothing, so the
second event is missing at the end exactly for those.

* `events_paired_iff` — **at the end of the shutdown every session that was announced was also taken
  leave of, exactly if every worker had no session when it left its loop**; the other two parts hold
  in every run.
-/

namespace Znet
namespace Server

section Steps

variable {s s' : State}

/-! ## The workers -/

/-- A worker that has left its loop has no session. -/
structure Orderly (s : State) : Prop where
  stopped : ∀ data ∈ s.tasks, data.running = false → data.sessions = [] ∧ s.main = .clearing
  closed : s.shutdownComplete = true → s.main = .done ∧ s.tasks = []

theorem Orderly.kept (h : Orderly s) (hk : Kept s s') : Orderly s' := by
  constructor
  · rw [hk.tasks, hk.main]
    exact h.stopped
  · rw [hk.shutdownComplete, hk.main, hk.tasks]
    exact h.closed

/-- The acceptor goes on to another place while no worker has left. -/
theorem Orderly.turn (h : Orderly s) (hclearing : s.main ≠ .clearing) (hdone : s.main ≠ .done)
    (main : MainPc) : Orderly { s with main := main } :=
  ⟨fun data hdata hstopped => absurd (h.stopped data hdata hstopped).2 hclearing,
    fun hcomplete => absurd (h.closed hcomplete).1 hdone⟩

theorem lt_of_isRunning {w : Nat} (h : s.isRunning w = true) : w < s.tasks.length := by
  unfold State.isRunning at h
  by_contra hge
  rw [List.getElem?_eq_none (Nat.not_lt.1 hge)] at h
  cases h

theorem Orderly.workerTick (h : Orderly s) (env : Surroundings) {w : Nat}
    (hw : s.isRunning w = true) : Orderly (s.workerTick env w) := by
  have hk := kept_cleanup env s (s.sessionsOf w)
  have hlt := lt_of_isRunning hw
  refine ⟨fun data hdata hstopped => ?_, fun hcomplete => ?_⟩
  · rcases List.mem_or_eq_of_mem_set hdata with hold | rfl
    · exact (h.kept hk).stopped data hold hstopped
    · cases hstopped
  · have htasks := ((h.kept hk).closed hcomplete).2
    rw [← hk.tasks, htasks] at hlt
    exact absurd hlt (Nat.not_lt_zero w)

theorem Orderly.workerExit (h : Orderly s) (hmain : s.main = .clearing) (w : Nat) :
    Orderly (s.workerExit w) := by
  have hk : Kept s ((s.sessionsOf w).foldl State.close s) := Kept.foldl (fun _ _ => {}) _ s
  have hclearing : (s.workerExit w).main = .clearing := hk.main.trans hmain
  refine ⟨fun data hdata hstopped => ?_, fun hcomplete => ?_⟩
  · rcases List.mem_or_eq_of_mem_set hdata with hold | rfl
    · exact (h.kept hk).stopped data hold hstopped
    · exact ⟨rfl, hclearing⟩
  · have hdone := ((h.kept hk).closed hcomplete).1
    rw [hk.main, hmain] at hdone
    cases hdone

/-- What `ProcessSessions` does to the workers: it only gives them sessions. -/
structure Steady (s s' : State) : Prop where
  running : s'.tasks.map TaskData.running = s.tasks.map TaskData.running
  main : s'.main = s.main
  shutdownComplete : s'.shutdownComplete = s.shutdownComplete

theorem Kept.steady (h : Kept s s') : Steady s s' :=
  { h with running := congrArg _ h.tasks }

theorem Steady.trans {t : State} (h : Steady s t) (h' : Steady t s') : Steady s s' :=
  ⟨h'.running.trans h.running, h'.main.trans h.main, h'.shutdownComplete.trans h.shutdownComplete⟩

theorem running_modify (tasks : List TaskData) (w id : Nat) :
    (tasks.modify w fun data => { data with sessions := data.sessions ++ [id] }).map
      TaskData.running = tasks.map TaskData.running := by
  apply List.ext_getElem?
  intro i
  rw [List.getElem?_map, List.getElem?_map, List.getElem?_modify]
  cases tasks[i]? with
  | none => rfl
  | some data =>
    split
    · rfl
    · rfl

variable (env : Surroundings)

theorem steady_promote (s : State) (id : Nat) : Steady s (s.promote env id) := by
  have hk := kept_raise env s (.incomingClientConnected id)
  simp only [State.promote, State.promoteReady]
  split
  · exact ⟨rfl, rfl, rfl⟩
  · refine { hk with running := ?_ }
    exact (running_modify _ _ _).trans hk.steady.running

theorem kept_timeout (s : State) (i : Nat) : Kept s (s.timeout env i) := by
  rcases timeout_cases env s i with hclose | hsame
  · rw [hclose]
    exact {}
  · rw [hsame]
    exact {}

theorem steady_processSessions (s : State) : Steady s (s.processSessions env) := by
  have hswept : Steady s (s.swept env) := by
    have hk := kept_cleanup env s s.pending
    have hcleaned : Steady s { (s.cleanupAndProcessSessions env s.pending).1 with
        pending := (s.cleanupAndProcessSessions env s.pending).2 } :=
      { hk with running := congrArg _ hk.tasks }
    exact hcleaned.trans (Kept.foldl (kept_timeout env) _ _).steady
  exact List.foldlRecOn (motive := Steady s) _ _ hswept fun t ht i _ =>
    ht.trans (steady_promote env t i)

theorem Orderly.processSessions (h : Orderly s) (hmain : s.main = .sessions) (env : Surroundings) :
    Orderly { s.processSessions env with main := .loop } := by
  have hs := steady_processSessions env s
  refine ⟨fun data hdata hstopped => ?_, fun hcomplete => ?_⟩
  · -- no worker has left before the acceptor is out of its loop
    have hmem := List.mem_map_of_mem (f := TaskData.running) hdata
    rw [hs.running] at hmem
    obtain ⟨old, hold, heq⟩ := List.mem_map.1 hmem
    have hclearing := (h.stopped old hold (heq.trans hstopped)).2
    rw [hmain] at hclearing
    cases hclearing
  · have hdone := (h.closed (hs.shutdownComplete ▸ hcomplete)).1
    rw [hmain] at hdone
    cases hdone

/-! ## One step -/

/-- The invariant: every session is at its place. -/
structure Sound (place : Nat → Place) (s : State) : Prop extends Orderly s where
  stands : ∀ id, At id (place id) (s.view id)

variable {place : Nat → Place}

theorem Sound.mem_sessionsOf (h : Sound place s) {w id : Nat} :
    id ∈ s.sessionsOf w ↔ place id = .held w := by
  have hheld : (s.sessionsOf w).count id = _ := (h.stands id).held w
  rw [← List.count_pos_iff, hheld]
  split
  · next heq => simp [heq]
  · next hne => simp [hne]

/-- Once every worker has left, none has a session. -/
theorem Orderly.sessionsOf_stopped (h : Orderly s)
    (hall : s.tasks.all (fun data => !data.running) = true) (w : Nat) : s.sessionsOf w = [] := by
  rw [State.sessionsOf]
  cases htask : s.tasks[w]? with
  | none => rfl
  | some data =>
    have hdata := List.mem_of_getElem? htask
    have hstopped := List.all_eq_true.1 hall data hdata
    exact (h.stopped data hdata (by simpa using hstopped)).1

/-- The end of `MainProcessor`. -/
theorem Sound.finish (h : Sound place s) (env : Surroundings)
    (hall : s.tasks.all (fun data => !data.running) = true) :
    Orderly { State.disconnectPending env { s with tasks := [] } with
        listening := false, main := .done, shutdownComplete := true } ∧
      ∀ id, Remembered id (place id)
        ((State.disconnectPending env { s with tasks := [] }).view id) := by
  have hcleared : ∀ id, ({ s with tasks := [] } : State).view id = s.view id := by
    intro id
    simp only [State.view]
    congr 1
    funext w
    rw [h.sessionsOf_stopped hall]
    rfl
  have hk : Kept { s with tasks := [] } (s.pending.foldl State.close { s with tasks := [] }) :=
    Kept.foldl (fun _ _ => {}) _ _
  have htasks : (State.disconnectPending env { s with tasks := [] }).tasks = [] := by
    have hrunning := (steady_processSessions env
      (s.pending.foldl State.close { s with tasks := [] })).running
    rw [hk.tasks] at hrunning
    exact List.map_eq_nil_iff.1 hrunning
  refine ⟨⟨fun data hdata => ?_, fun _ => ⟨rfl, htasks⟩⟩, fun id => ?_⟩
  · have hmem : data ∈ (State.disconnectPending env { s with tasks := [] }).tasks := hdata
    rw [htasks] at hmem
    cases hmem
  · apply At.processSessions
    rw [view_closeAll, hcleared]
    exact h.stands id

/-- **One step** keeps every session at a place, and only a worker's exit forgets sessions: those it
has. -/
theorem Sound.next (h : Sound place s) {e : Step} (hnext : s.next e = some s') :
    ∃ place', Sound place' s' ∧ ∀ id, place' id = .forgotten ↔
      place id = .forgotten ∨ ∃ w, e = .workerExit w ∧ place id = .held w := by
  have hother : (∀ w, e ≠ .workerExit w) → Orderly s' →
      (∀ id, Remembered id (place id) (s'.view id)) → ∃ place', Sound place' s' ∧
        ∀ id, place' id = .forgotten ↔
          place id = .forgotten ∨ ∃ w, e = .workerExit w ∧ place id = .held w := by
    intro hno horderly hall
    choose place' hat hminded using hall
    refine ⟨place', ⟨horderly, hat⟩, fun id => (hminded id).trans ?_⟩
    rw [or_iff_left]
    rintro ⟨w, heq, -⟩
    exact hno w heq
  cases e with
  | close id =>
    cases hnext
    refine hother nofun (h.toOrderly.kept {}) fun i => ?_
    rw [view_close]
    exact (h.stands i).remembered
  | stop =>
    cases hnext
    exact hother nofun { h with } fun i => (h.stands i).remembered
  | enter =>
    obtain ⟨hguard, ⟨⟩⟩ := Option.ite_none_right_eq_some.1 hnext
    exact hother nofun (h.turn (by simp [hguard.1]) (by simp [hguard.1]) _) fun i =>
      (h.stands i).remembered
  | accept now =>
    obtain ⟨-, ⟨⟩⟩ := Option.ite_none_right_eq_some.1 hnext
    refine hother nofun ?_ fun i => (h.stands i).accept now
    unfold State.accept
    dsimp only
    split
    · exact { h with }
    · exact { h with }
  | drained =>
    obtain ⟨hguard, ⟨⟩⟩ := Option.ite_none_right_eq_some.1 hnext
    exact hother nofun (h.turn (by simp [hguard]) (by simp [hguard]) _) fun i =>
      (h.stands i).remembered
  | processSessions env =>
    obtain ⟨hguard, ⟨⟩⟩ := Option.ite_none_right_eq_some.1 hnext
    exact hother nofun (h.toOrderly.processSessions hguard env) fun i =>
      (h.stands i).processSessions env
  | leave env =>
    obtain ⟨hguard, ⟨⟩⟩ := Option.ite_none_right_eq_some.1 hnext
    have hk := kept_raise env s .shutdown
    have hmain : (s.raise env .shutdown).main = .loop := hk.main.trans hguard.1
    refine hother nofun ((h.toOrderly.kept hk).turn (by simp [hmain]) (by simp [hmain]) _)
      fun i => ?_
    have hview : (s.raise env .shutdown).view i = s.view i := view_raise_of_ne env s i nofun
    exact hview ▸ (h.stands i).remembered
  | workerTick w env =>
    obtain ⟨hguard, ⟨⟩⟩ := Option.ite_none_right_eq_some.1 hnext
    exact hother nofun (h.toOrderly.workerTick env hguard) fun i =>
      (h.stands i).workerTick env (lt_of_isRunning hguard)
  | workerExit w =>
    obtain ⟨hguard, ⟨⟩⟩ := Option.ite_none_right_eq_some.1 hnext
    refine ⟨_, ⟨h.toOrderly.workerExit hguard.1 w,
      fun i => (h.stands i).workerExit (lt_of_isRunning hguard.2)⟩, fun i => ?_⟩
    simp only [Step.workerExit.injEq, exists_eq_left']
    split
    · next hheld => simp [hheld]
    · next hne => simp [hne]
  | finish env =>
    obtain ⟨hguard, ⟨⟩⟩ := Option.ite_none_right_eq_some.1 hnext
    obtain ⟨horderly, hall⟩ := h.finish env hguard.2
    exact hother nofun horderly hall

end Steps

/-! ## Whole runs -/

section Runs

variable {s s' : State} {place : Nat → Place}

theorem Sound.listen (config : ServerConfig) (workers : Nat) :
    Sound (fun _ => .ahead) (listen config workers) := by
  refine ⟨⟨fun data hdata hstopped => ?_, nofun⟩, fun id => ⟨rfl, rfl, fun w => ?_, nofun, nofun,
    rfl⟩⟩
  · rw [List.eq_of_mem_replicate hdata] at hstopped
    cases hstopped
  · refine List.count_eq_zero.2 ?_
    rw [State.sessionsOf]
    cases htask : (Server.listen config workers).tasks[w]? with
    | none => exact List.not_mem_nil
    | some data =>
      rw [List.eq_of_mem_replicate (List.mem_of_getElem? htask)]
      exact List.not_mem_nil

/-- A worker that leaves its loop has no session. -/
def exitsEmpty (s : State) : Step → Bool
  | .workerExit w => (s.sessionsOf w).isEmpty
  | _ => true

theorem Sound.exitsEmpty_iff (h : Sound place s) {e : Step} :
    exitsEmpty s e = true ↔ ∀ id w, e = .workerExit w → place id ≠ .held w := by
  cases e with
  | workerExit w =>
    simp only [exitsEmpty, List.isEmpty_iff, List.eq_nil_iff_forall_not_mem, h.mem_sessionsOf,
      Step.workerExit.injEq, forall_eq']
  | close | stop | enter | accept | drained | processSessions | leave | workerTick | finish =>
    exact ⟨fun _ _ => nofun, fun _ => rfl⟩

/-- No session is forgotten along a run exactly if every worker leaves with none. -/
theorem forgotten_run {es : List Step} (h : Sound place s)
    (hrun : lifecycle.exec s es = some s') : ∃ place', Sound place' s' ∧
      ((∀ id, place' id ≠ .forgotten) ↔ (∀ id, place id ≠ .forgotten) ∧
        GuardedRun lifecycle (fun s e => exitsEmpty s e = true) s es s') := by
  induction es generalizing s place with
  | nil =>
    obtain rfl : s = s' := by simpa using hrun
    exact ⟨place, h, fun hnone => ⟨hnone, .nil s⟩, And.left⟩
  | cons e es ih =>
    obtain ⟨s₁, hstep, hrest⟩ := Option.bind_eq_some_iff.1 hrun
    obtain ⟨place₁, hsound, hforgets⟩ := h.next hstep
    obtain ⟨place', hsound', hiff⟩ := ih hsound hrest
    -- the step forgets nobody exactly if it is no exit with sessions
    have hone : (∀ id, place₁ id ≠ .forgotten) ↔
        (∀ id, place id ≠ .forgotten) ∧ exitsEmpty s e = true := by
      rw [h.exitsEmpty_iff, ← forall_and]
      refine forall_congr' fun id => ?_
      rw [ne_eq, hforgets, not_or, not_exists]
      simp only [not_and, ne_eq]
    refine ⟨place', hsound', ?_⟩
    rw [hiff, hone]
    constructor
    · rintro ⟨⟨hnone, hempty⟩, hguarded⟩
      exact ⟨hnone, .cons hempty hstep hguarded⟩
    · rintro ⟨hnone, hguarded⟩
      cases hguarded with
      | cons hempty hstep' hguarded =>
        obtain rfl := Option.some.inj (hstep.symm.trans hstep')
        exact ⟨⟨hnone, hempty⟩, hguarded⟩

/-! ## What the log says -/

section Heard

variable {id : Nat} {p : Place} (h : At id p (s.view id))
include h

/-- What was heard of a session, event by event. -/
theorem At.count_log {event : Event} (hevent : event.session = some id) :
    s.log.count event = (p.heard id).count event := by
  have hheard : s.history id = p.heard id := h.heard
  rw [← hheard, State.history, List.count_filter]
  simp [hevent]

theorem At.mem_log {event : Event} (hevent : event.session = some id) :
    event ∈ s.log ↔ event ∈ p.heard id := by
  rw [← List.count_pos_iff, h.count_log hevent, List.count_pos_iff]

theorem At.count_connected : s.log.count (.incomingClientConnected id) ≤ 1 := by
  rw [h.count_log rfl]
  cases p <;> simp [Place.heard]

theorem At.count_disconnected : s.log.count (.incomingClientDisconnected id) ≤ 1 := by
  rw [h.count_log rfl]
  cases p <;> simp [Place.heard]

/-- The application is told of the end of a session after its beginning. -/
theorem At.connected_before {before after : List Event}
    (hlog : s.log = before ++ .incomingClientDisconnected id :: after) :
    .incomingClientConnected id ∈ before := by
  have hheard : s.history id = p.heard id := h.heard
  rw [State.history, hlog, List.filter_append,
    List.filter_cons_of_pos (by simp [Event.session])] at hheard
  -- what was heard does not begin with the end
  cases hfirst : before.filter fun event => event.session == some id with
  | nil =>
    rw [hfirst] at hheard
    cases p <;> simp [Place.heard] at hheard
  | cons first rest =>
    have hmem : first ∈ before := List.mem_of_mem_filter (hfirst ▸ List.mem_cons_self)
    rw [hfirst] at hheard
    have hconnected : first = .incomingClientConnected id := by
      cases p <;> simp_all [Place.heard]
    exact hconnected ▸ hmem

end Heard

/-- Without workers the forgotten sessions are those that were announced and not taken leave of. -/
theorem Sound.forgotten_iff (h : Sound place s) (htasks : s.tasks = []) (id : Nat) :
    place id = .forgotten ↔
      .incomingClientConnected id ∈ s.log ∧ .incomingClientDisconnected id ∉ s.log := by
  rw [(h.stands id).mem_log rfl, (h.stands id).mem_log rfl]
  cases hplace : place id with
  | held w =>
    have hmem := h.mem_sessionsOf.2 hplace
    rw [State.sessionsOf, htasks] at hmem
    cases hmem
  | ahead | waiting | turnedAway | left | forgotten => simp [Place.heard]

/-- **Connect and disconnect events are paired.**  In every run each session is announced at most
once and taken leave of at most once, after that.  When the shutdown is complete every session that
was announced has been taken leave of, exactly if no worker still had a session when it left its
loop. -/
theorem events_paired_iff {config : ServerConfig} {workers : Nat} {es : List Step}
    (hrun : lifecycle.exec (listen config workers) es = some s) :
    (∀ id, s.log.count (.incomingClientConnected id) ≤ 1 ∧
      s.log.count (.incomingClientDisconnected id) ≤ 1 ∧
      ∀ before after, s.log = before ++ .incomingClientDisconnected id :: after →
        .incomingClientConnected id ∈ before) ∧
    (s.shutdownComplete = true →
      ((∀ id, .incomingClientConnected id ∈ s.log → .incomingClientDisconnected id ∈ s.log) ↔
        GuardedRun lifecycle (fun s e => exitsEmpty s e = true) (listen config workers) es s)) := by
  obtain ⟨place, h, hforgotten⟩ := forgotten_run (Sound.listen config workers) hrun
  refine ⟨fun id => ⟨(h.stands id).count_connected, (h.stands id).count_disconnected,
    fun _ _ => (h.stands id).connected_before⟩, fun hcomplete => ?_⟩
  calc (∀ id, .incomingClientConnected id ∈ s.log → .incomingClientDisconnected id ∈ s.log)
      ↔ ∀ id, place id ≠ .forgotten := by
        simp only [ne_eq, h.forgotten_iff (h.closed hcomplete).2, not_and, not_not]
    _ ↔ GuardedRun lifecycle (fun s e => exitsEmpty s e = true) (listen config workers) es s := by
        rw [hforgotten]
        exact and_iff_right fun _ => nofun

/-- A handshake settles at the first tick, and nobody closes anything. -/
def settling : Surroundings where
  now := 1
  process _ := { settles := true, dies := false }
  reacts _ := []

/-- A client connects to a server with one worker. -/
def connects : List Step := [.enter, .accept 0, .drained, .processSessions settling]

/-- It leaves again before the server stops. -/
theorem events_paired_iff_left :
    ∃ s, GuardedRun lifecycle (fun s e => exitsEmpty s e = true)
        (listen { maxConnections := 0, connectionTimeout := 10 } 1)
        (connects ++ [.close 0, .workerTick 0 settling, .stop, .leave settling, .workerExit 0,
          .finish settling]) s ∧
      s.shutdownComplete = true ∧ .incomingClientConnected 0 ∈ s.log ∧
      ∀ id, .incomingClientConnected id ∈ s.log → .incomingClientDisconnected id ∈ s.log := by
  apply GuardedRun.exists_run (P := fun s => s.shutdownComplete = true ∧
    .incomingClientConnected 0 ∈ s.log) (by decide +kernel)
  rintro s hrun ⟨hcomplete, hconnected⟩
  exact ⟨hcomplete, hconnected, ((events_paired_iff hrun.exec).2 hcomplete).2 hrun⟩

/-- **Nobody takes leave of a client that is still there when the server stops.** -/
theorem stop_forgets_client :
    ∃ s, lifecycle.exec (listen { maxConnections := 0, connectionTimeout := 10 } 1)
        (connects ++ [.workerTick 0 settling, .stop, .leave settling, .workerExit 0,
          .finish settling]) = some s ∧
      s.shutdownComplete = true ∧ .incomingClientConnected 0 ∈ s.log ∧
      .incomingClientDisconnected 0 ∉ s.log :=
  Machine.exists_exec (by decide +kernel) fun _ _ => id

end Runs

end Server
end Znet

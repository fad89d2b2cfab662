import Znet.Server.Lifecycle

/-!
# The life of one session

A session waits at the acceptor until it is announced, is with one worker from then on, and is gone
after the application was told of its end.  Every operation of the server treats its sessions one by
one, so it is enough to look at it from one of them: `State.view` is what the server has of a
session, and each operation changes the views it is meant for and no other.
-/

namespace Znet
namespace Server

/-! ## What the server has of a session -/

/-- What the application has heard of session `id`. -/
def State.history (s : State) (id : Nat) : List Event :=
  s.log.filter fun event => event.session == some id

@[ext]
structure View where
  accepted : Bool
  /-- How often it is in `pending_sessions_`, and in the map of each worker. -/
  waits : Nat
  held : Nat → Nat
  ready : Bool
  heard : List Event

def State.view (s : State) (id : Nat) : View where
  accepted := decide (id < s.accepted)
  waits := s.pending.count id
  held w := (s.sessionsOf w).count id
  ready := (s.session id).isReady
  heard := s.history id

/-- Something is heard of it. -/
def View.hears (v : View) (events : List Event) : View := { v with heard := v.heard ++ events }

/-- `Process`: its handshake may settle. -/
def View.driven (v : View) (settles : Bool) : View := { v with ready := v.ready || settles }

/-- Its number of entries in `pending_sessions_`, and in the map of worker `w`. -/
def View.wait (v : View) (n : Nat) : View := { v with waits := n }

def View.place (v : View) (w n : Nat) : View := { v with held := Function.update v.held w n }

/-- How far a session is. -/
inductive Place where
  /-- Not accepted yet. -/
  | ahead
  | waiting
  /-- With worker `w`. -/
  | held (w : Nat)
  /-- Gone before it was announced. -/
  | turnedAway
  /-- Gone, and taken leave of. -/
  | left
  /-- Gone after it was announced, and not taken leave of. -/
  | forgotten
  deriving DecidableEq

def Place.heard (id : Nat) : Place → List Event
  | .ahead | .waiting | .turnedAway => []
  | .held _ | .forgotten => [.incomingClientConnected id]
  | .left => [.incomingClientConnected id, .incomingClientDisconnected id]

/-- Session `id` is at `p`: which map it is in, whether its handshake has settled, and what was
heard of it. -/
structure At (id : Nat) (p : Place) (v : View) : Prop where
  accepted : v.accepted = decide (p ≠ .ahead)
  waits : v.waits = if p = .waiting then 1 else 0
  held : ∀ w, v.held w = if p = .held w then 1 else 0
  unready : p = .waiting → v.ready = false
  ready : ∀ w, p = .held w → v.ready = true
  heard : v.heard = p.heard id

/-- Nothing changes but sessions and the log. -/
structure Kept (s s' : State) : Prop where
  accepted : s'.accepted = s.accepted := by rfl
  pending : s'.pending = s.pending := by rfl
  tasks : s'.tasks = s.tasks := by rfl
  main : s'.main = s.main := by rfl
  shutdownComplete : s'.shutdownComplete = s.shutdownComplete := by rfl

theorem Kept.trans {s t u : State} (h : Kept s t) (h' : Kept t u) : Kept s u :=
  ⟨h'.accepted.trans h.accepted, h'.pending.trans h.pending, h'.tasks.trans h.tasks,
    h'.main.trans h.main, h'.shutdownComplete.trans h.shutdownComplete⟩

theorem Kept.view {s s' : State} (h : Kept s s') (id : Nat) :
    s'.view id = { s.view id with ready := (s'.session id).isReady, heard := s'.history id } := by
  simp only [State.view, State.sessionsOf, h.accepted, h.pending, h.tasks]

/-! ## A pass over a map -/

section Passes

variable {id : Nat} {op : State → Nat → State}

theorem Kept.foldl (hop : ∀ s i, Kept s (op s i)) (l : List Nat) (s : State) :
    Kept s (l.foldl op s) :=
  List.foldlRecOn (motive := Kept s) l op {} fun _ ht i _ => ht.trans (hop _ i)

/-- A pass that does not meet a session. -/
theorem view_foldl_never (hother : ∀ s i, i ≠ id → (op s i).view id = s.view id) {l : List Nat}
    (h : l.count id = 0) (s : State) : (l.foldl op s).view id = s.view id := by
  refine List.foldlRecOn (motive := fun t => t.view id = s.view id) l op rfl ?_
  intro t ht i hi
  refine (hother t i ?_).trans ht
  rintro rfl
  exact List.count_eq_zero.1 h hi

/-- A pass that meets it once does to it what its own turn does. -/
theorem view_foldl_once {R : View → View → Prop}
    (hother : ∀ s i, i ≠ id → (op s i).view id = s.view id)
    (hself : ∀ s, R (s.view id) ((op s id).view id)) {l : List Nat} (h : l.count id = 1)
    (s : State) : R (s.view id) ((l.foldl op s).view id) := by
  induction l generalizing s with
  | nil => cases h
  | cons i l ih =>
    rw [List.foldl_cons]
    by_cases heq : i = id
    · subst heq
      rw [List.count_cons_self] at h
      rw [view_foldl_never hother (by omega)]
      exact hself s
    · rw [List.count_cons_of_ne heq] at h
      rw [← hother s i heq]
      exact ih h _

theorem count_filter (p : Nat → Bool) (l : List Nat) :
    (l.filter p).count id = if p id then l.count id else 0 := by
  split
  · next hp => exact List.count_filter hp
  · next hp =>
    rw [List.count_eq_zero]
    exact fun hmem => hp (List.of_mem_filter hmem)

end Passes

/-! ## One session's turn -/

section Turns

variable (env : Surroundings) (s : State) (id i : Nat)

theorem ready_close : ((s.close i).session id).isReady = (s.session id).isReady := by
  simp only [State.close, Function.update_apply]
  split
  · next heq => rw [heq]
  · rfl

theorem view_close : (s.close i).view id = s.view id := by
  rw [Kept.view {} id, ready_close]
  rfl

/-- A pass that closes sessions. -/
theorem view_closeAll (l : List Nat) : (l.foldl State.close s).view id = s.view id :=
  List.foldlRecOn (motive := fun t => t.view id = s.view id) l _ rfl fun t ht i _ =>
    (view_close t id i).trans ht

theorem timeout_cases : s.timeout env i = s.close i ∨ s.timeout env i = s := by
  unfold State.timeout
  split
  · exact .inl rfl
  · exact .inr rfl

/-- The application hears something of the session. -/
theorem view_raise_self {event : Event} (h : event.session = some id) :
    (s.raise env event).view id = (s.view id).hears [event] := by
  refine (view_closeAll _ id _).trans ?_
  simp [State.view, View.hears, State.history, State.sessionsOf, h]

theorem view_raise_of_ne {event : Event} (h : event.session ≠ some id) :
    (s.raise env event).view id = s.view id := by
  refine (view_closeAll _ id _).trans ?_
  simp [State.view, State.history, State.sessionsOf, h]

theorem kept_raise (event : Event) : Kept s (s.raise env event) :=
  Kept.trans {} (Kept.foldl (fun _ _ => {}) _ _)

theorem kept_sweep : Kept s (s.sweep env i) := by
  unfold State.sweep
  split
  · exact kept_raise env s _
  · exact {}

/-- What is heard of a session that is swept. -/
def View.farewell (id : Nat) (v : View) : View :=
  if v.ready then v.hears [.incomingClientDisconnected id] else v

theorem view_sweep_self : (s.sweep env id).view id = (s.view id).farewell id := by
  unfold State.sweep
  split
  · next hready =>
    rw [view_raise_self env s id rfl]
    exact (if_pos hready).symm
  · next hready => exact (if_neg hready).symm

theorem view_sweep_of_ne (h : i ≠ id) : (s.sweep env i).view id = s.view id := by
  unfold State.sweep
  split
  · exact view_raise_of_ne env s id (by simpa [Event.session] using h)
  · rfl

theorem kept_process : Kept s (s.process env i) := by
  unfold State.process
  split
  · exact {}
  · exact {}

theorem view_process_self :
    ∃ settles, (s.process env id).view id = (s.view id).driven settles := by
  unfold State.process
  split
  · refine ⟨(env.process id).settles, ?_⟩
    rw [Kept.view {} id]
    simp only [Function.update_self]
    rfl
  · refine ⟨false, ?_⟩
    rw [View.driven, Bool.or_false]

theorem view_process_of_ne (h : i ≠ id) : (s.process env i).view id = s.view id := by
  unfold State.process
  split
  · rw [Kept.view {} id]
    simp only [Function.update_of_ne (Ne.symm h)]
    rfl
  · rfl

/-! ## The sweep and the tick -/

theorem kept_cleanup (l : List Nat) : Kept s (s.cleanupAndProcessSessions env l).1 :=
  (Kept.foldl (kept_sweep env) _ s).trans (Kept.foldl (kept_process env) _ _)

variable {s id} {l : List Nat}

/-- The tick is of those that are alive. -/
theorem view_cleanup_of_sweep (h : ((l.filter fun i => (s.session i).isAlive).count id = 0)) :
    (s.cleanupAndProcessSessions env l).1.view id =
      ((l.filter fun i => !(s.session i).isAlive).foldl (State.sweep env) s).view id :=
  view_foldl_never (fun t i => view_process_of_ne env t id i) h _

/-- A session that is not in the map. -/
theorem view_cleanup_of_count (h : l.count id = 0) :
    (s.cleanupAndProcessSessions env l).1.view id = s.view id := by
  have hzero : ∀ p : Nat → Bool, (l.filter p).count id = 0 := by
    intro p
    rw [count_filter, h, ite_self]
  rw [view_cleanup_of_sweep env (hzero _)]
  exact view_foldl_never (fun t i => view_sweep_of_ne env t id i) (hzero _) s

/-- A session of the map that is dead is taken leave of, if it was ready. -/
theorem view_cleanup_dead (h : l.count id = 1) (hdead : (s.session id).isAlive = false) :
    (s.cleanupAndProcessSessions env l).1.view id = (s.view id).farewell id := by
  rw [view_cleanup_of_sweep env (by rw [count_filter, hdead]; rfl)]
  refine view_foldl_once (R := fun v v' => v' = v.farewell id)
    (fun t i => view_sweep_of_ne env t id i)
    (fun t => view_sweep_self env t id) ?_ s
  rw [count_filter, hdead, h]
  rfl

/-- One that is alive is driven. -/
theorem view_cleanup_alive (h : l.count id = 1) (halive : (s.session id).isAlive = true) :
    ∃ settles, (s.cleanupAndProcessSessions env l).1.view id = (s.view id).driven settles := by
  have hswept : ((l.filter fun i => !(s.session i).isAlive).foldl (State.sweep env) s).view id =
      s.view id := by
    apply view_foldl_never (fun t i => view_sweep_of_ne env t id i)
    rw [count_filter, halive]
    rfl
  have hdriven := view_foldl_once (R := fun v v' => ∃ settles, v' = v.driven settles)
    (fun t i => view_process_of_ne env t id i) (fun t => view_process_self env t id)
    (l := l.filter fun i => (s.session i).isAlive) (by rw [count_filter, halive, h]; rfl)
    ((l.filter fun i => !(s.session i).isAlive).foldl (State.sweep env) s)
  rw [hswept] at hdriven
  exact hdriven

end Turns

/-! ## A worker -/

section Worker

variable {s : State} {w id : Nat} {p : Place}

/-- A worker's map is replaced. -/
theorem view_set (hw : w < s.tasks.length) (data : TaskData) :
    ({ s with tasks := s.tasks.set w data } : State).view id =
      (s.view id).place w (data.sessions.count id) := by
  simp only [State.view, View.place, State.sessionsOf]
  congr 1
  funext w'
  by_cases heq : w' = w
  · subst heq
    rw [List.getElem?_set_self hw, Function.update_self]
    rfl
  · rw [List.getElem?_set_ne (Ne.symm heq), Function.update_of_ne heq]

/-- A session that is not with this worker. -/
theorem At.elsewhere {v : View} (h : At id p v) (hp : p ≠ .held w) :
    v.place w 0 = v := by
  have hzero : v.held w = 0 := (h.held w).trans (if_neg hp)
  rw [← hzero, View.place, Function.update_eq_self]

/-- A session that is with this worker only. -/
theorem At.held_place {v : View} (h : At id (.held w) v) (n w' : Nat) :
    (v.place w n).held w' = if w' = w then n else 0 := by
  simp only [View.place, Function.update_apply, h.held]
  split
  · rfl
  · next hne => exact if_neg fun heq => hne (Place.held.inj heq).symm

/-- It is somewhere, and was not forgotten on the way. -/
def Remembered (id : Nat) (p : Place) (v : View) : Prop :=
  ∃ p', At id p' v ∧ (p' = .forgotten ↔ p = .forgotten)

theorem At.remembered {v : View} (h : At id p v) : Remembered id p v := ⟨p, h, .rfl⟩

theorem At.workerTick (h : At id p (s.view id)) (env : Surroundings) (hw : w < s.tasks.length) :
    Remembered id p ((s.workerTick env w).view id) := by
  have hlength : w < (s.cleanupAndProcessSessions env (s.sessionsOf w)).1.tasks.length := by
    rw [(kept_cleanup env s _).tasks]
    exact hw
  have hcount : (s.sessionsOf w).count id = if p = .held w then 1 else 0 := h.held w
  have hset : (s.workerTick env w).view id = _ := view_set hlength
    { sessions := (s.sessionsOf w).filter fun i => (s.session i).isAlive, running := true }
  rw [hset, count_filter]
  by_cases hp : p = .held w
  · subst hp
    rw [if_pos rfl] at hcount
    cases halive : (s.session id).isAlive with
    | false =>
      -- it is ready, so it is taken leave of
      have hready : (s.view id).farewell id = _ := if_pos (h.ready w rfl)
      rw [view_cleanup_dead env hcount halive, hready]
      refine ⟨.left, ⟨h.accepted, h.waits, fun w' => ?_, nofun, nofun, ?_⟩, by simp⟩
      · exact (h.held_place 0 w').trans (ite_self _)
      · exact congrArg (· ++ _) h.heard
    | true =>
      obtain ⟨settles, hview⟩ := view_cleanup_alive env hcount halive
      rw [hview, hcount]
      refine ⟨.held w, ⟨h.accepted, h.waits, fun w' => ?_, nofun, fun _ _ => ?_, h.heard⟩, .rfl⟩
      · exact (h.held_place 1 w').trans (if_congr (by simp [eq_comm]) rfl rfl)
      · exact Bool.or_eq_true_iff.2 (.inl (h.ready w rfl))
  · rw [if_neg hp] at hcount
    rw [view_cleanup_of_count env hcount, hcount, ite_self, h.elsewhere hp]
    exact h.remembered

/-- A worker that leaves forgets the sessions it has. -/
theorem At.workerExit (h : At id p (s.view id)) (hw : w < s.tasks.length) :
    At id (if p = .held w then .forgotten else p) ((s.workerExit w).view id) := by
  have hkept : Kept s ((s.sessionsOf w).foldl State.close s) := Kept.foldl (fun _ _ => {}) _ s
  have hset : (s.workerExit w).view id = _ := view_set (by rw [hkept.tasks]; exact hw)
    { sessions := [], running := false }
  rw [hset, view_closeAll, List.count_nil]
  split
  · next hp =>
    subst hp
    refine ⟨h.accepted, h.waits, fun w' => ?_, nofun, nofun, h.heard⟩
    exact (h.held_place 0 w').trans (ite_self _)
  · next hp =>
    rw [h.elsewhere hp]
    exact h

end Worker

/-! ## From the acceptor to a worker -/

section Acceptor

variable {s : State} {w id i : Nat} {p : Place}

theorem selectLoop_lt (tasks : List TaskData) (i min minCount : Nat)
    (hmin : min < i + tasks.length) :
    State.selectLoop tasks i min minCount < i + tasks.length := by
  induction tasks generalizing i min minCount with
  | nil => exact hmin
  | cons data rest ih =>
    rw [List.length_cons] at hmin ⊢
    rw [State.selectLoop]
    split
    · have hrest := ih (i + 1) i data.sessions.length (by omega)
      omega
    · have hrest := ih (i + 1) min minCount (by omega)
      omega

theorem selectNextTask_lt {tasks : List TaskData} (h : State.selectNextTask tasks = some w) :
    w < tasks.length := by
  cases tasks with
  | nil => cases h
  | cons data rest =>
    cases h
    have hlt := selectLoop_lt (data :: rest) 0 0 data.sessions.length (by simp)
    omega

/-- A session leaves `pending_sessions_` and is put into the map of a worker. -/
def View.submitted (v : View) (w n : Nat) : View :=
  (v.wait (v.waits - n)).place w (v.held w + n)

theorem count_erase (l : List Nat) (i id : Nat) :
    (l.erase i).count id = l.count id - if i = id then 1 else 0 := by
  split
  · next heq => rw [heq, List.count_erase_self]
  · next hne => rw [List.count_erase_of_ne (Ne.symm hne), Nat.sub_zero]

theorem view_submit (hw : w < s.tasks.length) (i : Nat) :
    ({ s with
      tasks := s.tasks.modify w fun data => { data with sessions := data.sessions ++ [i] }
      pending := s.pending.erase i } : State).view id =
        (s.view id).submitted w (if i = id then 1 else 0) := by
  simp only [State.view, State.sessionsOf, View.submitted, View.wait, View.place, count_erase]
  congr 1
  funext w'
  by_cases heq : w' = w
  · subst heq
    rw [List.getElem?_modify_eq, Function.update_self, List.getElem?_eq_getElem hw]
    simp [List.count_append, List.count_singleton]
  · rw [List.getElem?_modify_ne _ _ (Ne.symm heq), Function.update_of_ne heq]

variable (env : Surroundings)

/-- **A promotion**: the session is announced and a worker has it, or there is no worker. -/
theorem view_promote (s : State) (id i : Nat) :
    (s.promote env i).view id = (s.view id).wait ((s.view id).waits - if i = id then 1 else 0) ∨
      ∃ w, (s.promote env i).view id =
        ((s.raise env (.incomingClientConnected i)).view id).submitted w
          (if i = id then 1 else 0) := by
  cases hselect : State.selectNextTask s.tasks with
  | none =>
    left
    simp only [State.promote, State.promoteReady, hselect]
    rw [← view_close s id i]
    simp only [State.view, State.close, View.wait, count_erase]
    rfl
  | some w =>
    right
    simp only [State.promote, State.promoteReady, hselect]
    refine ⟨w, view_submit (s := s.raise env (.incomingClientConnected i)) ?_ i⟩
    rw [(kept_raise env s (.incomingClientConnected i)).tasks]
    exact selectNextTask_lt hselect

/-- What a promotion makes of the view of its session. -/
def View.Promoted (id : Nat) (v v' : View) : Prop :=
  v' = v.wait (v.waits - 1) ∨ ∃ w, v' = (v.hears [.incomingClientConnected id]).submitted w 1

theorem view_promote_self (s : State) (id : Nat) :
    (s.view id).Promoted id ((s.promote env id).view id) := by
  have hpromote := view_promote env s id id
  rw [if_pos rfl, view_raise_self env s id rfl] at hpromote
  exact hpromote

/-- A session that waits and is ready is gone or with a worker after it. -/
theorem At.promoted {v v' : View} (h : At id .waiting v) (hp : (v.driven true).Promoted id v') :
    ∃ p, At id p v' ∧ p ≠ .forgotten := by
  have hready : (v.driven true).ready = true := Bool.or_true _
  have hwaits : v.waits - 1 = 0 := congrArg (· - 1) h.waits
  rcases hp with rfl | ⟨w, rfl⟩
  · exact ⟨.turnedAway, ⟨h.accepted, hwaits, h.held, nofun, nofun, h.heard⟩, nofun⟩
  · refine ⟨.held w, ⟨h.accepted, hwaits, fun w' => ?_, nofun, fun _ _ => hready, ?_⟩, nofun⟩
    · have hnone : ∀ w, v.held w = 0 := fun w => (h.held w).trans (if_neg nofun)
      simp only [View.submitted, View.place, View.wait, View.hears, View.driven,
        Function.update_apply, hnone, Place.held.injEq, eq_comm]
    · exact congrArg (· ++ _) h.heard

theorem view_promote_of_ne (s : State) (i : Nat) (h : i ≠ id) :
    (s.promote env i).view id = s.view id := by
  rcases view_promote env s id i with hgone | ⟨w, hsubmit⟩
  · rw [hgone, if_neg h]
    rfl
  · rw [hsubmit, if_neg h, view_raise_of_ne env s id (by simpa [Event.session] using h)]
    exact congrArg (fun held => ({ s.view id with held } : View)) (Function.update_eq_self w _)

theorem view_timeouts (l : List Nat) (s : State) (id : Nat) :
    (l.foldl (State.timeout env) s).view id = s.view id := by
  refine List.foldlRecOn (motive := fun t : State => t.view id = s.view id) l _ rfl ?_
  intro t ht i _
  refine Eq.trans ?_ ht
  rcases timeout_cases env t i with hclose | hsame
  · rw [hclose, view_close]
  · rw [hsame]

/-- The server after the sweep of the acceptor's map, before the promotions. -/
def State.swept (s : State) : State :=
  (s.cleanupAndProcessSessions env s.pending).2.foldl (State.timeout env)
    { (s.cleanupAndProcessSessions env s.pending).1 with
      pending := (s.cleanupAndProcessSessions env s.pending).2 }

theorem view_swept (s : State) (id : Nat) : (s.swept env).view id =
    ((s.cleanupAndProcessSessions env s.pending).1.view id).wait
      (if (s.session id).isAlive then s.pending.count id else 0) := by
  rw [State.swept, view_timeouts, ← count_filter fun i => (s.session i).isAlive]
  rfl

/-- What the sweep makes of a session that waits: it is gone, goes on waiting, or is ready. -/
theorem At.swept (h : At id .waiting (s.view id)) (env : Surroundings) :
    (s.swept env).view id = (s.view id).wait 0 ∨ (s.swept env).view id = s.view id ∨
      (s.swept env).view id = (s.view id).driven true := by
  have hcount : s.pending.count id = 1 := h.waits
  have hunready := h.unready rfl
  rw [view_swept]
  cases halive : (s.session id).isAlive with
  | false =>
    left
    have hsilent : (s.view id).farewell id = s.view id := by
      rw [View.farewell, hunready, if_neg Bool.false_ne_true]
    rw [view_cleanup_dead env hcount halive, hsilent]
    rfl
  | true =>
    right
    obtain ⟨settles, hview⟩ := view_cleanup_alive env hcount halive
    rw [hview]
    cases settles with
    | false =>
      left
      rw [View.driven, Bool.or_false]
      rfl
    | true => exact .inr rfl

theorem At.swept_of_ne (h : At id p (s.view id)) (hp : p ≠ .waiting) (env : Surroundings) :
    (s.swept env).view id = s.view id := by
  have hcount : s.pending.count id = 0 := h.waits.trans (if_neg hp)
  rw [view_swept, view_cleanup_of_count env hcount, ite_eq_right_iff.2 fun _ => hcount, ← hcount]
  rfl

/-- **`ProcessSessions`.**  A session that waits goes on waiting, is gone, or is with a worker. -/
theorem At.processSessions (h : At id p (s.view id)) (env : Surroundings) :
    Remembered id p ((s.processSessions env).view id) := by
  -- how often the pass that promotes meets it
  have hpass : ((s.pending.filter fun i => (s.session i).isAlive).filter
      fun i => ((s.swept env).session i).isReady).count id =
        if ((s.swept env).view id).ready then ((s.swept env).view id).waits else 0 := by
    have hwaits : ((s.swept env).view id).waits =
        if (s.session id).isAlive then s.pending.count id else 0 := by
      rw [view_swept]
      rfl
    rw [count_filter, count_filter, hwaits]
    rfl
  have hnever : ((s.swept env).view id).ready = false ∨ ((s.swept env).view id).waits = 0 →
      (s.processSessions env).view id = (s.swept env).view id := by
    intro hskip
    refine view_foldl_never (fun t i => view_promote_of_ne env t i) (hpass.trans ?_) (s.swept env)
    rcases hskip with hunready | hnone
    · rw [hunready, if_neg Bool.false_ne_true]
    · rw [hnone, ite_self]
  by_cases hp : p = .waiting
  · subst hp
    rcases h.swept env with hgone | hsame | hready
    · rw [hnever (.inr (by rw [hgone]; rfl)), hgone]
      exact ⟨.turnedAway, ⟨h.accepted, rfl, h.held, nofun, nofun, h.heard⟩, by simp⟩
    · rw [hnever (.inl (by rw [hsame]; exact h.unready rfl)), hsame]
      exact h.remembered
    · have hmeets : (if ((s.swept env).view id).ready then ((s.swept env).view id).waits else 0) =
          1 := by
        rw [hready, View.driven, Bool.or_true, if_pos rfl]
        exact h.waits
      have honce := view_foldl_once (fun t i => view_promote_of_ne env t i)
        (fun t => view_promote_self env t id) (hpass.trans hmeets) (s.swept env)
      rw [hready] at honce
      obtain ⟨p', hat, hminded⟩ := h.promoted honce
      exact ⟨p', hat, by simpa using hminded⟩
  · have hsame := h.swept_of_ne hp env
    rw [hnever (.inr (by rw [hsame]; exact h.waits.trans (if_neg hp))), hsame]
    exact h.remembered

/-- A session comes in, with `n` entries in `pending_sessions_`. -/
def View.taken (v : View) (n : Nat) : View :=
  { v with accepted := true, waits := v.waits + n, ready := false }

/-- `CheckNetwork` takes the next session in, to wait or to be closed at once. -/
theorem view_accept (now : Nat) (s : State) : ∃ n, n ≤ 1 ∧ ∀ id, (s.accept now).view id =
    if id = s.accepted then (s.view id).taken n else s.view id := by
  have htaken : ∀ n pending, (∀ id, pending.count id = s.pending.count id +
      if id = s.accepted then n else 0) → ∀ id, ({ s with
        accepted := s.accepted + 1
        session := Function.update s.session s.accepted
          { isAlive := true, isReady := false, connectTime := now }
        pending } : State).view id =
          if id = s.accepted then (s.view id).taken n else s.view id := by
    intro n pending hpending id
    simp only [State.view, View.taken, hpending]
    split
    · next heq =>
      subst heq
      simp only [Function.update_self, Nat.lt_succ_self, decide_true]
      rfl
    · next hne =>
      have hlt : id < s.accepted + 1 ↔ id < s.accepted := by omega
      simp only [Function.update_of_ne hne, hlt, Nat.add_zero]
      rfl
  unfold State.accept
  dsimp only
  split
  · refine ⟨0, Nat.zero_le _, fun id => (view_close _ id _).trans ?_⟩
    exact htaken 0 s.pending (by simp) id
  · refine ⟨1, le_rfl, htaken 1 (s.pending ++ [s.accepted]) fun id => ?_⟩
    rw [List.count_append, List.count_singleton]
    exact congrArg _ (if_congr (by rw [beq_iff_eq, eq_comm]) rfl rfl)

theorem At.accept (h : At id p (s.view id)) (now : Nat) :
    Remembered id p ((s.accept now).view id) := by
  obtain ⟨n, hn, hview⟩ := view_accept now s
  rw [hview id]
  split
  · next heq =>
    obtain rfl : p = .ahead := by
      have haccepted := h.accepted
      simpa [State.view, heq] using haccepted
    have hwaits : (s.view id).waits + n = n := by
      rw [h.waits, if_neg nofun, Nat.zero_add]
    rcases Nat.le_one_iff_eq_zero_or_eq_one.1 hn with rfl | rfl
    · exact ⟨.turnedAway, ⟨rfl, hwaits, h.held, nofun, nofun, h.heard⟩, by simp⟩
    · exact ⟨.waiting, ⟨rfl, hwaits, h.held, fun _ => rfl, nofun, h.heard⟩, by simp⟩
  · exact h.remembered

end Acceptor

end Server
end Znet

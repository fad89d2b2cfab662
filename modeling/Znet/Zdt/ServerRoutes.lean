import Znet.Zdt.Server

/-!
# The routes of a server's sessions

What the table of routes and the sessions have to do with each other, over a server's runs.

* `untaken`, `routes_of_live_sessions` — **every live session keeps its route**, as long as no
  session migrates to an address where another one lives.
* `echoed`, `session_mtu_earned` — **the MTU of a session was probed**, if clients name no more
  than they were told.
-/

namespace Znet
namespace Zdt
namespace Server

variable {Secret Cookie : Type}

/-! ## What a step changes -/

/-- What a session is for good: its connection, the address it was opened for, and the MTU that
was named then. -/
structure Identity where
  connection : Connected
  address : Endpoint
  named : BitVec 16

def Identity.of (x : ServerSession Cookie) : Identity := ⟨x.connection, x.address, x.named⟩

def identity (s : Server Secret Cookie) (session : Nat) : Option Identity :=
  s.sessions[session]?.map .of

/-- A change to a session that leaves alone what it is for good. -/
theorem identity_modify (s : Server Secret Cookie)
    {change : ServerSession Cookie → ServerSession Cookie}
    (hchange : ∀ x, Identity.of (change x) = Identity.of x) (session i : Nat) :
    (s.sessions.modify session change)[i]?.map Identity.of = s.identity i := by
  rw [identity, Std.ExtTreeMap.getElem?_modify]
  split
  · next heq =>
    obtain rfl : session = i := by simpa using heq
    rw [Option.map_map]
    exact Option.map_congr fun x _ => hchange x
  · rfl

/-- What a step does to routes and sessions. -/
inductive Change (env : ServerContext Secret Cookie) (s : Server Secret Cookie) :
    ServerEvent Cookie → Server Secret Cookie → Prop
  | same {e : ServerEvent Cookie} {t : Server Secret Cookie} (hroutes : t.routes = s.routes)
      (hidentity : ∀ i, t.identity i = s.identity i) (hnext : t.nextSession = s.nextSession)
      (hexpired : t.expired = s.expired) : Change env s e t
  | opened {t : Server Secret Cookie} (d : Received Cookie) (now : Int) (order : List (List UInt8))
      (r : OpenConnectionRequest2 Cookie) (hr : Presents env (s.rotated env now) d r)
      (hnone : ∀ route, s.routes[env.key d.source]? = some route → route.session ∈ s.expired)
      (hroom : 0 < env.options.maxConnections → (s.routes.size : Int) < env.options.maxConnections)
      (hroutes : t.routes =
        s.routes.insert (env.key d.source) ⟨s.nextSession, d.source, r.clientGuid⟩)
      (hidentity : ∀ i, t.identity i =
        if i = s.nextSession then some ⟨newConnection env d.source r, d.source, r.mtu⟩
        else s.identity i)
      (hnext : t.nextSession = s.nextSession + 1) (hexpired : t.expired = s.expired)
      (hsecret : t.secret = s.rotated env now) : Change env s (.datagram d now order) t
  | moved {t : Server Secret Cookie} (d : Received Cookie) (now : Int) (order : List (List UInt8))
      (m : ZDTPathMessage Cookie) (hm : Responds env (s.rotated env now) d m) (key : List UInt8)
      (route : Route) (hroute : s.routes[key]? = some route) (hcid : route.remoteGuid = m.cid)
      (hlive : route.session ∉ s.expired) (hmoves : key ≠ env.key d.source)
      (hroutes : t.routes =
        Keyed.rekey s.routes key (env.key d.source) { route with peer := d.source })
      (hidentity : ∀ i, t.identity i = s.identity i) (hnext : t.nextSession = s.nextSession)
      (hexpired : t.expired = s.expired) (hsecret : t.secret = s.rotated env now) :
      Change env s (.datagram d now order) t
  | reaped {t : Server Secret Cookie}
      (hroutes : t.routes = s.routes.filter fun _ route => decide (route.session ∉ s.expired))
      (hidentity : ∀ i, t.identity i = s.identity i) (hnext : t.nextSession = s.nextSession)
      (hexpired : t.expired = s.expired) : Change env s .accept t
  | expired {t : Server Secret Cookie} (session : Nat) (hsession : (s.identity session).isSome)
      (hroutes : t.routes = s.routes) (hidentity : ∀ i, t.identity i = s.identity i)
      (hnext : t.nextSession = s.nextSession) (hexpired : t.expired = session :: s.expired) :
      Change env s (.expire session) t

theorem identity_openSession (env : ServerContext Secret Cookie) (s : Server Secret Cookie)
    (source : Endpoint) (r : OpenConnectionRequest2 Cookie) (i : Nat) :
    (s.openSession env source r).identity i =
      if i = s.nextSession then some ⟨newConnection env source r, source, r.mtu⟩
      else s.identity i := by
  show (s.sessions.insert s.nextSession _)[i]?.map _ = _
  by_cases hi : i = s.nextSession
  · subst hi
    rw [Std.ExtTreeMap.getElem?_insert_self, if_pos rfl]
    rfl
  · rw [Keyed.getElem?_insert_of_ne (Ne.symm hi), if_neg hi]
    rfl

/-- **What a step does to routes and sessions.** -/
theorem change_of_step [DecidableEq Cookie] {env : ServerContext Secret Cookie}
    {s t : Server Secret Cookie} {e : ServerEvent Cookie} (h : (server env).step s e = some t) :
    Change env s e t := by
  rcases step_cases h with ⟨d, now, order, p, rfl, ⟨admission, sourceRate, rfl⟩, houtcome⟩ | hquiet
  · cases houtcome with
    | idle
    | challenged cid | mismatched version | answered
    | repeated r | refused r | responded m => exact .same rfl (fun _ => rfl) rfl rfl
    | pushed session =>
      refine .same rfl (fun i => identity_modify s (fun x => ?_) session i) rfl rfl
      split
      · rfl
      · rfl
    | opened r hr hnone hroom =>
      exact .opened d now order r hr hnone hroom rfl
        (fun i => identity_openSession env s d.source r i) rfl rfl rfl
    | migrated m hm key route hroute hcid hlive hmoves =>
      refine .moved d now order m hm key route hroute hcid hlive hmoves rfl
        (fun i => identity_modify s (fun x => ?_) route.session i) rfl rfl rfl
      rfl
  · cases hquiet with
    | skipped | transmitted session size x => exact .same rfl (fun _ => rfl) rfl rfl
    | accepted =>
      rw [accept_eq]
      exact .reaped rfl (fun _ => rfl) rfl rfl
    | expired session hsession =>
      refine .expired session ?_ rfl (fun _ => rfl) rfl rfl
      rw [identity, Option.isSome_map]
      rwa [Std.ExtTreeMap.contains_eq_isSome_getElem?] at hsession
    | applied session | drained session =>
      refine .same rfl (fun i => identity_modify s (fun x => ?_) session i) rfl rfl
      rfl

/-! ## What holds in every run -/

structure Sound (env : ServerContext Secret Cookie) (s : Server Secret Cookie) : Prop where
  known : ∀ i, (s.identity i).isSome ↔ i < s.nextSession
  expired : ∀ i ∈ s.expired, i < s.nextSession
  owned : ∀ (key : List UInt8) (route : Route), s.routes[key]? = some route →
    ∃ x, s.identity route.session = some x ∧ x.connection.remoteGuid = route.remoteGuid
  distinct : Keyed.Distinct Route.session s.routes
  room : 0 < env.options.maxConnections → (s.routes.size : Int) ≤ env.options.maxConnections

theorem sound_new (env : ServerContext Secret Cookie) (admission : AdmissionControl) (start : Int) :
    Sound env (new env admission start) where
  known i := by simp [new, identity]
  expired i hi := by cases hi
  owned key route h := by simp [new] at h
  distinct := Keyed.distinct_empty
  room h := by
    have : ((new env admission start).routes.size : Int) = 0 := rfl
    omega

variable {env : ServerContext Secret Cookie} {s t : Server Secret Cookie} {e : ServerEvent Cookie}

variable {key : List UInt8} {route : Route} {admission : AdmissionControl} {start now : Int}
  {es : List (ServerEvent Cookie)} {d : Received Cookie} {order : List (List UInt8)}
  {m : ZDTPathMessage Cookie} {r : OpenConnectionRequest2 Cookie}

theorem Sound.session_lt (h : Sound env s) (hroute : s.routes[key]? = some route) :
    route.session < s.nextSession := by
  obtain ⟨x, hidentity, -⟩ := h.owned key route hroute
  exact (h.known _).1 (by rw [hidentity]; rfl)

theorem Sound.change (h : Sound env s) (hchange : Change env s e t) : Sound env t := by
  cases hchange with
  | same hroutes hidentity hnext hexpired =>
    constructor
    · simpa only [hidentity, hnext] using h.known
    · simpa only [hexpired, hnext] using h.expired
    · simpa only [hroutes, hidentity] using h.owned
    · simpa only [hroutes] using h.distinct
    · simpa only [hroutes] using h.room
  | opened d now order r hr hnone hroom hroutes hidentity hnext hexpired =>
    constructor
    · intro i
      rw [hidentity, hnext]
      split
      · simp [*]
      · rw [h.known]
        omega
    · intro i hi
      rw [hexpired] at hi
      rw [hnext]
      exact Nat.lt_succ_of_lt (h.expired i hi)
    · intro key route hroute
      rw [hroutes] at hroute
      rcases Keyed.getElem?_insert_cases hroute with ⟨rfl, rfl⟩ | ⟨-, hroute⟩
      · exact ⟨_, by rw [hidentity, if_pos rfl], rfl⟩
      · rw [hidentity, if_neg (h.session_lt hroute).ne]
        exact h.owned key route hroute
    · rw [hroutes]
      refine h.distinct.insert fun key route hroute hsession => ?_
      exact absurd hsession (h.session_lt hroute).ne
    · intro hmax
      have hinsert := Std.ExtTreeMap.size_insert_le (t := s.routes) (k := env.key d.source)
        (v := ⟨s.nextSession, d.source, r.clientGuid⟩)
      have := hroom hmax
      rw [hroutes]
      omega
  | moved d now order m hm key route hroute hcid hlive hmoves hroutes hidentity hnext hexpired =>
    constructor
    · simpa only [hidentity, hnext] using h.known
    · simpa only [hexpired, hnext] using h.expired
    · intro key₁ route₁ hroute₁
      rw [hroutes] at hroute₁
      rw [hidentity]
      rcases Keyed.getElem?_rekey_cases hroute₁ with ⟨-, rfl⟩ | ⟨-, -, hroute₁⟩
      · exact h.owned key route hroute
      · exact h.owned key₁ route₁ hroute₁
    · rw [hroutes]
      refine h.distinct.rekey hroute ?_ _
      rfl
    · intro hmax
      have hsize := Keyed.size_rekey_le hroute (env.key d.source) { route with peer := d.source }
      have := h.room hmax
      rw [hroutes]
      omega
  | reaped hroutes hidentity hnext hexpired =>
    constructor
    · simpa only [hidentity, hnext] using h.known
    · simpa only [hexpired, hnext] using h.expired
    · intro key route hroute
      rw [hroutes] at hroute
      rw [hidentity]
      exact h.owned key route (Keyed.getElem?_filter_some.1 hroute).1
    · rw [hroutes]
      exact h.distinct.filter _
    · intro hmax
      have hsize := Std.ExtTreeMap.size_filter_le_size (t := s.routes)
        (f := fun _ route => decide (route.session ∉ s.expired))
      have := h.room hmax
      rw [hroutes]
      omega
  | expired session hsession hroutes hidentity hnext hexpired =>
    constructor
    · simpa only [hidentity, hnext] using h.known
    · intro i hi
      rw [hexpired] at hi
      rw [hnext]
      rcases List.mem_cons.1 hi with rfl | hi
      · exact (h.known _).1 hsession
      · exact h.expired i hi
    · simpa only [hroutes, hidentity] using h.owned
    · simpa only [hroutes] using h.distinct
    · simpa only [hroutes] using h.room

/-- Where an entry after a step comes from. -/
inductive Arrival (env : ServerContext Secret Cookie) (s t : Server Secret Cookie)
    (key : List UInt8) (route : Route) : ServerEvent Cookie → Prop
  | stayed {e : ServerEvent Cookie} (hroute : s.routes[key]? = some route) :
      Arrival env s t key route e
  | opened (d : Received Cookie) (now : Int) (order : List (List UInt8))
      (r : OpenConnectionRequest2 Cookie) (hr : Presents env (s.rotated env now) d r)
      (hkey : env.key d.source = key) (hsession : route.session = s.nextSession)
      (hsecret : t.secret = s.rotated env now) : Arrival env s t key route (.datagram d now order)
  | moved (d : Received Cookie) (now : Int) (order : List (List UInt8))
      (m : ZDTPathMessage Cookie) (hm : Responds env (s.rotated env now) d m)
      (hkey : env.key d.source = key) (old : List UInt8) (route' : Route)
      (hroute : s.routes[old]? = some route') (hcid : route'.remoteGuid = m.cid)
      (hsession : route.session = route'.session) (hsecret : t.secret = s.rotated env now) :
      Arrival env s t key route (.datagram d now order)

theorem Change.arrival (h : Change env s e t) (hroute : t.routes[key]? = some route) :
    Arrival env s t key route e := by
  cases h with
  | same hroutes | expired session hsession hroutes => exact .stayed (by rw [← hroutes, hroute])
  | opened d now order r hr hnone hroom hroutes hidentity hnext hexpired hsecret =>
    rw [hroutes] at hroute
    rcases Keyed.getElem?_insert_cases hroute with ⟨hkey, rfl⟩ | ⟨-, hroute⟩
    · exact .opened d now order r hr hkey rfl hsecret
    · exact .stayed hroute
  | moved d now order m hm old route' hroute' hcid hlive hmoves hroutes hidentity hnext hexpired
      hsecret =>
      rw [hroutes] at hroute
      rcases Keyed.getElem?_rekey_cases hroute with ⟨hkey, rfl⟩ | ⟨-, -, hroute⟩
      · exact .moved d now order m hm hkey old route' hroute' hcid rfl hsecret
      · exact .stayed hroute
  | reaped hroutes =>
    rw [hroutes] at hroute
    exact .stayed (Keyed.getElem?_filter_some.1 hroute).1

theorem sound_of_run [DecidableEq Cookie]
    (h : (server env).exec (new env admission start) es = some s) :
    Sound env s :=
  Machine.exec_invariant (server env) (I := Sound env)
    (fun _ _ _ hs hstep => hs.change (change_of_step hstep)) h (sound_new env admission start)

/-! ## Live sessions keep their routes -/

/-- The clients that completed a handshake have different guids. -/
def GuidsDistinct (s : Server Secret Cookie) : Prop :=
  ∀ i j x y, s.identity i = some x → s.identity j = some y →
    x.connection.remoteGuid = y.connection.remoteGuid → i = j

/-- Guids that are different later were different before. -/
theorem GuidsDistinct.before (h : GuidsDistinct t) (hs : Sound env s) (hchange : Change env s e t) :
    GuidsDistinct s := by
  have hkept : ∀ i x, s.identity i = some x → t.identity i = some x := by
    intro i x hx
    cases hchange with
    | same _ hidentity => rw [hidentity, hx]
    | opened d now order r _ _ _ _ hidentity =>
      have hlt : i < s.nextSession := (hs.known i).1 (by rw [hx]; rfl)
      rw [hidentity, if_neg hlt.ne, hx]
    | moved d now order m _ key route _ _ _ _ _ hidentity | reaped _ hidentity
    | expired session _ _ hidentity => rw [hidentity, hx]
  intro i j x y hx hy
  exact h i j x y (hkept i x hx) (hkept j y hy)

/-- Every session that has not expired has a route. -/
def Placed (s : Server Secret Cookie) : Prop :=
  ∀ i < s.nextSession, i ∉ s.expired →
    ∃ (key : List UInt8) (route : Route), s.routes[key]? = some route ∧ route.session = i

/-- Where a path response comes from that can move a session, no other session lives. -/
def untaken [DecidableEq Cookie] (env : ServerContext Secret Cookie) (s : Server Secret Cookie) :
    ServerEvent Cookie → Bool
  | .datagram d now _ =>
    match d.content with
    | .offline (.pathResponse (some m)) =>
      !env.options.enableConnectionMigration ||
        !verifyPathResponse env.hmac (s.rotated env now) (env.key d.source) m ||
        (s.routes.toList.all fun entry => decide (entry.2.remoteGuid ≠ m.cid)) ||
        (s.live (env.key d.source)).all fun route => decide (route.remoteGuid = m.cid)
    | _ => true
  | _ => true

theorem guid_of_untaken [DecidableEq Cookie] (h : untaken env s (.datagram d now order) = true)
    (hm : Responds env (s.rotated env now) d m) {route' : Route}
    (hmoved : s.routes[key]? = some route')
    (hcid : route'.remoteGuid = m.cid) (hroute : s.routes[env.key d.source]? = some route)
    (hlive : route.session ∉ s.expired) : route.remoteGuid = m.cid := by
  rw [untaken, hm.content] at h
  have hverify : verifyPathResponse env.hmac (s.rotated env now) (env.key d.source) m = true :=
    decide_eq_true hm.valid
  have hfound : s.live (env.key d.source) = some route := by
    rw [live, hroute, Option.filter_some, if_pos (decide_eq_true hlive)]
  have hknown : ¬ ∀ entry ∈ s.routes.toList, entry.2.remoteGuid ≠ m.cid := fun hnone =>
    hnone (key, route') (Std.ExtTreeMap.mem_toList_iff_getElem?_eq_some.2 hmoved) hcid
  simp only [hm.enabled, hverify, hfound, Bool.or_eq_true, List.all_eq_true, decide_eq_true_eq,
    Option.all_some, hknown, or_false, Bool.not_true, Bool.false_eq_true, false_or] at h
  exact h

/-- A migration leaves the entry of every other live session alone. -/
theorem moved_apart [DecidableEq Cookie] (hs : Sound env s) (hguids : GuidsDistinct s)
    (huntaken : untaken env s (.datagram d now order) = true)
    (hm : Responds env (s.rotated env now) d m) (hroute : s.routes[key]? = some route)
    (hcid : route.remoteGuid = m.cid) {key₁ : List UInt8} {route₁ : Route}
    (hroute₁ : s.routes[key₁]? = some route₁) (hlive₁ : route₁.session ∉ s.expired)
    (hne : key ≠ key₁) : env.key d.source ≠ key₁ := by
  rintro rfl
  have hcid₁ := guid_of_untaken huntaken hm hroute hcid hroute₁ hlive₁
  obtain ⟨x, hx, hguid⟩ := hs.owned key route hroute
  obtain ⟨x₁, hx₁, hguid₁⟩ := hs.owned _ route₁ hroute₁
  have hsame := hguids _ _ x x₁ hx hx₁ (by rw [hguid, hguid₁, hcid, hcid₁])
  exact hne (hs.distinct _ _ route route₁ hroute hroute₁ hsame)

/-- What a step leaves of a route whose session stays alive: the entry, or the entry of the
session as it migrates. -/
theorem route_kept [DecidableEq Cookie] (hs : Sound env s) (hguids : GuidsDistinct s)
    (huntaken : untaken env s e = true) (hchange : Change env s e t)
    (hroute : s.routes[key]? = some route) (hlive : route.session ∉ t.expired) :
    t.routes[key]? = some route ∨
      ∃ d now order m, e = .datagram d now order ∧ Responds env (s.rotated env now) d m ∧
        m.cid = route.remoteGuid ∧
        t.routes[env.key d.source]? = some { route with peer := d.source } := by
  cases hchange with
  | same hroutes | expired session hsession hroutes => exact .inl (by rw [hroutes, hroute])
  | opened d now order r hr hnone hroom hroutes hidentity hnext hexpired =>
    rw [hexpired] at hlive
    rw [hroutes, Keyed.getElem?_insert_of_ne, hroute]
    · exact .inl rfl
    · rintro rfl
      exact hlive (hnone route hroute)
  | moved d now order m hm key' route' hroute' hcid hlive' hmoves hroutes hidentity
    hnext hexpired =>
    rw [hexpired] at hlive
    by_cases hkey : key' = key
    · subst hkey
      obtain rfl : route' = route := Option.some.inj (hroute'.symm.trans hroute)
      refine .inr ⟨d, now, order, m, rfl, hm, hcid.symm, ?_⟩
      rw [hroutes, Keyed.getElem?_rekey_self]
    · have hapart := moved_apart hs hguids huntaken hm hroute' hcid hroute hlive hkey
      rw [hroutes, Keyed.getElem?_rekey_of_ne hkey hapart, hroute]
      exact .inl rfl
  | reaped hroutes hidentity hnext hexpired =>
    rw [hexpired] at hlive
    rw [hroutes]
    exact .inl (Keyed.getElem?_filter_some.2 ⟨hroute, decide_eq_true hlive⟩)

theorem Placed.change [DecidableEq Cookie] (h : Placed s) (hs : Sound env s)
    (hguids : GuidsDistinct s) (huntaken : untaken env s e = true) (hchange : Change env s e t) :
    Placed t := by
  -- a session that was there before still has its route, wherever it is now
  have hold : ∀ i < s.nextSession, i ∉ t.expired → i ∉ s.expired →
      ∃ (key : List UInt8) (route : Route), t.routes[key]? = some route ∧ route.session = i := by
    intro i hi hlive hlive'
    obtain ⟨key, route, hroute, rfl⟩ := h i hi hlive'
    rcases route_kept hs hguids huntaken hchange hroute hlive with
      hkept | ⟨d, _, _, _, _, _, _, hmoved⟩
    · exact ⟨key, route, hkept, rfl⟩
    · exact ⟨_, _, hmoved, rfl⟩
  intro i hi hlive
  cases hchange with
  | same hroutes hidentity hnext hexpired
  | moved d now order m hm key route hroute hcid hlive' hmoves hroutes hidentity hnext hexpired
  | reaped hroutes hidentity hnext hexpired =>
    exact hold i (hnext ▸ hi) hlive (hexpired ▸ hlive)
  | opened d now order r hr hnone hroom hroutes hidentity hnext hexpired =>
    by_cases hnew : i = s.nextSession
    · subst hnew
      exact ⟨_, _, by rw [hroutes, Std.ExtTreeMap.getElem?_insert_self], rfl⟩
    · exact hold i (by omega) hlive (hexpired ▸ hlive)
  | expired session hsession hroutes hidentity hnext hexpired =>
    refine hold i (hnext ▸ hi) hlive fun hmem => hlive ?_
    rw [hexpired]
    exact List.mem_cons_of_mem _ hmem

/-- In a run where no session migrates onto another, every live session has its route. -/
theorem placed_of_run [DecidableEq Cookie]
    (hrun : GuardedRun (server env) (fun s e => untaken env s e = true)
      (new env admission start) es s) (hguids : GuidsDistinct s) : Placed s := by
  have hboth : Sound env s ∧ (GuidsDistinct s → Placed s) := by
    refine GuardedRun.invariant (I := fun s => Sound env s ∧ (GuidsDistinct s → Placed s)) ?_ hrun
      ⟨sound_new env admission start, fun _ i hi => absurd hi (Nat.not_lt_zero i)⟩
    rintro s e t ⟨hs, hplaced⟩ huntaken hstep
    have hchange := change_of_step hstep
    refine ⟨hs.change hchange, fun hguids => ?_⟩
    have hbefore := hguids.before hs hchange
    exact (hplaced hbefore).change hs hbefore huntaken hchange
  exact hboth.2 hguids

/-- **Routes of live sessions.**  In a run whose clients have different guids and in which no
valid path response comes from an address where another session lives: every session that has
not expired has exactly one route; no two routes hold one session; there are no more routes
than connections are allowed; and what a further step does to the route of a session that stays
alive is nothing, or to take it, unchanged but for the address, where its own path response came
from. -/
theorem routes_of_live_sessions [DecidableEq Cookie] {admission : AdmissionControl} {start : Int}
    {es : List (ServerEvent Cookie)}
    (hrun : GuardedRun (server env) (fun s e => untaken env s e = true)
      (new env admission start) es s) (hguids : GuidsDistinct s) :
    (∀ i x, s.sessions[i]? = some x → i ∉ s.expired →
      ∃! key : List UInt8, ∃ route : Route, s.routes[key]? = some route ∧ route.session = i) ∧
    (∀ (key key' : List UInt8) (route route' : Route), s.routes[key]? = some route →
      s.routes[key']? = some route' → route.session = route'.session → key = key') ∧
    (0 < env.options.maxConnections → (s.routes.size : Int) ≤ env.options.maxConnections) ∧
    ∀ e t, untaken env s e = true → (server env).step s e = some t →
      ∀ (key : List UInt8) (route : Route), s.routes[key]? = some route →
        route.session ∉ t.expired →
        t.routes[key]? = some route ∨
          ∃ d now order m, e = .datagram d now order ∧ Responds env (s.rotated env now) d m ∧
            m.cid = route.remoteGuid ∧
            t.routes[env.key d.source]? = some { route with peer := d.source } := by
  have hs := sound_of_run hrun.exec
  have hplaced := placed_of_run hrun hguids
  refine ⟨fun i x hx hlive => ?_, hs.distinct, hs.room,
    fun e t huntaken hstep key route hroute hlive =>
    route_kept hs hguids huntaken (change_of_step hstep) hroute hlive⟩
  have hi : i < s.nextSession := (hs.known i).1 (by rw [identity, hx]; rfl)
  obtain ⟨key, route, hroute, rfl⟩ := hplaced i hi hlive
  refine ⟨key, ⟨route, hroute, rfl⟩, ?_⟩
  rintro key' ⟨route', hroute', hsession⟩
  exact hs.distinct key' key route' route hroute' hroute hsession

/-- Where there is one session, there is one guid. -/
theorem GuidsDistinct.of_one (hs : Sound env s) (hone : s.nextSession = 1) : GuidsDistinct s := by
  intro i j x y hx hy _
  have hi := (hs.known i).1 (by rw [hx]; rfl)
  have hj := (hs.known j).1 (by rw [hy]; rfl)
  omega

/-- A client joins, moves to another address and proves it: its session has one route. -/
theorem routes_of_live_sessions_roaming :
    ∃ s, GuardedRun (server (sample { enableConnectionMigration := true }))
        (fun s e => untaken (sample { enableConnectionMigration := true }) s e = true)
        (new (sample { enableConnectionMigration := true }) {} 0)
        [sampleProbe sampleHome 1464, sampleJoin sampleHome 1 1464, sampleRove sampleAway 1,
          sampleAnswer sampleAway 1] s ∧
      ∃! key : List UInt8, ∃ route : Route, s.routes[key]? = some route ∧ route.session = 0 := by
  apply GuardedRun.exists_run (P := fun s => s.nextSession = 1 ∧ s.expired = [] ∧
    s.sessions[0]?.isSome = true) (by decide +kernel)
  rintro s hguarded ⟨hnext, hexpired, hsession⟩
  obtain ⟨x, hx⟩ := Option.isSome_iff_exists.1 hsession
  refine (routes_of_live_sessions hguarded ?_).1 0 x hx ?_
  · exact GuidsDistinct.of_one (sound_of_run hguarded.exec) hnext
  · rw [hexpired]
    exact List.not_mem_nil

/-- **A migration onto a neighbour.**  A second client joins from the address the first one is
being challenged at; the first one's response then takes the entry, and the second session is
alive without a route. -/
theorem migration_replaces_neighbour :
    ((server (sample { enableConnectionMigration := true })).exec
        (new (sample { enableConnectionMigration := true }) {} 0)
        [sampleProbe sampleHome 1464, sampleJoin sampleHome 1 1464, sampleRove sampleAway 1,
          sampleProbe sampleAway 1464, sampleJoin sampleAway 2 1464, sampleAnswer sampleAway 1]).map
        (fun s => (s.sessions.toList.map fun entry => (entry.1, entry.2.connection.remoteGuid),
          s.expired, s.routes.toList.map fun entry => entry.2.session)) =
      some ([(0, 1), (1, 2)], [], [0]) := by
  decide +kernel

/-! ## What a Reply2 says -/

/-- A Request2 asks for what there is: the session that lives at its source, if one does, and
otherwise a session with an MTU that the client names. -/
def Asks (env : ServerContext Secret Cookie) (s : Server Secret Cookie) (source : Endpoint)
    (r : OpenConnectionRequest2 Cookie) : Prop :=
  match s.live (env.key source) with
  | some route => ∃ x, s.sessions[route.session]? = some x ∧
      x.connection.remoteGuid = r.clientGuid ∧ x.connection.mtu = r.mtu
  | none => r.mtu ≠ 0 ∨ zdtPayloadForLinkMTU env.options.mtuLadder.back source.ipv = 0

theorem live_of_expired (h : ∀ route, s.routes[key]? = some route → route.session ∈ s.expired) :
    s.live key = none := by
  by_contra hsome
  obtain ⟨route, hroute, hlive⟩ := live_isSome.1 (Option.isSome_iff_ne_none.2 hsome)
  exact hlive (h route hroute)

theorem sessionMtu_eq_iff (env : ServerContext Secret Cookie) (source : Endpoint)
    (r : OpenConnectionRequest2 Cookie) :
    sessionMtu env source r = r.mtu ↔
      r.mtu ≠ 0 ∨ zdtPayloadForLinkMTU env.options.mtuLadder.back source.ipv = 0 := by
  unfold sessionMtu
  by_cases hmtu : r.mtu = 0
  · rw [if_neg (not_not_intro hmtu), hmtu]
    simp
  · rw [if_pos hmtu]
    exact iff_of_true rfl (.inl hmtu)

theorem Presents.unique {secret : CookieSecret Secret} {r' : OpenConnectionRequest2 Cookie}
    (h : Presents env secret d r') (hrequest : d.content = .offline (.request2 (some r))) :
    r' = r := by
  have hcontent := h.content
  rw [hrequest] at hcontent
  cases hcontent
  rfl

/-- **When a Reply2 means a session.**  In every run: where a Request2 is answered by a Reply2,
there is then, under the address it came from, a live session with the client's guid and with the
MTU the reply names, exactly if the Request2 asked for what there was. -/
theorem reply2_means_session_iff [DecidableEq Cookie] {admission : AdmissionControl} {start : Int}
    {es : List (ServerEvent Cookie)}
    (hrun : (server env).exec (new env admission start) es = some s)
    {d : Received Cookie} {now : Int} {order : List (List UInt8)}
    {r : OpenConnectionRequest2 Cookie} (hrequest : d.content = .offline (.request2 (some r)))
    (hstep : (server env).step s (.datagram d now order) = some t) {serverGuid : BitVec 64}
    {external : Endpoint} {mtu : BitVec 16} {rotation : Nat}
    (hreply : t.sent = ⟨d.source, .reply2 serverGuid external mtu, rotation⟩ :: s.sent) :
    (∃ (route : Route) (x : ServerSession Cookie), t.routes[env.key d.source]? = some route ∧
        route.session ∉ t.expired ∧ t.sessions[route.session]? = some x ∧
        x.connection.remoteGuid = r.clientGuid ∧ x.connection.mtu = mtu) ↔
      Asks env s d.source r := by
  have hs := sound_of_run hrun
  have hunsent : s.sent ≠ ⟨d.source, .reply2 serverGuid external mtu, rotation⟩ :: s.sent :=
    fun h => absurd (congrArg List.length h) (by simp)
  rcases step_cases hstep with
    ⟨d', now', order', p, heq, ⟨admission, sourceRate, rfl⟩, houtcome⟩ | hquiet
  · obtain ⟨rfl, rfl, rfl⟩ := ServerEvent.datagram.inj heq
    cases houtcome with
    | idle | pushed session => exact absurd hreply hunsent
    | challenged cid hcontent | mismatched version hcontent
    | answered hcontent => cases hrequest.symm.trans hcontent
    | refused r' hr => simp [send, prove] at hreply
    | responded m hm | migrated m hm => cases hrequest.symm.trans hm.content
    | repeated r' hr route hroute hlive =>
      obtain rfl := hr.unique hrequest
      obtain rfl : r'.mtu = mtu := by
        simp only [send, prove, List.cons.injEq, Sent.mk.injEq, Reply.reply2.injEq] at hreply
        exact hreply.1.2.1.2.2
      have hfound : s.live (env.key d.source) = some route := by
        rw [live, hroute, Option.filter_some, if_pos (decide_eq_true hlive)]
      rw [Asks, hfound]
      constructor
      · rintro ⟨route', x, hroute', -, hx, hsame⟩
        obtain rfl : route = route' := Option.some.inj (hroute.symm.trans hroute')
        exact ⟨x, hx, hsame⟩
      · rintro ⟨x, hx, hsame⟩
        exact ⟨route, x, hroute, hlive, hx, hsame⟩
    | opened r' hr hnone hroom =>
      obtain rfl := hr.unique hrequest
      obtain rfl : r'.mtu = mtu := by
        simp only [send, prove, openSession, List.cons.injEq, Sent.mk.injEq, Reply.reply2.injEq]
          at hreply
        exact hreply.1.2.1.2.2
      have hdead : s.live (env.key d.source) = none := live_of_expired hnone
      rw [Asks, hdead]
      simp only [← sessionMtu_eq_iff]
      simp only [send, prove, openSession, Std.ExtTreeMap.getElem?_insert_self]
      constructor
      · rintro ⟨route, x, hroute, -, hx, -, hmtu⟩
        obtain rfl := Option.some.inj hroute
        rw [Std.ExtTreeMap.getElem?_insert_self] at hx
        obtain rfl := Option.some.inj hx
        exact hmtu
      · intro hmtu
        refine ⟨_, _, rfl, fun hmem => ?_, Std.ExtTreeMap.getElem?_insert_self, rfl, hmtu⟩
        exact absurd (hs.expired _ hmem) (lt_irrefl _)
  · cases hquiet
    exact absurd hreply hunsent

/-- A first Request2, with the MTU it was told. -/
theorem reply2_means_session_iff_first :
    ∃ s t, (server (sample {})).exec (new (sample {}) {} 0) [sampleProbe sampleHome 1464] = some s ∧
      (server (sample {})).step s (sampleJoin sampleHome 1 1464) = some t ∧
      ∃ (route : Route) (x : ServerSession (Nat × List UInt8)),
        t.routes[(sample {}).key sampleHome]? = some route ∧ route.session ∉ t.expired ∧
        t.sessions[route.session]? = some x ∧ x.connection.remoteGuid = 1 ∧
        x.connection.mtu = 1464 := by
  apply Machine.exists_exec_step (P := fun s t => s.live ((sample {}).key sampleHome) = none ∧
    t.sent = ⟨sampleHome, .reply2 99 sampleHome 1464, 0⟩ :: s.sent) (by decide +kernel)
  intro s t hs ht hfacts
  apply (reply2_means_session_iff hs rfl ht hfacts.2).2
  simp only [Asks, hfacts.1]
  exact .inl (by decide)

/-- **A client that starts again.**  A new client at the address of a live session, with its own
guid, gets a Reply2; the session there is still the old one's. -/
theorem reply2_for_previous_session :
    ((server (sample {})).exec (new (sample {}) {} 0)
        [sampleProbe sampleHome 1464, sampleJoin sampleHome 1 1464,
          sampleJoin sampleHome 2 1464]).map
        (fun s => (s.sent.head?,
          (s.live ((sample {}).key sampleHome)).bind fun route =>
            s.sessions[route.session]?.map fun x => x.connection.remoteGuid)) =
      some (some ⟨sampleHome, .reply2 99 sampleHome 1464, 0⟩, some 1) := by
  decide +kernel

/-! ## The MTU of a session -/

/-- A Request1 of at least a size came from an address. -/
def Probed (s : Server Secret Cookie) (a : Endpoint) (size : Nat) : Prop :=
  ∃ d ∈ s.received, d.source = a ∧ (∃ version, d.content = .offline (.request1 version)) ∧
    size ≤ d.size

/-- A Request2 that opens a session names no larger MTU than a Reply1 named to its source; or it
names none, and the bottom of the ladder is not above the top. -/
def echoed [DecidableEq Cookie] (env : ServerContext Secret Cookie) (s : Server Secret Cookie) :
    ServerEvent Cookie → Bool
  | .datagram d now order =>
    match d.content with
    | .offline (.request2 (some r)) =>
      (((server env).step s (.datagram d now order)).any fun t => t.nextSession = s.nextSession) ||
        if r.mtu = 0 then
          decide (zdtPayloadForLinkMTU env.options.mtuLadder.back d.source.ipv ≤
            zdtPayloadForLinkMTU env.options.mtuLadder.front d.source.ipv)
        else
          s.sent.any fun x => decide (x.target = d.source) &&
            match x.message with
            | .reply1 _ mtu _ _ _ => decide (r.mtu ≤ mtu)
            | _ => false
    | _ => true
  | _ => true

/-- What an opened session's Request2 named, in a run where clients name no more than they were
told. -/
theorem named_of_echoed [DecidableEq Cookie] (h : echoed env s (.datagram d now order) = true)
    (hcontent : d.content = .offline (.request2 (some r)))
    (hstep : (server env).step s (.datagram d now order) = some t)
    (hnext : t.nextSession = s.nextSession + 1) :
    r.mtu = 0 ∧ zdtPayloadForLinkMTU env.options.mtuLadder.back d.source.ipv ≤
        zdtPayloadForLinkMTU env.options.mtuLadder.front d.source.ipv ∨
      r.mtu ≠ 0 ∧ ∃ x ∈ s.sent, x.target = d.source ∧ ∃ serverGuid mtu cookie epoch cap,
        x.message = .reply1 serverGuid mtu cookie epoch cap ∧ r.mtu ≤ mtu := by
  have hopens : decide (t.nextSession = s.nextSession) = false := decide_eq_false (by omega)
  rw [echoed, hcontent] at h
  simp only [hstep, Option.any_some, hopens, Bool.false_or] at h
  split at h
  · next hzero => exact .inl ⟨hzero, of_decide_eq_true h⟩
  · next hmtu =>
    refine .inr ⟨hmtu, ?_⟩
    obtain ⟨x, hx, hmatch⟩ := List.any_eq_true.1 h
    rw [Bool.and_eq_true, decide_eq_true_eq] at hmatch
    obtain ⟨htarget, hmessage⟩ := hmatch
    refine ⟨x, hx, htarget, ?_⟩
    split at hmessage
    · next serverGuid mtu cookie epoch cap heq =>
      exact ⟨serverGuid, mtu, cookie, epoch, cap, heq, of_decide_eq_true hmessage⟩
    · cases hmessage

/-- An MTU that was told to an address was probed from there. -/
def Told (env : ServerContext Secret Cookie) (s : Server Secret Cookie) (x : Sent Cookie) : Prop :=
  ∀ serverGuid mtu cookie epoch cap, x.message = .reply1 serverGuid mtu cookie epoch cap →
    mtu ≤ zdtPayloadForLinkMTU env.options.mtuLadder.front x.target.ipv ∧
      Probed s x.target mtu.toNat

/-- And so was the MTU of a session, unless its client named none. -/
def Given (env : ServerContext Secret Cookie) (s : Server Secret Cookie) (x : Identity) : Prop :=
  x.connection.mtu ≤ zdtPayloadForLinkMTU env.options.mtuLadder.front x.address.ipv ∧
    (Probed s x.address x.connection.mtu.toNat ∨
      x.named = 0 ∧
        x.connection.mtu = zdtPayloadForLinkMTU env.options.mtuLadder.back x.address.ipv)

structure MtuEarned (env : ServerContext Secret Cookie) (s : Server Secret Cookie) : Prop where
  told : ∀ x ∈ s.sent, Told env s x
  given : ∀ i x, s.identity i = some x → Given env s x

theorem toNat_probedMtu (env : ServerContext Secret Cookie) (source : Endpoint) (size : Nat) :
    (probedMtu env source size).toNat =
      min size (zdtPayloadForLinkMTU env.options.mtuLadder.front source.ipv).toNat := by
  have hlt := (zdtPayloadForLinkMTU env.options.mtuLadder.front source.ipv).isLt
  rw [probedMtu, BitVec.toNat_ofNat]
  exact Nat.mod_eq_of_lt (by omega)

theorem Probed.mono {a : Endpoint} {size : Nat} (h : Probed s a size)
    (hreceived : s.received <:+ t.received) : Probed t a size := by
  obtain ⟨d, hd, hsource⟩ := h
  exact ⟨d, hreceived.subset hd, hsource⟩

theorem Told.mono {x : Sent Cookie} (h : Told env s x) (hreceived : s.received <:+ t.received) :
    Told env t x := by
  intro serverGuid mtu cookie epoch cap hmessage
  obtain ⟨hle, hprobed⟩ := h serverGuid mtu cookie epoch cap hmessage
  exact ⟨hle, hprobed.mono hreceived⟩

theorem Emission.received (h : Emission env s e t) : s.received <:+ t.received := by
  cases h with
  | silent hgrows => exact hgrows.received
  | said d now order message hsaid hsecret hreceived =>
    rw [hreceived]
    exact List.suffix_cons _ _
  | welcomed hgrows => exact hgrows.received
  | transmitted => exact List.suffix_rfl

theorem MtuEarned.told_step (h : MtuEarned env s) (hemission : Emission env s e t) :
    ∀ x ∈ t.sent, Told env t x := by
  have hold : ∀ x ∈ s.sent, Told env t x := fun x hx => (h.told x hx).mono hemission.received
  intro x hx
  cases hemission with
  | silent hgrows hsent =>
    rw [hsent] at hx
    exact hold x hx
  | said d now order message hsaid hsecret hreceived hproven hsent =>
    rw [hsent] at hx
    rcases List.mem_cons.1 hx with rfl | hx
    · intro serverGuid mtu cookie epoch cap hmessage
      cases hsaid with
      | challenge cid | mismatch version => cases hmessage
      | reply1 cap' hcontent =>
        cases hmessage
        have hmtu := toNat_probedMtu env d.source d.size
        constructor
        · rw [BitVec.le_def, hmtu]
          exact Nat.min_le_right _ _
        · refine ⟨d, by rw [hreceived]; exact List.mem_cons_self, rfl, ⟨_, hcontent⟩, ?_⟩
          rw [hmtu]
          exact Nat.min_le_left _ _
    · exact hold x hx
  | welcomed hgrows target message hcookie htarget hsent =>
    rw [hsent] at hx
    rcases List.mem_cons.1 hx with rfl | hx
    · intro serverGuid mtu cookie epoch cap hmessage
      rw [show message = _ from hmessage] at hcookie
      cases hcookie
    · exact hold x hx
  | transmitted session size y hy =>
    rcases List.mem_cons.1 hx with rfl | hx
    · intro serverGuid mtu cookie epoch cap hmessage
      cases hmessage
    · exact hold x hx

theorem MtuEarned.step [DecidableEq Cookie] (h : MtuEarned env s) (hechoed : echoed env s e = true)
    (hstep : (server env).step s e = some t) : MtuEarned env t := by
  have hemission := emission_of_step hstep
  refine ⟨h.told_step hemission, fun i x hx => ?_⟩
  have hold : ∀ x, s.identity i = some x → Given env t x := by
    intro x hx
    obtain ⟨hle, hgiven⟩ := h.given i x hx
    exact ⟨hle, hgiven.imp_left fun hprobed => hprobed.mono hemission.received⟩
  cases change_of_step hstep with
  | same _ hidentity
  | moved d now order m _ key route _ _ _ _ _ hidentity
  | reaped _ hidentity | expired session _ _ hidentity => exact hold x (by rw [← hidentity, hx])
  | opened d now order r hr hnone hroom hroutes hidentity hnext =>
    rw [hidentity] at hx
    split at hx
    · cases hx
      rcases named_of_echoed hechoed hr.content hstep hnext with
        ⟨hzero, hladder⟩ | ⟨hmtu, y, hy, htarget, _, mtu, _, _, _, hmessage, hle⟩
      · have hsession : (newConnection env d.source r).mtu =
            zdtPayloadForLinkMTU env.options.mtuLadder.back d.source.ipv :=
          if_neg (not_not_intro hzero)
        rw [Given, hsession]
        exact ⟨hladder, .inr ⟨hzero, rfl⟩⟩
      · have hsession : (newConnection env d.source r).mtu = r.mtu := if_pos hmtu
        obtain ⟨hcap, probe, hprobe, hsource, hcontent, hsize⟩ :=
          (h.told y hy).mono hemission.received _ _ _ _ _ hmessage
        rw [Given, hsession, ← htarget]
        exact ⟨BitVec.le_trans hle hcap, .inl ⟨probe, hprobe, hsource, hcontent,
          (BitVec.le_def.1 hle).trans hsize⟩⟩
    · exact hold x hx

/-- **The session MTU is earned.**  In a run where every Request2 that opens a session names no
more than a Reply1 named to its source, or none under a ladder in order, every session's MTU is at
most what the top of the ladder leaves, and at most the size of a Request1 that came from its
address, unless its client named none and got what the bottom leaves. -/
theorem session_mtu_earned [DecidableEq Cookie] {admission : AdmissionControl} {start : Int}
    {es : List (ServerEvent Cookie)}
    (hrun : GuardedRun (server env) (fun s e => echoed env s e = true)
      (new env admission start) es s)
    (i : Nat) (x : ServerSession Cookie) (hx : s.sessions[i]? = some x) :
    x.connection.mtu ≤ zdtPayloadForLinkMTU env.options.mtuLadder.front x.address.ipv ∧
      ((∃ d ∈ s.received, d.source = x.address ∧
          (∃ version, d.content = .offline (.request1 version)) ∧ x.connection.mtu.toNat ≤ d.size) ∨
        x.named = 0 ∧
          x.connection.mtu = zdtPayloadForLinkMTU env.options.mtuLadder.back x.address.ipv) := by
  have hstart : MtuEarned env (new env admission start) := by
    refine ⟨fun x hx => (by cases hx), fun i x hx => ?_⟩
    simp [new, identity] at hx
  have hearned := GuardedRun.invariant (I := MtuEarned env)
    (fun _ _ _ hs hechoed hstep => hs.step hechoed hstep) hrun hstart
  exact hearned.given i (.of x) (by rw [identity, hx]; rfl)

/-- A client that names what it was told. -/
theorem session_mtu_earned_honest :
    ∃ s x, GuardedRun (server (sample {})) (fun s e => echoed (sample {}) s e = true)
        (new (sample {}) {} 0) [sampleProbe sampleHome 600, sampleJoin sampleHome 1 600] s ∧
      s.sessions[0]? = some x ∧
      x.connection.mtu ≤
        zdtPayloadForLinkMTU (sample {}).options.mtuLadder.front x.address.ipv := by
  have hrun : (((server (sample {})).guard (echoed (sample {}))).exec (new (sample {}) {} 0)
        [sampleProbe sampleHome 600, sampleJoin sampleHome 1 600]).map
        (fun s => s.sessions[0]?.isSome) = some true := by
    decide +kernel
  obtain ⟨s, hrun, hsession⟩ := Option.map_eq_some_iff.1 hrun
  obtain ⟨x, hx⟩ := Option.isSome_iff_exists.1 hsession
  have hguarded := GuardedRun.of_guard (fun _ _ h => h) hrun
  exact ⟨s, x, hguarded, hx, (session_mtu_earned hguarded 0 x hx).1⟩

/-- **A client that names what it likes.**  A Request1 of 600 bytes, and a session whose MTU is
the largest there is. -/
theorem session_mtu_unchecked :
    ((server (sample {})).exec (new (sample {}) {} 0)
        [sampleProbe sampleHome 600, sampleJoin sampleHome 1 65535]).map
        (fun s => (s.received.map fun d => d.size, s.sessions[0]?.map fun x => x.connection.mtu)) =
      some ([49, 600], some 65535) := by
  decide +kernel

end Server
end Zdt
end Znet

import Znet.Inet.Admission
import Znet.Lib.Keyed
import Znet.Zdt.ClientHandshake

/-!
# The server backend

`ZDTServerBackend`: one socket, a table of routes from the text of an address to the session
behind it, and a handshake that keeps nothing until an address has proven itself.  A datagram
is handled under a lock, as one step; its bytes are taken apart by `readDatagram`, and the
steps below are given what that finds.  Secrets and cookies are of any types, as in
`Znet.Zdt.Cookie`.

A session is a number.  It lives until its owner lets go of it, which is the environment's
choice, and never while it waits in `pending_accept_`; its transport sends to the address it
knows, in datagrams of sizes that are the environment's too.  The clock is read once for each
datagram, and a walk over the hash table of routes visits them in any order.

* `Outcome`, `routeDatagram_outcome` — **everything a datagram can do**, case by case.
-/

namespace Znet
namespace Zdt

/-! ## State -/

/-- One second of the clock. -/
def second : Int := 1000000000

/-- The options the server reads. -/
structure ServerOptions where
  mtuLadder : MTULadder := .standard
  cookieSecretRotation : Int := 120 * second
  maxConnections : Int := 4096
  perSourceHandshakeRate : Int := 20
  enableConnectionMigration : Bool := false
  maxInboxDatagrams : Nat := 4096

/-- What does not change while the server runs. -/
structure ServerContext (Secret Cookie : Type) where
  options : ServerOptions := {}
  serverGuid : BitVec 64
  hmac : Secret → List UInt8 → Cookie
  random : Nat → Secret
  ntop : Ntop

/-- A datagram that arrived. -/
structure Received (Cookie : Type) where
  source : Endpoint
  size : Nat
  content : Content Cookie
  deriving DecidableEq

/-- A datagram that was handed to the socket. -/
structure Sent (Cookie : Type) where
  target : Endpoint
  message : Reply Cookie
  /-- How many times the secret had been replaced. -/
  rotation : Nat
  deriving DecidableEq

/-- A session, with what its transport knows. -/
structure ServerSession (Cookie : Type) where
  connection : Connected
  peer : Endpoint
  pendingPeer : Option Endpoint := none
  inbox : List (Received Cookie) := []
  /-- History: the address it was opened for. -/
  address : Endpoint
  /-- History: the MTU the client named. -/
  named : BitVec 16
  deriving DecidableEq

structure Route where
  session : Nat
  peer : Endpoint
  remoteGuid : BitVec 64
  deriving DecidableEq

structure SourceRate where
  count : Int := 0
  windowStart : Int := 0
  deriving DecidableEq

structure Server (Secret Cookie : Type) where
  secret : CookieSecret Secret
  admission : AdmissionControl := {}
  routes : Std.ExtTreeMap (List UInt8) Route compare := ∅
  pendingAccept : List Nat := []
  sourceRate : Std.ExtTreeMap (List UInt8) SourceRate compare := ∅
  sessions : Std.ExtTreeMap Nat (ServerSession Cookie) compare := ∅
  nextSession : Nat := 0
  /-- The sessions whose owner has let go of them. -/
  expired : List Nat := []
  /-- History: what was handed to the socket. -/
  sent : List (Sent Cookie) := []
  /-- History: what arrived. -/
  received : List (Received Cookie) := []
  /-- History: the addresses that returned a valid cookie. -/
  proven : List Endpoint := []

variable {Secret Cookie : Type}

/-- The key of an address in the table of routes. -/
def ServerContext.key (env : ServerContext Secret Cookie) (source : Endpoint) : List UInt8 :=
  source.readable env.ntop

theorem ServerContext.key_injective (env : ServerContext Secret Cookie) :
    Function.Injective env.key :=
  Endpoint.readable_injective env.ntop

/-! ## Path messages -/

/-- `MakePathChallenge`. -/
def makePathChallenge (hmac : Secret → List UInt8 → Cookie) (secret : CookieSecret Secret)
    (peerReadable : List UInt8) (cid : BitVec 64) : ZDTPathMessage Cookie where
  cid := cid
  epoch := secret.epoch
  cookie := secret.compute hmac (pathCookieKey peerReadable cid) secret.epoch

/-- `VerifyPathResponse`. -/
def verifyPathResponse [DecidableEq Cookie] (hmac : Secret → List UInt8 → Cookie)
    (secret : CookieSecret Secret) (peerReadable : List UInt8) (response : ZDTPathMessage Cookie) :
    Bool :=
  decide (response.cookie =
    secret.compute hmac (pathCookieKey peerReadable response.cid) response.epoch)

namespace Server

/-- The server as it is bound. -/
def new (env : ServerContext Secret Cookie) (admission : AdmissionControl) (now : Int) :
    Server Secret Cookie :=
  { secret := .new env.random now, admission }

variable (env : ServerContext Secret Cookie) (s : Server Secret Cookie)

/-- `SendTo`. -/
def send (target : Endpoint) (message : Reply Cookie) : Server Secret Cookie :=
  { s with sent := ⟨target, message, s.secret.rotations⟩ :: s.sent }

variable (source : Endpoint)

/-- A valid cookie came back from an address. -/
def prove : Server Secret Cookie :=
  { s with proven := source :: s.proven }

/-- A route whose session has not expired. -/
def live (key : List UInt8) : Option Route :=
  s.routes[key]?.filter fun route => decide (route.session ∉ s.expired)

/-- The routes as a walk over the table meets them, those of `order` first. -/
def walk (order : List (List UInt8)) : List (List UInt8 × Route) :=
  order.filterMap (fun key => s.routes[key]?.map (key, ·)) ++ s.routes.toList

/-! ## Handling a datagram -/

/-- `ZDTInbox::Push`, into the inbox of a session. -/
def push (session : Nat) (d : Received Cookie) : Server Secret Cookie :=
  { s with
    sessions := s.sessions.modify session fun x =>
      if env.options.maxInboxDatagrams ≤ x.inbox.length then x
      else { x with inbox := x.inbox ++ [d] } }

/-- When the table of rates is swept. -/
def pruneAt : Nat :=
  if 0 < env.options.maxConnections then env.options.maxConnections.toNat * 2 else 8192

/-- `AllowHandshake`. -/
def allowHandshake (key : List UInt8) (now : Int) : Bool × Server Secret Cookie :=
  let table :=
    if pruneAt env < s.sourceRate.size then
      s.sourceRate.filter fun _ entry => decide (now - entry.windowStart ≤ second)
    else s.sourceRate
  let entry := table.getD key {}
  let entry : SourceRate :=
    if entry.count = 0 ∨ second < now - entry.windowStart then ⟨0, now⟩ else entry
  let entry := { entry with count := entry.count + 1 }
  (decide (entry.count ≤ env.options.perSourceHandshakeRate),
    { s with sourceRate := table.insert key entry })

/-- `ChallengeNewPath`. -/
def challengeNewPath (cid : BitVec 64) (source : Endpoint) : Server Secret Cookie :=
  if s.routes.toList.any fun entry =>
      decide (entry.2.remoteGuid = cid ∧ entry.2.session ∉ s.expired) then
    s.send source (.pathChallenge (makePathChallenge env.hmac s.secret (env.key source) cid))
  else s

/-- A session's route goes to another key, and its transport is told. -/
def migrate (key : List UInt8) (route : Route) (source : Endpoint) : Server Secret Cookie :=
  { s with
    routes := Keyed.rekey s.routes key (env.key source) { route with peer := source }
    sessions := s.sessions.modify route.session fun x => { x with pendingPeer := some source } }

/-- `CompletePathMigration`. -/
def completePathMigration [DecidableEq Cookie]
    (response : ZDTPathMessage Cookie) (order : List (List UInt8)) : Server Secret Cookie :=
  if !verifyPathResponse env.hmac s.secret (env.key source) response then s
  else
    let s := s.prove source
    match (s.walk order).find? fun entry => decide (entry.2.remoteGuid = response.cid) with
    | none => s
    | some (key, route) =>
      if route.session ∈ s.expired then s
      else if key = env.key source then s
      else s.migrate env key route source

/-- What a Reply1 says of the path: the size that arrived, up to the top of the ladder. -/
def probedMtu (size : Nat) : BitVec 16 :=
  BitVec.ofNat 16 (min size (zdtPayloadForLinkMTU env.options.mtuLadder.front source.ipv).toNat)

/-- The answer to a Request1 of the right version. -/
def reply1 (size : Nat) : Reply Cookie :=
  .reply1 env.serverGuid (probedMtu env source size)
    (s.secret.compute env.hmac (env.key source) s.secret.epoch) s.secret.epoch
    (if env.options.enableConnectionMigration then kZDTCapMigration else 0)

/-- `HandleOffline`, a Request1. -/
def onRequest1 (size : Nat) (version : BitVec 8) (now : Int) : Server Secret Cookie :=
  let (verdict, admission) := s.admission.admitSource (.inet source) now
  let s := { s with admission }
  if verdict ≠ .allow then s
  else if version ≠ kZDTProtocolVersion then
    s.send source (.incompatibleProtocolVersion env.serverGuid)
  else s.send source (s.reply1 env source size)

variable (r : OpenConnectionRequest2 Cookie)

/-- The MTU of a session that is opened. -/
def sessionMtu : BitVec 16 :=
  if r.mtu ≠ 0 then r.mtu else zdtPayloadForLinkMTU env.options.mtuLadder.back source.ipv

/-- What a session that is opened starts from. -/
def newConnection : Connected where
  mtu := sessionMtu env source r
  localGuid := env.serverGuid
  remoteGuid := r.clientGuid
  migrationEnabled := env.options.enableConnectionMigration && hasFlag r.clientCap kZDTCapMigration

/-- A session, its route, and its place in the queue. -/
def openSession : Server Secret Cookie :=
  { s with
    routes := s.routes.insert (env.key source) ⟨s.nextSession, source, r.clientGuid⟩
    sessions := s.sessions.insert s.nextSession
      { connection := newConnection env source r, peer := source, address := source,
        named := r.mtu }
    nextSession := s.nextSession + 1
    pendingAccept := s.pendingAccept ++ [s.nextSession] }

/-- `HandleOffline`, a Request2 whose cookie has the right length. -/
def onRequest2 [DecidableEq Cookie] : Server Secret Cookie :=
  if r.cookie ≠ s.secret.compute env.hmac (env.key source) r.epoch then s
  else
    let s := s.prove source
    if (s.live (env.key source)).isSome then s.send source (.reply2 env.serverGuid source r.mtu)
    else if 0 < env.options.maxConnections ∧ env.options.maxConnections ≤ s.routes.size then
      s.send source (.noFreeConnections env.serverGuid)
    else (s.openSession env source r).send source (.reply2 env.serverGuid source r.mtu)

/-- `HandleOffline`. -/
def handleOffline [DecidableEq Cookie] (size : Nat)
    (m : OfflineMessage Cookie) (now : Int) (order : List (List UInt8)) : Server Secret Cookie :=
  if s.admission.screen (.inet source) ≠ .allow then s
  else
    let (allowed, s) := s.allowHandshake env (env.key source) now
    if !allowed then s
    else
      match m with
      | .pathResponse response =>
        if env.options.enableConnectionMigration then
          match response with
          | some response => s.completePathMigration env source response order
          | none => s
        else s
      | .request1 version => s.onRequest1 env source size version now
      | .request2 (some r) => s.onRequest2 env source r
      | .request2 none => s
      | .other _ => s

/-- `RouteDatagram`. -/
def routeDatagram [DecidableEq Cookie] (d : Received Cookie) (now : Int)
    (order : List (List UInt8)) : Server Secret Cookie :=
  let s :=
    { s with
      secret := s.secret.maybeRotate env.random env.options.cookieSecretRotation now
      received := d :: s.received }
  match d.content with
  | .online cid =>
    match s.routes[env.key d.source]? with
    | some route => s.push env route.session d
    | none =>
      match cid with
      | some cid =>
        if env.options.enableConnectionMigration then s.challengeNewPath env cid d.source
        else s
      | none => s
  | .offline m => s.handleOffline env d.source d.size m now order
  | .unreadable => s

/-! ## The other steps -/

/-- `Accept`: routes without a session are dropped, and the queue gives up its first. -/
def accept : Option Nat × Server Secret Cookie :=
  let s := { s with routes := s.routes.filter fun _ route => decide (route.session ∉ s.expired) }
  match s.pendingAccept with
  | [] => (none, s)
  | session :: rest => (some session, { s with pendingAccept := rest })

theorem accept_eq : s.accept.2 =
      { s with
        routes := s.routes.filter fun _ route => decide (route.session ∉ s.expired)
        pendingAccept := s.pendingAccept.tail } := by
  rw [accept]
  cases s with
  | mk secret admission routes pendingAccept =>
    cases pendingAccept with
    | nil => rfl
    | cons session rest => rfl

/-- The transport of a session takes the address it was told. -/
def applyPendingMigration (session : Nat) : Server Secret Cookie :=
  { s with
    sessions := s.sessions.modify session fun x =>
      { x with peer := x.pendingPeer.getD x.peer, pendingPeer := none } }

/-- The transport of a session takes what is in its inbox. -/
def drain (session : Nat) : Server Secret Cookie :=
  { s with sessions := s.sessions.modify session fun x => { x with inbox := [] } }

end Server

inductive ServerEvent (Cookie : Type) where
  /-- A datagram arrives; `order` is how the table of routes lies. -/
  | datagram (d : Received Cookie) (now : Int) (order : List (List UInt8))
  | accept
  /-- The owner of a session lets go of it. -/
  | expire (session : Nat)
  | applyPendingMigration (session : Nat)
  | drain (session : Nat)
  /-- The transport of a session sends. -/
  | transmit (session : Nat) (size : Nat)

/-- A run of a server: the datagrams that arrive, calls of `Accept`, and what its sessions do. -/
def server [DecidableEq Cookie] (env : ServerContext Secret Cookie) :
    Machine (Server Secret Cookie) (ServerEvent Cookie) where
  step s
    | .datagram d now order => some (if d.size = 0 then s else s.routeDatagram env d now order)
    | .accept => some s.accept.2
    | .expire session =>
      if s.sessions.contains session ∧ session ∉ s.pendingAccept then
        some { s with expired := session :: s.expired }
      else none
    | .applyPendingMigration session => some (s.applyPendingMigration session)
    | .drain session => some (s.drain session)
    | .transmit session size =>
      if session ∈ s.expired then none
      else s.sessions[session]?.map fun x => s.send x.peer (.online size)

/-! ## Everything a step can do -/

namespace Server

variable (env : ServerContext Secret Cookie) (s : Server Secret Cookie)

/-- The secret as it is when a datagram is handled. -/
def rotated (now : Int) : CookieSecret Secret :=
  s.secret.maybeRotate env.random env.options.cookieSecretRotation now

/-- The server as it decides about a datagram: the secret may have been replaced, the datagram is
on record, and the tables of rates are what they have become. -/
def Prepared (d : Received Cookie) (now : Int) (p : Server Secret Cookie) : Prop :=
  ∃ admission sourceRate, p =
    { s with secret := s.rotated env now, received := d :: s.received, admission, sourceRate }

/-- A Request2 with a cookie that passes under a secret. -/
structure Presents (secret : CookieSecret Secret)
    (d : Received Cookie) (r : OpenConnectionRequest2 Cookie) : Prop where
  content : d.content = .offline (.request2 (some r))
  valid : r.cookie = secret.compute env.hmac (env.key d.source) r.epoch

/-- A path response with a cookie that passes under a secret. -/
structure Responds (secret : CookieSecret Secret)
    (d : Received Cookie) (m : ZDTPathMessage Cookie) : Prop where
  content : d.content = .offline (.pathResponse (some m))
  valid : m.cookie = secret.compute env.hmac (pathCookieKey (env.key d.source) m.cid) m.epoch
  enabled : env.options.enableConnectionMigration = true

/-- What a datagram can do to a server that is prepared for it. -/
inductive Outcome (env : ServerContext Secret Cookie) (d : Received Cookie)
    (p : Server Secret Cookie) : Server Secret Cookie → Prop
  | idle : Outcome env d p p
  | pushed (session : Nat) : Outcome env d p (p.push env session d)
  | challenged (cid : BitVec 64) (hcontent : d.content = .online (some cid))
      (hunknown : p.routes[env.key d.source]? = none)
      (henabled : env.options.enableConnectionMigration = true)
      (howner : ∃ (key : List UInt8) (route : Route), p.routes[key]? = some route ∧
        route.remoteGuid = cid ∧ route.session ∉ p.expired) :
      Outcome env d p
        (p.send d.source
          (.pathChallenge (makePathChallenge env.hmac p.secret (env.key d.source) cid)))
  | mismatched (version : BitVec 8) (hcontent : d.content = .offline (.request1 version))
      (hversion : version ≠ kZDTProtocolVersion) :
      Outcome env d p (p.send d.source (.incompatibleProtocolVersion env.serverGuid))
  | answered (hcontent : d.content = .offline (.request1 kZDTProtocolVersion)) :
      Outcome env d p (p.send d.source (p.reply1 env d.source d.size))
  | repeated (r : OpenConnectionRequest2 Cookie) (hr : Presents env p.secret d r)
      (route : Route) (hroute : p.routes[env.key d.source]? = some route)
      (hlive : route.session ∉ p.expired) :
      Outcome env d p ((p.prove d.source).send d.source (.reply2 env.serverGuid d.source r.mtu))
  | refused (r : OpenConnectionRequest2 Cookie) (hr : Presents env p.secret d r) :
      Outcome env d p ((p.prove d.source).send d.source (.noFreeConnections env.serverGuid))
  | opened (r : OpenConnectionRequest2 Cookie) (hr : Presents env p.secret d r)
      (hnone : ∀ route, p.routes[env.key d.source]? = some route → route.session ∈ p.expired)
      (hroom : 0 < env.options.maxConnections →
        (p.routes.size : Int) < env.options.maxConnections) :
      Outcome env d p
        (((p.prove d.source).openSession env d.source r).send d.source
          (.reply2 env.serverGuid d.source r.mtu))
  | responded (m : ZDTPathMessage Cookie) (hm : Responds env p.secret d m) :
      Outcome env d p (p.prove d.source)
  | migrated (m : ZDTPathMessage Cookie) (hm : Responds env p.secret d m) (key : List UInt8)
      (route : Route) (hroute : p.routes[key]? = some route) (hcid : route.remoteGuid = m.cid)
      (hlive : route.session ∉ p.expired) (hmoves : key ≠ env.key d.source) :
      Outcome env d p ((p.prove d.source).migrate env key route d.source)

section Outcomes

variable {env : ServerContext Secret Cookie}

variable {s p t : Server Secret Cookie} {d : Received Cookie} {e : ServerEvent Cookie}

theorem mem_walk {order : List (List UInt8)} {key : List UInt8} {route : Route}
    (h : (key, route) ∈ s.walk order) : s.routes[key]? = some route := by
  rcases List.mem_append.1 h with h | h
  · obtain ⟨key', -, hmap⟩ := List.mem_filterMap.1 h
    obtain ⟨route', hroute, heq⟩ := Option.map_eq_some_iff.1 hmap
    obtain ⟨rfl, rfl⟩ := Prod.mk.inj heq
    exact hroute
  · exact Std.ExtTreeMap.mem_toList_iff_getElem?_eq_some.1 h

theorem live_isSome {key : List UInt8} :
    (s.live key).isSome = true ↔
      ∃ route, s.routes[key]? = some route ∧ route.session ∉ s.expired := by
  rw [Option.isSome_iff_exists]
  simp only [live, Option.filter_eq_some_iff, decide_eq_true_eq]

theorem challengeNewPath_outcome {cid : BitVec 64} (hcontent : d.content = .online (some cid))
    (hunknown : p.routes[env.key d.source]? = none)
    (henabled : env.options.enableConnectionMigration = true) :
    Outcome env d p (p.challengeNewPath env cid d.source) := by
  unfold challengeNewPath
  split
  · next hany =>
    obtain ⟨⟨key, route⟩, hmem, howner⟩ := List.any_eq_true.1 hany
    have hroute := Std.ExtTreeMap.mem_toList_iff_getElem?_eq_some.1 hmem
    exact .challenged cid hcontent hunknown henabled
      ⟨key, route, hroute, by simpa using howner⟩
  · exact .idle

variable [DecidableEq Cookie]

theorem completePathMigration_outcome {m : ZDTPathMessage Cookie}
    (hcontent : d.content = .offline (.pathResponse (some m)))
    (henabled : env.options.enableConnectionMigration = true) (order : List (List UInt8)) :
    Outcome env d p (p.completePathMigration env d.source m order) := by
  unfold completePathMigration
  split
  · exact .idle
  · next hverify =>
    have hm : Responds env p.secret d m :=
      ⟨hcontent, by simpa [verifyPathResponse] using hverify, henabled⟩
    simp only
    split
    · exact .responded m hm
    · next key route hfind =>
      have hroute := mem_walk (List.mem_of_find?_eq_some hfind)
      have hcid : route.remoteGuid = m.cid := by simpa using List.find?_some hfind
      split
      · exact .responded m hm
      · next hlive =>
        split
        · exact .responded m hm
        · next hmoves => exact .migrated m hm key route hroute hcid hlive hmoves

theorem onRequest2_outcome {r : OpenConnectionRequest2 Cookie}
    (hcontent : d.content = .offline (.request2 (some r))) :
    Outcome env d p (p.onRequest2 env d.source r) := by
  unfold onRequest2
  split
  · exact .idle
  · next hcookie =>
    have hr : Presents env p.secret d r := ⟨hcontent, by simpa using hcookie⟩
    simp only
    split
    · next hsome =>
      obtain ⟨route, hroute, hlive⟩ := live_isSome.1 hsome
      exact .repeated r hr route hroute hlive
    · next hnone =>
      split
      · exact .refused r hr
      · next hroom =>
        refine .opened r hr (fun route hroute => ?_) (fun hmax => ?_)
        · by_contra hlive
          exact hnone (live_isSome.2 ⟨route, hroute, hlive⟩)
        · by_contra hfull
          exact hroom ⟨hmax, not_lt.1 hfull⟩

omit [DecidableEq Cookie] in
theorem allowHandshake_eq (env : ServerContext Secret Cookie) (s : Server Secret Cookie)
    (key : List UInt8) (now : Int) :
    ∃ allowed sourceRate, s.allowHandshake env key now = (allowed, { s with sourceRate }) :=
  ⟨_, _, rfl⟩

omit [DecidableEq Cookie] in
theorem onRequest1_outcome (env : ServerContext Secret Cookie) {version : BitVec 8}
    (hcontent : d.content = .offline (.request1 version)) (now : Int) :
    ∃ admission, Outcome env d { p with admission }
      (p.onRequest1 env d.source d.size version now) := by
  unfold onRequest1
  generalize p.admission.admitSource (.inet d.source) now = result
  obtain ⟨verdict, admission⟩ := result
  refine ⟨admission, ?_⟩
  simp only
  split
  · exact .idle
  · split
    · next hversion => exact .mismatched version hcontent hversion
    · next hversion =>
      obtain rfl : version = kZDTProtocolVersion := by simpa using hversion
      exact .answered hcontent

/-- The rates aside, an offline message does one of the things listed. -/
theorem handleOffline_outcome (env : ServerContext Secret Cookie) (p : Server Secret Cookie)
    {m : OfflineMessage Cookie} (hcontent : d.content = .offline m) (now : Int)
    (order : List (List UInt8)) :
    ∃ admission sourceRate, Outcome env d { p with admission, sourceRate }
      (p.handleOffline env d.source d.size m now order) := by
  unfold handleOffline
  split
  · exact ⟨p.admission, p.sourceRate, .idle⟩
  · obtain ⟨allowed, sourceRate, hallow⟩ := allowHandshake_eq env p (env.key d.source) now
    rw [hallow]
    simp only
    split
    · exact ⟨p.admission, sourceRate, .idle⟩
    · cases m with
      | pathResponse response =>
        refine ⟨p.admission, sourceRate, ?_⟩
        simp only
        split
        · next henabled =>
          cases response with
          | none => exact .idle
          | some response => exact completePathMigration_outcome hcontent henabled order
        · exact .idle
      | request1 version =>
        obtain ⟨admission, houtcome⟩ :=
          onRequest1_outcome env (p := { p with sourceRate }) hcontent now
        exact ⟨admission, sourceRate, houtcome⟩
      | request2 r =>
        refine ⟨p.admission, sourceRate, ?_⟩
        cases r with
        | none => exact .idle
        | some r => exact onRequest2_outcome hcontent
      | other id => exact ⟨p.admission, sourceRate, .idle⟩

/-- **Everything a datagram can do.** -/
theorem routeDatagram_outcome (env : ServerContext Secret Cookie) (s : Server Secret Cookie)
    (d : Received Cookie) (now : Int) (order : List (List UInt8)) :
    ∃ p, Prepared env s d now p ∧ Outcome env d p (s.routeDatagram env d now order) := by
  unfold routeDatagram
  simp only
  split
  · next cid hcontent =>
    refine ⟨_, ⟨s.admission, s.sourceRate, rfl⟩, ?_⟩
    split
    · exact .pushed _
    · next hunknown =>
      split
      · split
        · next henabled => exact challengeNewPath_outcome hcontent hunknown henabled
        · exact .idle
      · exact .idle
  · next m hcontent =>
    obtain ⟨admission, sourceRate, houtcome⟩ := handleOffline_outcome env
      { s with secret := s.rotated env now, received := d :: s.received } hcontent now order
    exact ⟨_, ⟨admission, sourceRate, rfl⟩, houtcome⟩
  · exact ⟨_, ⟨s.admission, s.sourceRate, rfl⟩, .idle⟩

/-- What the other steps do. -/
inductive Quiet (s : Server Secret Cookie) : ServerEvent Cookie → Server Secret Cookie → Prop
  | skipped (d : Received Cookie) (now : Int) (order : List (List UInt8)) :
      Quiet s (.datagram d now order) s
  | accepted : Quiet s .accept s.accept.2
  | expired (session : Nat) (hsession : s.sessions.contains session = true)
      (hpending : session ∉ s.pendingAccept) :
      Quiet s (.expire session) { s with expired := session :: s.expired }
  | applied (session : Nat) :
      Quiet s (.applyPendingMigration session) (s.applyPendingMigration session)
  | drained (session : Nat) : Quiet s (.drain session) (s.drain session)
  | transmitted (session : Nat) (size : Nat) (x : ServerSession Cookie)
      (hx : s.sessions[session]? = some x) (hlive : session ∉ s.expired) :
      Quiet s (.transmit session size) (s.send x.peer (.online size))

/-- **Everything a step can do.** -/
theorem step_cases (h : (server env).step s e = some t) :
    (∃ d now order p, e = .datagram d now order ∧ Prepared env s d now p ∧ Outcome env d p t) ∨
      Quiet s e t := by
  cases e with
  | datagram d now order =>
    cases h
    split
    · exact .inr (.skipped d now order)
    · obtain ⟨p, hprepared, houtcome⟩ := routeDatagram_outcome env s d now order
      exact .inl ⟨d, now, order, p, rfl, hprepared, houtcome⟩
  | accept =>
    cases h
    exact .inr .accepted
  | expire session =>
    obtain ⟨⟨hsession, hpending⟩, h⟩ := Option.ite_none_right_eq_some.1 h
    cases h
    exact .inr (.expired session hsession hpending)
  | applyPendingMigration session =>
    cases h
    exact .inr (.applied session)
  | drain session =>
    cases h
    exact .inr (.drained session)
  | transmit session size =>
    obtain ⟨hlive, h⟩ := Option.ite_none_left_eq_some.1 h
    obtain ⟨x, hx, rfl⟩ := Option.map_eq_some_iff.1 h
    exact .inr (.transmitted session size x hx hlive)

/-- What the server says to an address that has proven nothing. -/
inductive Said (env : ServerContext Secret Cookie) (s : Server Secret Cookie) (d : Received Cookie)
    (secret : CookieSecret Secret) : Reply Cookie → Prop
  | challenge (cid : BitVec 64) (hcontent : d.content = .online (some cid))
      (hunknown : s.routes[env.key d.source]? = none)
      (henabled : env.options.enableConnectionMigration = true) :
      Said env s d secret
        (.pathChallenge (makePathChallenge env.hmac secret (env.key d.source) cid))
  | mismatch (version : BitVec 8) (hcontent : d.content = .offline (.request1 version))
      (hversion : version ≠ kZDTProtocolVersion) :
      Said env s d secret (.incompatibleProtocolVersion env.serverGuid)
  | reply1 (cap : BitVec 8) (hcontent : d.content = .offline (.request1 kZDTProtocolVersion)) :
      Said env s d secret
        (.reply1 env.serverGuid (probedMtu env d.source d.size)
          (secret.compute env.hmac (env.key d.source) secret.epoch) secret.epoch cap)

/-- What is kept is kept. -/
structure Grows (env : ServerContext Secret Cookie) (s t : Server Secret Cookie) : Prop where
  secret : t.secret = s.secret ∨ ∃ now, t.secret = s.rotated env now
  received : s.received <:+ t.received
  proven : s.proven <:+ t.proven

/-- What a step sends. -/
inductive Emission (env : ServerContext Secret Cookie) (s : Server Secret Cookie) :
    ServerEvent Cookie → Server Secret Cookie → Prop
  | silent {e : ServerEvent Cookie} {t : Server Secret Cookie} (hgrows : Grows env s t)
      (hsent : t.sent = s.sent) : Emission env s e t
  | said {t : Server Secret Cookie} (d : Received Cookie) (now : Int) (order : List (List UInt8))
      (message : Reply Cookie) (hsaid : Said env s d (s.rotated env now) message)
      (hsecret : t.secret = s.rotated env now) (hreceived : t.received = d :: s.received)
      (hproven : t.proven = s.proven)
      (hsent : t.sent = ⟨d.source, message, t.secret.rotations⟩ :: s.sent) :
      Emission env s (.datagram d now order) t
  | welcomed {e : ServerEvent Cookie} {t : Server Secret Cookie} (hgrows : Grows env s t)
      (target : Endpoint) (message : Reply Cookie) (hcookie : message.cookie? = none)
      (htarget : target ∈ t.proven)
      (hsent : t.sent = ⟨target, message, t.secret.rotations⟩ :: s.sent) : Emission env s e t
  | transmitted (session : Nat) (size : Nat) (x : ServerSession Cookie)
      (hx : s.sessions[session]? = some x) :
      Emission env s (.transmit session size) (s.send x.peer (.online size))

omit [DecidableEq Cookie] in
theorem Grows.of_prepared {now : Int} (h : Prepared env s d now p) : Grows env s p := by
  obtain ⟨admission, sourceRate, rfl⟩ := h
  exact ⟨.inr ⟨now, rfl⟩, List.suffix_cons _ _, List.suffix_rfl⟩

omit [DecidableEq Cookie] in
theorem Grows.prove (h : Grows env s p) (source : Endpoint) :
    Grows env s (p.prove source) :=
  { h with proven := h.proven.trans (List.suffix_cons _ _) }

omit [DecidableEq Cookie] in
theorem Grows.refl (env : ServerContext Secret Cookie) (s : Server Secret Cookie) : Grows env s s :=
  ⟨.inl rfl, List.suffix_rfl, List.suffix_rfl⟩

/-- **What a step sends.** -/
theorem emission_of_step (h : (server env).step s e = some t) : Emission env s e t := by
  rcases step_cases h with ⟨d, now, order, p, rfl, hprepared, houtcome⟩ | hquiet
  · have hgrows := Grows.of_prepared hprepared
    have hproves := hgrows.prove d.source
    obtain ⟨admission, sourceRate, rfl⟩ := hprepared
    cases houtcome with
    | idle => exact .silent hgrows rfl
    | pushed session => exact .silent { hgrows with } rfl
    | challenged cid hcontent hunknown henabled =>
      exact .said d now order _ (.challenge cid hcontent hunknown henabled) rfl rfl rfl rfl
    | mismatched version hcontent hversion =>
      exact .said d now order _ (.mismatch version hcontent hversion) rfl rfl rfl rfl
    | answered hcontent => exact .said d now order _ (.reply1 _ hcontent) rfl rfl rfl rfl
    | repeated r | refused r | opened r =>
      exact .welcomed { hproves with } d.source _ rfl
        List.mem_cons_self rfl
    | responded m => exact .silent hproves rfl
    | migrated m hm key route =>
      exact .silent { hproves with } rfl
  · have hsame := Grows.refl env s
    cases hquiet with
    | skipped => exact .silent hsame rfl
    | accepted =>
      rw [accept_eq]
      exact .silent { hsame with } rfl
    | expired session | applied session | drained session => exact .silent { hsame with } rfl
    | transmitted session size x hx => exact .transmitted session size x hx

end Outcomes

/-! ## A server to run -/

/-- A server whose cookies are what they sign. -/
def sample (options : ServerOptions) : ServerContext Nat (Nat × List UInt8) where
  options := options
  serverGuid := 99
  hmac := CookieSecret.symbolic
  random := id
  ntop := .nibbled

/-- A Request1 of a size. -/
def sampleProbe (source : Endpoint) (size : Nat) : ServerEvent (Nat × List UInt8) :=
  .datagram ⟨source, size, .offline (.request1 kZDTProtocolVersion)⟩ 0 []

/-- A Request2 with the cookie of the first epoch. -/
def sampleJoin (source : Endpoint) (guid : BitVec 64) (mtu : BitVec 16) :
    ServerEvent (Nat × List UInt8) :=
  .datagram
    ⟨source, 49, .offline (.request2 (some
      { cookie := (0, cookieMessage ((sample {}).key source) 0), epoch := 0, mtu
        clientGuid := guid, clientCap := kZDTCapMigration }))⟩ 0 []

/-- An online datagram with a connection id. -/
def sampleRove (source : Endpoint) (cid : BitVec 64) : ServerEvent (Nat × List UInt8) :=
  .datagram ⟨source, 200, .online (some cid)⟩ 0 []

/-- The answer to a path challenge of the first epoch. -/
def sampleAnswer (source : Endpoint) (cid : BitVec 64) : ServerEvent (Nat × List UInt8) :=
  .datagram
    ⟨source, 37, .offline (.pathResponse (some
      { cid, epoch := 0
        cookie := (0, cookieMessage (pathCookieKey ((sample {}).key source) cid) 0) }))⟩ 0 []

/-- Two addresses. -/
def sampleHome : Endpoint := ⟨.ipv4 #v[10, 0, 0, 1], 4000⟩

def sampleAway : Endpoint := ⟨.ipv4 #v[10, 0, 0, 2], 4000⟩

end Server

end Zdt
end Znet

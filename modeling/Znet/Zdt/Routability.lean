import Znet.Zdt.ServerRoutes

/-!
# What an address has to prove

A server answers anybody, with something that only a host at the address it answers can return.
The HMAC is taken to be injective and every secret to be drawn once; whoever sends datagrams may
claim any source, and may return any cookie that the server has sent to anybody.

* `return_routability` — **no route and no migration without a round trip.**
* `ample`, `no_amplification` — **an address that has proven nothing is sent no more than came from
  it**, if what came from it pays for every answer.
-/

namespace Znet
namespace Zdt
namespace Server

variable {Secret Cookie : Type}

/-! ## What is signed -/

variable {key : List UInt8} {epoch : BitVec 32} {x : Sent Cookie} {d : Received Cookie}
  {secret : CookieSecret Secret} {message : Reply Cookie} {cookie : Cookie} {now : Int}
  {order : List (List UInt8)}

theorem cookieMessage_inj {key' : List UInt8} {epoch' : BitVec 32}
    (h : cookieMessage key epoch = cookieMessage key' epoch') : key = key' ∧ epoch = epoch' := by
  obtain ⟨hkey, htail⟩ := List.append_inj' h (by simp)
  refine ⟨hkey, BitVec.eq_of_toNat_eq ?_⟩
  have hbytes := congrArg Bytes.ofLe (List.cons.inj htail).2
  have hlt : ∀ x : BitVec 32, x.toNat < 256 ^ 4 := fun x => x.isLt
  rwa [Bytes.ofLe_le, Bytes.ofLe_le, Nat.mod_eq_of_lt (hlt epoch), Nat.mod_eq_of_lt (hlt epoch')]
    at hbytes

theorem pathCookieKey_inj {readable readable' : List UInt8} {cid cid' : BitVec 64}
    (h : pathCookieKey readable cid = pathCookieKey readable' cid') :
    readable = readable' ∧ cid = cid' := by
  obtain ⟨hreadable, hcid⟩ := Text.append_separator_inj
    (not_mem_decimal (.inr (by decide)) _) (not_mem_decimal (.inr (by decide)) _)
    (List.append_cancel_left h)
  exact ⟨hreadable, BitVec.eq_of_toNat_eq (Text.decimal_injective hcid)⟩

variable (env : ServerContext Secret Cookie)

/-- The key of an address has no bar in it, and a path key has. -/
theorem key_ne_pathCookieKey (a : Endpoint)
    (readable : List UInt8) (cid : BitVec 64) : env.key a ≠ pathCookieKey readable cid := by
  intro h
  have hbar : bar ∈ pathCookieKey readable cid := List.mem_append_left _ (by decide)
  rw [← h] at hbar
  exact Endpoint.no_bar_readable env.ntop a hbar

/-! ## The cookies that were sent -/

/-- The cookie of a message is signed, under the secret of its time, for the address it went to. -/
def Issued (x : Sent Cookie) : Prop :=
  match x.message with
  | .reply1 _ _ cookie epoch _ =>
    cookie = computeCookie env.hmac (env.random x.rotation) (env.key x.target) epoch
  | .pathChallenge m =>
    m.cookie = computeCookie env.hmac (env.random x.rotation)
      (pathCookieKey (env.key x.target) m.cid) m.epoch
  | _ => True

structure Minted (s : Server Secret Cookie) : Prop where
  drawn : s.secret.Drawn env.random
  issued : ∀ x ∈ s.sent, Issued env x

variable {env : ServerContext Secret Cookie} {s t : Server Secret Cookie} {e : ServerEvent Cookie}

theorem Minted.drawn_rotated (h : Minted env s) (now : Int) :
    (s.rotated env now).Drawn env.random :=
  h.drawn.maybeRotate _ now

theorem issued_of_cookie (h : x.message.cookie? = none) : Issued env x := by
  unfold Issued
  cases hmessage : x.message with
  | reply1 | pathChallenge => rw [hmessage] at h; cases h
  | _ => trivial

/-- What is said to an address that has proven nothing is signed for it. -/
theorem Said.issued (h : Said env s d secret message) (hdrawn : secret.Drawn env.random) :
    Issued env ⟨d.source, message, secret.rotations⟩ := by
  cases h with
  | challenge cid | reply1 => exact hdrawn.mint_eq env.hmac _
  | mismatch => trivial

theorem Minted.step [DecidableEq Cookie] (h : Minted env s)
    (hstep : (server env).step s e = some t) :
    Minted env t := by
  have hgrown : Grows env s t → t.secret.Drawn env.random := by
    intro hgrows
    rcases hgrows.secret with hsecret | ⟨now, hsecret⟩
    · rw [hsecret]
      exact h.drawn
    · rw [hsecret]
      exact h.drawn_rotated now
  cases emission_of_step hstep with
  | silent hgrows hsent => exact ⟨hgrown hgrows, by rw [hsent]; exact h.issued⟩
  | said d now order message hsaid hsecret hreceived hproven hsent =>
    refine ⟨by rw [hsecret]; exact h.drawn_rotated now, ?_⟩
    rw [hsent, hsecret, List.forall_mem_cons]
    exact ⟨hsaid.issued (h.drawn_rotated now), h.issued⟩
  | welcomed hgrows target message hcookie htarget hsent =>
    refine ⟨hgrown hgrows, ?_⟩
    rw [hsent, List.forall_mem_cons]
    exact ⟨issued_of_cookie hcookie, h.issued⟩
  | transmitted session size x hx =>
    refine ⟨h.drawn, ?_⟩
    show ∀ y ∈ _ :: s.sent, Issued env y
    rw [List.forall_mem_cons]
    exact ⟨trivial, h.issued⟩

theorem minted_of_run [DecidableEq Cookie] {admission : AdmissionControl} {start : Int}
    {es : List (ServerEvent Cookie)} (h : (server env).exec (new env admission start) es = some s) :
    Minted env s :=
  Machine.exec_invariant (server env) (I := Minted env) (fun _ _ _ hs hstep => hs.step hstep) h
    ⟨CookieSecret.drawn_new env.random start, fun x hx => by cases hx⟩

/-! ## Where a cookie that passes comes from -/

/-- The message a cookie of the server's was in. -/
theorem Minted.origin (h : Minted env s) (hinjective : Function.Injective2 env.hmac)
    (hfresh : Function.Injective env.random) {n : Nat} (hx : x ∈ s.sent)
    (hcookie : x.message.cookie? = some (computeCookie env.hmac (env.random n) key epoch)) :
    x.rotation = n ∧
      ((∃ serverGuid mtu cap, x.message =
          .reply1 serverGuid mtu (computeCookie env.hmac (env.random n) key epoch) epoch cap ∧
          env.key x.target = key) ∨
        ∃ cid, x.message =
          .pathChallenge ⟨cid, epoch, computeCookie env.hmac (env.random n) key epoch⟩ ∧
          pathCookieKey (env.key x.target) cid = key) := by
  have hissued := h.issued x hx
  unfold Issued at hissued
  cases hmessage : x.message with
  | reply1 serverGuid mtu cookie epoch' cap =>
    rw [hmessage] at hissued hcookie
    cases hcookie
    obtain ⟨hsecret, htext⟩ := hinjective hissued
    obtain ⟨rfl, rfl⟩ := cookieMessage_inj htext
    exact ⟨(hfresh hsecret).symm, .inl ⟨serverGuid, mtu, cap, rfl, rfl⟩⟩
  | pathChallenge m =>
    obtain ⟨cid, epoch', cookie⟩ := m
    rw [hmessage] at hissued hcookie
    cases hcookie
    obtain ⟨hsecret, htext⟩ := hinjective hissued
    obtain ⟨hkey, rfl⟩ := cookieMessage_inj htext
    exact ⟨(hfresh hsecret).symm, .inr ⟨cid, rfl, hkey.symm⟩⟩
  | incompatibleProtocolVersion | reply2
  | noFreeConnections | online => rw [hmessage] at hcookie; cases hcookie

/-- A rotation is the current one or the one before. -/
def Recent (rotation now : Nat) : Prop := rotation = now ∨ rotation + 1 = now

/-- A cookie that passes was signed with a recent secret. -/
theorem signed_of_valid (hdrawn : secret.Drawn env.random)
    (hvalid : cookie = secret.compute env.hmac key epoch) :
    ∃ n, Recent n secret.rotations ∧
      cookie = computeCookie env.hmac (env.random n) key epoch := by
  rcases hdrawn.compute_eq env.hmac key epoch with hcurrent | ⟨hpos, -, hprevious⟩
  · exact ⟨secret.rotations, .inl rfl, hvalid.trans hcurrent⟩
  · exact ⟨secret.rotations - 1, .inr (Nat.sub_add_cancel hpos), hvalid.trans hprevious⟩

/-- **A Request2 that passes** carries the cookie of a recent Reply1 to its source, if it carries
one of the server's at all. -/
theorem Presents.origin (h : Minted env s) (hinjective : Function.Injective2 env.hmac)
    (hfresh : Function.Injective env.random) {r : OpenConnectionRequest2 Cookie}
    (hr : Presents env (s.rotated env now) d r) (hx : x ∈ s.sent)
    (hcookie : x.message.cookie? = some r.cookie) :
    Recent x.rotation (s.rotated env now).rotations ∧ x.target = d.source ∧
      ∃ serverGuid mtu cap, x.message = .reply1 serverGuid mtu r.cookie r.epoch cap := by
  obtain ⟨n, hrecent, hsigned⟩ := signed_of_valid (h.drawn_rotated now) hr.valid
  rw [hsigned] at hcookie ⊢
  obtain ⟨rfl, ⟨serverGuid, mtu, cap, hmessage, hkey⟩ | ⟨cid, -, hkey⟩⟩ :=
    h.origin hinjective hfresh hx hcookie
  · exact ⟨hrecent, env.key_injective hkey, serverGuid, mtu, cap, hmessage⟩
  · exact absurd hkey.symm (key_ne_pathCookieKey env _ _ _)

/-- **A path response that passes** is a recent path challenge to its source, if it carries a
cookie of the server's at all. -/
theorem Responds.origin (h : Minted env s) (hinjective : Function.Injective2 env.hmac)
    (hfresh : Function.Injective env.random) {m : ZDTPathMessage Cookie}
    (hm : Responds env (s.rotated env now) d m) (hx : x ∈ s.sent)
    (hcookie : x.message.cookie? = some m.cookie) :
    Recent x.rotation (s.rotated env now).rotations ∧ x.target = d.source ∧
      x.message = .pathChallenge m := by
  obtain ⟨n, hrecent, hsigned⟩ := signed_of_valid (h.drawn_rotated now) hm.valid
  obtain ⟨cid, epoch, cookie⟩ := m
  simp only at hsigned hcookie
  subst hsigned
  obtain ⟨rfl, ⟨serverGuid, mtu, cap, -, hkey⟩ | ⟨cid', hmessage, hkey⟩⟩ :=
    h.origin hinjective hfresh hx hcookie
  · exact absurd hkey (key_ne_pathCookieKey env _ _ _)
  · obtain ⟨hreadable, rfl⟩ := pathCookieKey_inj hkey
    exact ⟨hrecent, env.key_injective hreadable, hmessage⟩

/-! ## Return routability -/

/-- The cookie a datagram brings. -/
def broughtCookie (d : Received Cookie) : Option Cookie :=
  match d.content with
  | .offline (.request2 (some r)) => some r.cookie
  | .offline (.pathResponse (some m)) => some m.cookie
  | _ => none

/-- Nobody makes cookies but the server: one that is an HMAC under a secret of the server's was
sent by it before, to somebody. -/
def Unforged (env : ServerContext Secret Cookie) (s : Server Secret Cookie) :
    ServerEvent Cookie → Prop
  | .datagram d _ _ => ∀ cookie, broughtCookie d = some cookie →
      (∃ n text, cookie = env.hmac (env.random n) text) →
        ∃ x ∈ s.sent, x.message.cookie? = some cookie
  | _ => True

theorem Unforged.sent (h : Unforged env s (.datagram d now order)) (hs : Minted env s)
    (hbrings : broughtCookie d = some cookie)
    (hvalid : cookie = (s.rotated env now).compute env.hmac key epoch) :
    ∃ x ∈ s.sent, x.message.cookie? = some cookie := by
  obtain ⟨n, -, hsigned⟩ := signed_of_valid (hs.drawn_rotated now) hvalid
  exact h cookie hbrings ⟨n, _, hsigned⟩

/-- **Return routability.**  In a run over arbitrary datagrams from arbitrary sources, of which
the cookies are not forged:

* a step that makes a route for an address with a session that was not there before follows a
  Reply1 to that address, in the current epoch or the one before;
* a step that takes a session to an address follows a path challenge to that address for the
  session's connection id, in the current epoch or the one before;
* a cookie that passes in a Request2 was only ever sent in a Reply1 to its source with its epoch,
  and one that passes in a path response only in a path challenge to its source with its
  connection id and its epoch. -/
theorem return_routability [DecidableEq Cookie] (hinjective : Function.Injective2 env.hmac)
    (hfresh : Function.Injective env.random) {admission : AdmissionControl} {start : Int}
    {es : List (ServerEvent Cookie)}
    (hrun : GuardedRun (server env) (Unforged env) (new env admission start) es s) :
    (∀ e t, Unforged env s e → (server env).step s e = some t →
      ∀ (a : Endpoint) (route : Route), t.routes[env.key a]? = some route →
        s.sessions[route.session]? = none →
        ∃ x ∈ s.sent, Recent x.rotation t.secret.rotations ∧ x.target = a ∧
          ∃ serverGuid mtu cookie epoch cap,
            x.message = .reply1 serverGuid mtu cookie epoch cap) ∧
    (∀ e t, Unforged env s e → (server env).step s e = some t →
      ∀ (a : Endpoint) (route : Route) (session : ServerSession Cookie),
        t.routes[env.key a]? = some route → s.sessions[route.session]? = some session →
        (∀ route' : Route, s.routes[env.key a]? = some route' → route'.session ≠ route.session) →
        ∃ x ∈ s.sent, Recent x.rotation t.secret.rotations ∧ x.target = a ∧
          ∃ m, x.message = .pathChallenge m ∧ m.cid = session.connection.remoteGuid) ∧
    (∀ now d r, Presents env (s.rotated env now) d r → ∀ x ∈ s.sent,
      x.message.cookie? = some r.cookie → x.target = d.source ∧
        ∃ serverGuid mtu cap, x.message = .reply1 serverGuid mtu r.cookie r.epoch cap) ∧
    (∀ now d m, Responds env (s.rotated env now) d m → ∀ x ∈ s.sent,
      x.message.cookie? = some m.cookie → x.target = d.source ∧ x.message = .pathChallenge m) := by
  have hs := sound_of_run hrun.exec
  have hminted := minted_of_run hrun.exec
  have hknown : ∀ (key : List UInt8) (route : Route), s.routes[key]? = some route →
      s.sessions[route.session]? ≠ none := by
    intro key route hroute hnone
    obtain ⟨x, hx, -⟩ := hs.owned key route hroute
    rw [identity, hnone] at hx
    cases hx
  refine ⟨?_, ?_, fun now d r hr x hx hcookie => ?_, fun now d m hm x hx hcookie => ?_⟩
  · intro e t hunforged hstep a route hroute hnew
    cases (change_of_step hstep).arrival hroute with
    | stayed hroute => exact absurd hnew (hknown _ route hroute)
    | opened d now order r hr hkey hsession hsecret =>
      obtain ⟨x, hx, hcookie⟩ := hunforged.sent hminted
        (by rw [broughtCookie, hr.content]) hr.valid
      obtain ⟨hrecent, htarget, serverGuid, mtu, cap, hmessage⟩ :=
        hr.origin hminted hinjective hfresh hx hcookie
      rw [hsecret]
      exact ⟨x, hx, hrecent, htarget.trans (env.key_injective hkey), _, _, _, _, _, hmessage⟩
    | moved d now order m hm hkey old route' hroute' hcid hsession =>
      rw [hsession] at hnew
      exact absurd hnew (hknown _ route' hroute')
  · intro e t hunforged hstep a route session hroute hsession hcame
    cases (change_of_step hstep).arrival hroute with
    | stayed hroute => exact absurd rfl (hcame route hroute)
    | opened d now order r hr hkey hnext =>
      -- the next session is not there yet
      have hlt := (hs.known route.session).1 (by rw [identity, hsession]; rfl)
      exact absurd hnext hlt.ne
    | moved d now order m hm hkey old route' hroute' hcid hsame hsecret =>
      obtain ⟨x, hx, hcookie⟩ := hunforged.sent hminted
        (by rw [broughtCookie, hm.content]) hm.valid
      obtain ⟨hrecent, htarget, hmessage⟩ := hm.origin hminted hinjective hfresh hx hcookie
      obtain ⟨y, hy, hguid⟩ := hs.owned old route' hroute'
      obtain rfl : Identity.of session = y := by
        rw [identity, ← hsame, hsession] at hy
        exact Option.some.inj hy
      rw [hsecret]
      exact ⟨x, hx, hrecent, htarget.trans (env.key_injective hkey), m, hmessage,
        hcid.symm.trans hguid.symm⟩
  · exact (hr.origin hminted hinjective hfresh hx hcookie).2
  · exact (hm.origin hminted hinjective hfresh hx hcookie).2

/-- Every cookie that is brought was sent. -/
def returned [DecidableEq Cookie] (s : Server Secret Cookie) : ServerEvent Cookie → Bool
  | .datagram d _ _ => (broughtCookie d).all fun cookie =>
    s.sent.any fun x => decide (x.message.cookie? = some cookie)
  | _ => true

theorem unforged_of_returned [DecidableEq Cookie] (env : ServerContext Secret Cookie)
    (h : returned s e = true) : Unforged env s e := by
  cases e with
  | datagram d now order =>
    intro cookie hbrings _
    rw [returned, hbrings, Option.all_some] at h
    obtain ⟨x, hx, hcookie⟩ := List.any_eq_true.1 h
    exact ⟨x, hx, of_decide_eq_true hcookie⟩
  | _ => trivial

/-- A client joins and moves; before its session is taken to the new address, there was a
challenge to it. -/
theorem return_routability_roaming :
    ∃ s, GuardedRun (server (sample { enableConnectionMigration := true }))
        (Unforged (sample { enableConnectionMigration := true }))
        (new (sample { enableConnectionMigration := true }) {} 0)
        [sampleProbe sampleHome 1464, sampleJoin sampleHome 1 1464, sampleRove sampleAway 1] s ∧
      ∃ x ∈ s.sent, x.target = sampleAway ∧ ∃ m, x.message = .pathChallenge m ∧ m.cid = 1 := by
  have hrun : (((server (sample { enableConnectionMigration := true })).guard returned).exec
        (new (sample { enableConnectionMigration := true }) {} 0)
        [sampleProbe sampleHome 1464, sampleJoin sampleHome 1 1464, sampleRove sampleAway 1]).bind
        (fun s => (((server (sample { enableConnectionMigration := true })).guard returned).step s
          (sampleAnswer sampleAway 1)).map fun t =>
            (t.routes[(sample {}).key sampleAway]?.map fun route => route.session,
              s.routes[(sample {}).key sampleAway]?.map fun route => route.session,
              s.sessions[0]?.map fun x => x.connection.remoteGuid)) =
      some (some 0, none, some 1) := by
    decide +kernel
  obtain ⟨s, hs, hrun⟩ := Option.bind_eq_some_iff.1 hrun
  obtain ⟨t, ht, hfacts⟩ := Option.map_eq_some_iff.1 hrun
  simp only [Prod.mk.injEq] at hfacts
  obtain ⟨hroute, hnone, hsession⟩ := hfacts
  obtain ⟨route, hroute, hzero⟩ := Option.map_eq_some_iff.1 hroute
  obtain ⟨session, hsession, hguid⟩ := Option.map_eq_some_iff.1 hsession
  have hguarded := GuardedRun.of_guard
    (fun _ _ h => unforged_of_returned (sample { enableConnectionMigration := true }) h) hs
  obtain ⟨hreturned, ht⟩ := Option.ite_none_right_eq_some.1 ht
  obtain ⟨x, hx, -, htarget, m, hmessage, hcid⟩ :=
    (return_routability CookieSecret.symbolic_injective Function.injective_id hguarded).2.1
      (sampleAnswer sampleAway 1) t (unforged_of_returned _ hreturned) ht sampleAway route session
      hroute (by rw [hzero, hsession])
      (fun route' hroute' => by
        rw [Option.map_eq_none_iff] at hnone; cases hnone.symm.trans hroute')
  exact ⟨s, hguarded, x, hx, htarget, m, hmessage, hcid.trans hguid⟩

/-! ## Amplification -/

/-- What was sent to an address, in bytes. -/
def bytesTo (s : Server Secret Cookie) (a : Endpoint) : Nat :=
  ((s.sent.filter fun x => decide (x.target = a)).map fun x => x.message.size).sum

/-- What came from an address, in bytes. -/
def bytesFrom (s : Server Secret Cookie) (a : Endpoint) : Nat :=
  ((s.received.filter fun d => decide (d.source = a)).map fun d => d.size).sum

/-- So many bytes more do not exceed what came from the source of a datagram, with the datagram, if
the source has proven nothing. -/
def Paid (s : Server Secret Cookie) (d : Received Cookie) (size : Nat) : Prop :=
  d.source ∉ s.proven → s.bytesTo d.source + size ≤ s.bytesFrom d.source + d.size

instance (s : Server Secret Cookie) (d : Received Cookie) (size : Nat) :
    Decidable (Paid s d size) :=
  inferInstanceAs (Decidable (_ → _))

/-- What would be answered by a Reply1, a refusal or a challenge pays for it. -/
def ample (env : ServerContext Secret Cookie) (s : Server Secret Cookie) :
    ServerEvent Cookie → Bool
  | .datagram d _ _ =>
    match d.content with
    | .offline (.request1 version) =>
      decide (Paid s d (if version = kZDTProtocolVersion then 41 else 18))
    | .online (some _) =>
      !env.options.enableConnectionMigration || s.routes[env.key d.source]?.isSome ||
        decide (Paid s d 37)
    | _ => true
  | _ => true

theorem Said.paid (h : Said env s d secret message)
    (hample : ample env s (.datagram d now order) = true) : Paid s d message.size := by
  rw [ample] at hample
  cases h with
  | challenge cid hcontent hunknown henabled =>
    simpa [hcontent, hunknown, henabled, Reply.size] using hample
  | mismatch version hcontent hversion =>
    simpa [hcontent, hversion, Reply.size] using hample
  | reply1 cap hcontent => simpa [hcontent, Reply.size] using hample

/-- Sessions only know addresses that have proven themselves. -/
def PeersProven (s : Server Secret Cookie) : Prop :=
  ∀ (i : Nat) (x : ServerSession Cookie), s.sessions[i]? = some x →
    x.peer ∈ s.proven ∧ ∀ a ∈ x.pendingPeer, a ∈ s.proven

/-- A change to a session that brings in no address that has proven nothing. -/
theorem PeersProven.modify (h : PeersProven s)
    {change : ServerSession Cookie → ServerSession Cookie}
    {session : Nat} (hsessions : t.sessions = s.sessions.modify session change)
    (hproven : s.proven <:+ t.proven)
    (hchange : ∀ x : ServerSession Cookie, (x.peer ∈ t.proven ∧ ∀ a ∈ x.pendingPeer, a ∈ t.proven) →
      (change x).peer ∈ t.proven ∧ ∀ a ∈ (change x).pendingPeer, a ∈ t.proven) : PeersProven t := by
  have hold : ∀ (i : Nat) (x : ServerSession Cookie), s.sessions[i]? = some x →
      x.peer ∈ t.proven ∧ ∀ a ∈ x.pendingPeer, a ∈ t.proven := by
    intro i x hx
    obtain ⟨hpeer, hpending⟩ := h i x hx
    exact ⟨hproven.subset hpeer, fun a ha => hproven.subset (hpending a ha)⟩
  intro i x hx
  rw [hsessions] at hx
  rcases Keyed.getElem?_modify_some hx with ⟨-, y, hy, rfl⟩ | ⟨-, hx⟩
  · exact hchange y (hold i y hy)
  · exact hold i x hx

theorem PeersProven.step [DecidableEq Cookie] (h : PeersProven s)
    (hstep : (server env).step s e = some t) : PeersProven t := by
  have hmore : ∀ source : Endpoint, ∀ (i : Nat) (x : ServerSession Cookie),
      s.sessions[i]? = some x →
      x.peer ∈ source :: s.proven ∧ ∀ a ∈ x.pendingPeer, a ∈ source :: s.proven := by
    intro source i x hx
    obtain ⟨hpeer, hpending⟩ := h i x hx
    exact ⟨List.mem_cons_of_mem _ hpeer, fun a ha => List.mem_cons_of_mem _ (hpending a ha)⟩
  rcases step_cases hstep with
    ⟨d, now, order, p, rfl, ⟨admission, sourceRate, rfl⟩, houtcome⟩ | hquiet
  · cases houtcome with
    | idle => exact h
    | pushed session =>
      refine h.modify rfl List.suffix_rfl fun x hx => ?_
      split
      · exact hx
      · exact hx
    | challenged cid | mismatched version | answered => exact h
    | repeated r | refused r => exact hmore d.source
    | opened r hr =>
      intro i x hx
      rcases Keyed.getElem?_insert_cases hx with ⟨-, rfl⟩ | ⟨-, hx⟩
      · exact ⟨List.mem_cons_self, fun a ha => by cases ha⟩
      · exact hmore d.source i x hx
    | responded m => exact hmore d.source
    | migrated m hm key route =>
      refine h.modify rfl (List.suffix_cons _ _) fun x hx => ⟨hx.1, fun a ha => ?_⟩
      cases ha
      exact List.mem_cons_self
  · cases hquiet with
    | skipped => exact h
    | accepted =>
      rw [accept_eq]
      exact h
    | expired session => exact h
    | applied session =>
      refine h.modify rfl List.suffix_rfl fun x hx => ⟨?_, fun a ha => by cases ha⟩
      cases hpending : x.pendingPeer with
      | none => simpa [hpending] using hx.1
      | some a => simpa [hpending] using hx.2
    | drained session => exact h.modify rfl List.suffix_rfl fun x hx => hx
    | transmitted session size x => exact h

theorem bytesTo_cons {target : Endpoint} {rotation : Nat}
    (hsent : t.sent = ⟨target, message, rotation⟩ :: s.sent) (a : Endpoint) :
    t.bytesTo a = (if target = a then message.size else 0) + s.bytesTo a := by
  rw [bytesTo, bytesTo, hsent]
  by_cases ha : target = a
  · simp [ha]
  · simp [ha]

theorem bytesFrom_cons (hreceived : t.received = d :: s.received) (a : Endpoint) :
    t.bytesFrom a = (if d.source = a then d.size else 0) + s.bytesFrom a := by
  rw [bytesFrom, bytesFrom, hreceived]
  by_cases ha : d.source = a
  · simp [ha]
  · simp [ha]

theorem bytesFrom_mono (h : s.received <:+ t.received) (a : Endpoint) :
    s.bytesFrom a ≤ t.bytesFrom a := by
  obtain ⟨before, hbefore⟩ := h
  rw [bytesFrom, bytesFrom, ← hbefore, List.filter_append, List.map_append, List.sum_append]
  exact Nat.le_add_left _ _

/-- An address that has proven nothing was sent no more than came from it. -/
structure Balanced (s : Server Secret Cookie) : Prop where
  peers : PeersProven s
  bytes : ∀ a, a ∉ s.proven → s.bytesTo a ≤ s.bytesFrom a

theorem Balanced.step [DecidableEq Cookie] (h : Balanced s) (hample : ample env s e = true)
    (hstep : (server env).step s e = some t) : Balanced t := by
  refine ⟨h.peers.step hstep, fun a ha => ?_⟩
  cases emission_of_step hstep with
  | silent hgrows hsent =>
    have hold := h.bytes a fun hmem => ha (hgrows.proven.subset hmem)
    have hmono := bytesFrom_mono hgrows.received a
    have hsame : t.bytesTo a = s.bytesTo a := by rw [bytesTo, hsent, bytesTo]
    omega
  | said d now order message hsaid hsecret hreceived hproven hsent =>
    rw [hproven] at ha
    have hold := h.bytes a ha
    have hpaid := hsaid.paid hample
    rw [bytesTo_cons hsent, bytesFrom_cons hreceived]
    split
    · next htarget =>
      subst htarget
      have hsize := hpaid ha
      omega
    · omega
  | welcomed hgrows target message hcookie htarget hsent =>
    have hold := h.bytes a fun hmem => ha (hgrows.proven.subset hmem)
    have hmono := bytesFrom_mono hgrows.received a
    have hne : target ≠ a := by
      rintro rfl
      exact ha htarget
    rw [bytesTo_cons hsent, if_neg hne]
    omega
  | transmitted session size x hx =>
    have hold := h.bytes a ha
    have hne : x.peer ≠ a := by
      rintro rfl
      exact ha (h.peers session x hx).1
    rw [bytesTo_cons (s := s) (t := s.send x.peer (.online size)) rfl, if_neg hne, Nat.zero_add]
    exact hold

/-- A server that signs nothing, for its sizes. -/
def plain : ServerContext Unit ZDTCookie where
  serverGuid := 99
  hmac _ _ := Vector.replicate 16 0
  random _ := ()
  ntop := .nibbled

end Server
end Zdt
end Znet

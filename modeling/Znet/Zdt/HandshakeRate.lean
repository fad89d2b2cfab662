import Znet.Lib.FixedWindow
import Znet.Zdt.Server

/-!
# The handshake rate table

`AllowHandshake` counts the offline datagrams of each source address in windows of one second.  The
table is swept when it has grown past `pruneAt`; unlike the throttle's, it takes a new source even
if the sweep found nothing to drop.
-/

namespace Znet
namespace Zdt

variable {Secret Cookie : Type}

/-- An offline datagram, the time it is looked at and the order of a walk over the routes. -/
structure OfflineArrival (Cookie : Type) where
  source : Endpoint
  size : Nat
  message : OfflineMessage Cookie
  now : Int
  order : List (List UInt8) := []

structure Intake (Secret Cookie : Type) where
  server : Server Secret Cookie
  clock : Int
  /-- History: what was counted of each source, the last first. -/
  hits : List UInt8 → List FixedWindow.Hit := fun _ => []

/-- A rate entry, as start and count. -/
def SourceRate.view (entry : SourceRate) : Int × Nat := (entry.windowStart, entry.count.toNat)

namespace Server

variable (env : ServerContext Secret Cookie) (s : Server Secret Cookie)
  (key : List UInt8) (now : Int)

/-- The table after the sweep, if there is one. -/
def sweptRate : Std.ExtTreeMap (List UInt8) SourceRate compare :=
  if pruneAt env < s.sourceRate.size then
    s.sourceRate.filter fun _ entry => decide (now - entry.windowStart ≤ second)
  else s.sourceRate

/-- The entry of a source after its datagram was counted. -/
def countedRate : SourceRate :=
  let entry := (s.sweptRate env now).getD key {}
  let entry : SourceRate :=
    if entry.count = 0 ∨ second < now - entry.windowStart then ⟨0, now⟩ else entry
  { entry with count := entry.count + 1 }

theorem allowHandshake_counted : s.allowHandshake env key now =
    (decide ((s.countedRate env key now).count ≤ env.options.perSourceHandshakeRate),
      { s with sourceRate := (s.sweptRate env now).insert key (s.countedRate env key now) }) := rfl

/-- The entry that is counted, in the terms of one source. -/
theorem view_countedRate
    (hcount : ∀ entry, (s.sweptRate env now)[key]? = some entry → 0 < entry.count.toNat) :
    (s.countedRate env key now).view = FixedWindow.enter second now
        ((s.sweptRate env now)[key]?.map SourceRate.view) ∧
      0 < (s.countedRate env key now).count := by
  rw [countedRate, Std.ExtTreeMap.getD_eq_getD_getElem?]
  cases hentry : (s.sweptRate env now)[key]? with
  | none => simp [FixedWindow.enter, SourceRate.view]
  | some entry =>
    have hpos := hcount entry hentry
    have hne : entry.count ≠ 0 := fun hzero => by simp [hzero] at hpos
    by_cases hlive : now - entry.windowStart ≤ second
    · have hnot : ¬ second < now - entry.windowStart := not_lt.2 hlive
      simp [FixedWindow.enter, SourceRate.view, hlive, hnot, hne]
      omega
    · simp [FixedWindow.enter, SourceRate.view, hlive, not_le.1 hlive]

variable [DecidableEq Cookie]

/-- Only `AllowHandshake` writes to the table. -/
theorem sourceRate_handleOffline (d : OfflineArrival Cookie)
    (hscreen : s.admission.screen (.inet d.source) = .allow) :
    (s.handleOffline env d.source d.size d.message d.now d.order).sourceRate =
      (s.sweptRate env d.now).insert (env.key d.source) (s.countedRate env (env.key d.source) d.now)
    := by
  have hmigrate : ∀ (t : Server Secret Cookie) response,
      (t.completePathMigration env d.source response d.order).sourceRate = t.sourceRate := by
    intro t response
    unfold completePathMigration
    dsimp only
    split_ifs
    · rfl
    · split
      · rfl
      · split_ifs
        · rfl
        · rfl
        · rfl
  have hrequest1 : ∀ (t : Server Secret Cookie) version,
      (t.onRequest1 env d.source d.size version d.now).sourceRate = t.sourceRate := by
    intro t version
    unfold onRequest1
    dsimp only
    split_ifs
    · rfl
    · rfl
    · rfl
  have hrequest2 : ∀ (t : Server Secret Cookie) r,
      (t.onRequest2 env d.source r).sourceRate = t.sourceRate := by
    intro t r
    unfold onRequest2
    dsimp only
    split_ifs
    · rfl
    · rfl
    · rfl
    · rfl
  rw [handleOffline, if_neg (not_not.2 hscreen), allowHandshake_counted]
  dsimp only
  split
  · rfl
  · split
    · split
      · split
        · rw [hmigrate]
        · rfl
      · rfl
    · rw [hrequest1]
    · rw [hrequest2]
    · rfl
    · rfl

end Server

variable [DecidableEq Cookie] (env : ServerContext Secret Cookie)

/-- An offline datagram, not before the last one.  It is counted unless the lists exclude its
source. -/
def Intake.offline (s : Intake Secret Cookie) (d : OfflineArrival Cookie) :
    Option (Intake Secret Cookie) :=
  if d.now < s.clock then none
  else some
    { server := s.server.handleOffline env d.source d.size d.message d.now d.order
      clock := d.now
      hits :=
        if s.server.admission.screen (.inet d.source) ≠ .allow then s.hits
        else
          let (allowed, server) := s.server.allowHandshake env (env.key d.source) d.now
          Function.update s.hits (env.key d.source)
            (⟨d.now, (server.sourceRate.getD (env.key d.source) {}).windowStart, allowed⟩ ::
              s.hits (env.key d.source)) }

def intake : Machine (Intake Secret Cookie) (OfflineArrival Cookie) :=
  ⟨fun s d => s.offline env d⟩

/-- No more than `pruneAt` other sources have a window that has not elapsed. -/
def Intake.roomFor (s : Intake Secret Cookie) (d : OfflineArrival Cookie) : Bool :=
  decide (((s.server.sourceRate.filter fun _ entry =>
    decide (d.now - entry.windowStart ≤ second)).erase (env.key d.source)).size ≤
      Server.pruneAt env)

/-- Every source's entry is the current one of its windows. -/
def Intake.Limited (s : Intake Secret Cookie) : Prop :=
  FixedWindow.Limited second env.options.perSourceHandshakeRate.toNat SourceRate.view s.clock
    s.server.sourceRate s.hits

variable {env} {s s' : Intake Secret Cookie} {d : OfflineArrival Cookie}

/-- What a datagram does to the table. -/
theorem Intake.offline_cases (h : s.offline env d = some s') : s.clock ≤ d.now ∧ s'.clock = d.now ∧
    (s'.server.sourceRate = s.server.sourceRate ∧ s'.hits = s.hits ∨
      s'.server.sourceRate = (s.server.sweptRate env d.now).insert (env.key d.source)
          (s.server.countedRate env (env.key d.source) d.now) ∧
        s'.hits = Function.update s.hits (env.key d.source)
          (⟨d.now, (s.server.countedRate env (env.key d.source) d.now).windowStart,
            decide ((s.server.countedRate env (env.key d.source) d.now).count ≤
              env.options.perSourceHandshakeRate)⟩ :: s.hits (env.key d.source))) := by
  obtain ⟨hnow, ⟨⟩⟩ := Option.ite_none_left_eq_some.1 h
  refine ⟨not_lt.1 hnow, rfl, ?_⟩
  by_cases hscreen : s.server.admission.screen (.inet d.source) = .allow
  · right
    refine ⟨Server.sourceRate_handleOffline env _ d hscreen, ?_⟩
    simp [hscreen, Server.allowHandshake_counted]
  · left
    simp [hscreen, Server.handleOffline]

/-- **One datagram** is counted within the rate of its source. -/
theorem Intake.Limited.offline (h : s.Limited env) (hstep : s.offline env d = some s') :
    s'.Limited env := by
  obtain ⟨hnow, hclock, ⟨hrate, hhits⟩ | ⟨hrate, hhits⟩⟩ := Intake.offline_cases hstep
  · rw [Intake.Limited, hclock, hrate, hhits]
    exact h.later hnow
  · have hswept : FixedWindow.Limited second env.options.perSourceHandshakeRate.toNat
        SourceRate.view d.now (s.server.sweptRate env d.now) s.hits := by
      rw [Server.sweptRate]
      split
      · exact (FixedWindow.Limited.later h hnow).sweep
      · exact FixedWindow.Limited.later h hnow
    obtain ⟨hview, hpos⟩ := Server.view_countedRate env s.server (env.key d.source) d.now
      fun _ => hswept.count_pos
    have hinsert := hswept.insert (by decide) hview
    have hverdict : decide ((s.server.countedRate env (env.key d.source) d.now).count ≤
        env.options.perSourceHandshakeRate) =
          decide ((s.server.countedRate env (env.key d.source) d.now).view.2 ≤
            env.options.perSourceHandshakeRate.toNat) := by
      rw [decide_eq_decide, SourceRate.view]
      dsimp only
      omega
    rw [Intake.Limited, hclock, hrate, hhits, hverdict]
    exact hinsert

/-- The table has room for the source of a datagram as long as there are few live windows. -/
theorem Intake.size_offline (hsize : s.server.sourceRate.size ≤ Server.pruneAt env + 1)
    (hroom : s.roomFor env d = true) (hstep : s.offline env d = some s') :
    s'.server.sourceRate.size ≤ Server.pruneAt env + 1 := by
  obtain ⟨-, -, ⟨hrate, -⟩ | ⟨hrate, -⟩⟩ := Intake.offline_cases hstep
  · rwa [hrate]
  · rw [hrate, Server.sweptRate, Std.ExtTreeMap.size_insert]
    have hroom := of_decide_eq_true hroom
    rw [Std.ExtTreeMap.size_erase] at hroom
    split
    · split
      · next hmem =>
        rw [if_pos hmem] at hroom
        omega
      · next hmem =>
        rw [if_neg hmem] at hroom
        omega
    · split
      · exact hsize
      · omega

/-- Fewer than 2^31 datagrams of a source are counted in any one window. -/
def Intake.FewDatagrams (s : Intake Secret Cookie) : Prop :=
  ∀ key start, FixedWindow.hits (s.hits key) start < 2 ^ 31

/-- **The handshake rate.**  In every run each source gets at most its rate through in each of its
windows, with counts that fit an `int` as long as 2^31 datagrams do not come.  The table stays
within `pruneAt + 1` entries if at each datagram no more than `pruneAt` other sources have a live
window. -/
theorem handshakes_limited {admission : AdmissionControl} {start : Int}
    {ds : List (OfflineArrival Cookie)}
    (hrun : (intake env).exec ⟨.new env admission start, start, fun _ => []⟩ ds = some s) :
    (∀ key start, FixedWindow.grants (s.hits key) start ≤
      env.options.perSourceHandshakeRate.toNat) ∧
    (s.FewDatagrams → ∀ (key : List UInt8) (entry : SourceRate),
      s.server.sourceRate[key]? = some entry → entry.count < 2 ^ 31) ∧
    (GuardedRun (intake env) (fun s d => s.roomFor env d = true)
        ⟨.new env admission start, start, fun _ => []⟩ ds s →
      s.server.sourceRate.size ≤ Server.pruneAt env + 1) := by
  have h : s.Limited env := (intake env).exec_invariant (I := fun s => s.Limited env)
    (fun s d s' hs hstep => hs.offline hstep) hrun (FixedWindow.limited_empty _ _ _ _)
  refine ⟨fun key => (h key).grants_le, fun hfew key entry hentry => ?_, fun hguarded => ?_⟩
  · obtain ⟨-, -, hhits, -⟩ := (h key).current entry.windowStart entry.count.toNat
      (by rw [hentry]; rfl)
    have := hfew key entry.windowStart
    omega
  · refine hguarded.invariant (I := fun s => s.server.sourceRate.size ≤ Server.pruneAt env + 1)
      (fun s d s' hs hroom hstep => Intake.size_offline hs hroom hstep) ?_
    simp [Server.new]

/-- A Request1 at time 0. -/
def probing (host : UInt8) : OfflineArrival (Nat × List UInt8) where
  source := ⟨.ipv4 (.replicate 4 host), 4000⟩
  size := 1200
  message := .request1 kZDTProtocolVersion
  now := 0

/-- A server for one connection that takes one datagram of each source. -/
def strict : ServerContext Nat (Nat × List UInt8) :=
  Server.sample { maxConnections := 1, perSourceHandshakeRate := 1 }

/-- One source asks twice, another once. -/
theorem handshakes_limited_two :
    ∃ s, GuardedRun (intake strict) (fun s d => s.roomFor strict d = true)
        ⟨.new strict {} 0, 0, fun _ => []⟩ [probing 1, probing 1, probing 2] s ∧
      (s.hits (strict.key (probing 1).source)).map FixedWindow.Hit.granted = [false, true] ∧
      (∀ key start, FixedWindow.grants (s.hits key) start ≤ 1) ∧
      s.server.sourceRate.size ≤ 3 := by
  apply GuardedRun.exists_run (P := fun s =>
    (s.hits (strict.key (probing 1).source)).map FixedWindow.Hit.granted = [false, true])
    (by decide +kernel)
  intro s hrun hgranted
  obtain ⟨hlimited, -, hsize⟩ := handshakes_limited hrun.exec
  exact ⟨hgranted, hlimited, hsize hrun⟩

/-- **Four sources in one second**, and a table that was to have three entries at most. -/
theorem rate_table_outgrows :
    ∃ s, (intake strict).exec ⟨.new strict {} 0, 0, fun _ => []⟩
        [probing 1, probing 2, probing 3, probing 4] = some s ∧
      Server.pruneAt strict + 1 < s.server.sourceRate.size :=
  Machine.exists_exec (by decide +kernel) fun _ _ => id

end Zdt
end Znet

import Znet.P2p.Registry

/-!
# Asks and pairs

An ask lives twice: in the queue of asks and among the names its client is asking for.  The
pairing thread takes the queue in batches, behind the names to clear and the clients to welcome,
and pairs two clients when the one asks for the name the other has and the other asks back.  The
names a client asks for outlive the clients that had them, and a name can be given again.

* `Awaited` — **two registered clients that ask for each other are not forgotten**: one of their
  asks is still to be tried.
-/

namespace Znet
namespace P2p
namespace Rendezvous

variable {config : RendezvousConfig} {s t : Rendezvous}

/-! ## Whom a client asks for -/

/-- The names a client asks for. -/
def asking (s : Rendezvous) (session : Nat) : List Name :=
  (s.clients[session]?.map ClientData.pendingTargets).getD []

/-- The asks that the pairing thread has still to try. -/
def untried (s : Rendezvous) : List (Nat × Name) :=
  s.connectPeerQueue ++ s.batch.connect

variable {session other i : Nat} {data otherData : ClientData} {names : List Name}
  {e : RendezvousEvent} {target : Name} {punchId : BitVec 64} {token : Option (BitVec 64)}

theorem asking_of_some (h : s.clients[session]? = some data) :
    s.asking session = data.pendingTargets := by
  rw [asking, h, Option.map_some, Option.getD_some]

theorem asking_of_none (h : s.clients[session]? = none) : s.asking session = [] := by
  rw [asking, h, Option.map_none, Option.getD_none]

theorem asking_of_insert (h : t.clients = s.clients.insert session data) (i : Nat) :
    t.asking i = if session = i then data.pendingTargets else s.asking i := by
  split
  · next hi =>
    subst hi
    apply asking_of_some
    rw [h, Std.ExtTreeMap.getElem?_insert_self]
  · next hi => rw [asking, h, Keyed.getElem?_insert_of_ne hi, asking]

@[simp] theorem asking_send (s : Rendezvous) (session : Nat) (packet : Outgoing) (i : Nat) :
    (s.send session packet).asking i = s.asking i :=
  rfl

/-- A name is taken from the names a client asks for. -/
theorem asking_update (s : Rendezvous) (session : Nat) (name : Name)
    {change : ClientData → ClientData}
    (hchange : ∀ x, (change x).pendingTargets = x.pendingTargets.erase name) (i : Nat) :
    (s.update session change).asking i =
      if session = i then (s.asking i).erase name else s.asking i := by
  simp only [asking, update, Std.ExtTreeMap.getElem?_modify, Std.compare_eq_iff_eq]
  split
  · next hi =>
    subst hi
    cases s.clients[session]? with
    | none => rfl
    | some data => simp [hchange]
  · rfl

theorem pendingTargets_allowRequest (data : ClientData) (now : Int) :
    (allowRequest config data now).2.pendingTargets = data.pendingTargets := by
  unfold allowRequest
  split
  · rfl
  · split <;> rfl

theorem mem_insertName {name name' : Name} :
    name' ∈ insertName name names ↔ name' = name ∨ name' ∈ names := by
  unfold insertName
  split
  · next h =>
    refine ⟨.inr, ?_⟩
    rintro (rfl | h')
    · exact h
    · exact h'
  · exact List.mem_cons

theorem nodup_insertName {name : Name} (h : names.Nodup) :
    (insertName name names).Nodup := by
  unfold insertName
  split
  · exact h
  · next hnew => exact List.nodup_cons.2 ⟨hnew, h⟩

/-- The offers among what was sent. -/
def offers (s : Rendezvous) : List (Nat × Outgoing) :=
  s.sent.filter fun packet => packet.2 matches .punchOffer ..

/-- No ask differs, and nothing is offered. -/
structure SameAsks (s t : Rendezvous) : Prop where
  asking : ∀ i, t.asking i = s.asking i
  queue : t.connectPeerQueue = s.connectPeerQueue
  connect : t.batch.connect = s.batch.connect
  offers : t.offers = s.offers

theorem SameAsks.untried (h : SameAsks s t) : t.untried = s.untried := by
  rw [Rendezvous.untried, h.queue, h.connect, Rendezvous.untried]

theorem sameAsks_onConnect (hfresh : s.clients[session]? = none) (observed : InetAddress) :
    SameAsks s (s.onConnect session observed) := by
  refine ⟨fun i => ?_, rfl, rfl, rfl⟩
  rw [asking_of_insert (s := s) rfl]
  split
  · next hi =>
    subst hi
    exact (asking_of_none hfresh).symm
  · rfl

theorem sameAsks_onDisconnect (s : Rendezvous) (session : Nat) (data : ClientData) :
    SameAsks s (s.onDisconnect session data) := by
  unfold onDisconnect
  split <;> exact ⟨fun _ => rfl, rfl, rfl, rfl⟩

/-- A client's data is replaced by one that asks for the same names. -/
theorem asking_of_replaced {data' : ClientData} (hdata : s.clients[session]? = some data)
    (h : t.clients = s.clients.insert session data')
    (hsame : data'.pendingTargets = data.pendingTargets) (i : Nat) : t.asking i = s.asking i := by
  rw [asking_of_insert h]
  split
  · next hi =>
    subst hi
    rw [hsame, asking_of_some hdata]
  · rfl

theorem sameAsks_onGathering (hdata : s.clients[session]? = some data) (candidates : List Candidate)
    (punchPort : BitVec 16) (now : Int) :
    SameAsks s (s.onGathering config session data candidates punchPort now) := by
  have hcounted : ∀ i, { s with
      clients := s.clients.insert session (allowRequest config data now).2 }.asking i =
        s.asking i :=
    asking_of_replaced hdata rfl (pendingTargets_allowRequest data now)
  unfold onGathering
  dsimp only
  split
  · exact ⟨hcounted, rfl, rfl, rfl⟩
  · refine ⟨fun i => Eq.trans ?_ (hcounted i), rfl, rfl, rfl⟩
    refine asking_of_replaced (Std.ExtTreeMap.getElem?_insert_self) rfl ?_ i
    rfl

theorem sameAsks_welcome (config : RendezvousConfig) (s : Rendezvous) (session : Nat)
    (draws : Nat → Name) : SameAsks s (welcome config s session draws) := by
  rw [welcome]
  split
  · exact ⟨fun _ => rfl, rfl, rfl, rfl⟩
  · next data hdata =>
    split
    · exact ⟨fun _ => rfl, rfl, rfl, rfl⟩
    · dsimp only
      split
      · exact ⟨fun _ => rfl, rfl, rfl, rfl⟩
      · refine ⟨asking_of_replaced hdata rfl ?_, rfl, rfl, rfl⟩
        rfl

/-- A client that has a name asks for one more. -/
structure Asks (s : Rendezvous) (session : Nat) (target : Name) (t : Rendezvous) : Prop where
  named : ∃ name, name ≠ [] ∧ s.nameOf session = some name
  asking : ∀ i, t.asking i = if session = i then insertName target (s.asking i) else s.asking i
  queue : t.connectPeerQueue = (session, target) :: s.connectPeerQueue
  connect : t.batch.connect = s.batch.connect
  offers : t.offers = s.offers

theorem onConnectPeer_cases (config : RendezvousConfig) (hdata : s.clients[session]? = some data)
    (target : Name) (now : Int) :
    SameAsks s (s.onConnectPeer config session data target now) ∨
      Asks s session target (s.onConnectPeer config session data target now) := by
  have hcounted : ∀ i, { s with
      clients := s.clients.insert session (allowRequest config data now).2 }.asking i =
        s.asking i :=
    asking_of_replaced hdata rfl (pendingTargets_allowRequest data now)
  unfold onConnectPeer
  dsimp only
  split
  · exact .inl ⟨hcounted, rfl, rfl, rfl⟩
  · split
    · exact .inl ⟨hcounted, rfl, rfl, rfl⟩
    · next hnamed =>
      rw [peerName_allowRequest] at hnamed
      refine .inr ⟨⟨data.peerName, hnamed, nameOf_of_some hdata⟩, fun i => ?_, rfl, rfl, rfl⟩
      rw [asking_of_insert (s := { s with
        clients := s.clients.insert session (allowRequest config data now).2 }) rfl, hcounted]
      split
      · next hi =>
        subst hi
        rw [pendingTargets_allowRequest, asking_of_some hdata]
      · rfl

/-! ## A pair -/

/-- A client's data once a pair has consumed its ask for a name. -/
def matched (name : Name) (data : ClientData) : ClientData :=
  { data with
    pendingTargets := data.pendingTargets.erase name
    pairedWith := insertName name data.pairedWith }

/-- The offer a client is sent of another. -/
def offerOf (config : RendezvousConfig) (data : ClientData) (punchId : BitVec 64)
    (token : Option (BitVec 64)) : Outgoing :=
  .punchOffer data.peerName punchId config.punchConnectionType
    (offerCandidates data (relayedCandidate config token))

theorem pair_eq :
    s.pair config session other data otherData target punchId token =
      (((s.update session (matched target)).update other (matched data.peerName)).send session
        (offerOf config otherData punchId token)).send other (offerOf config data punchId token) :=
  rfl

theorem asking_pair (hne : session ≠ other) (i : Nat) :
    (s.pair config session other data otherData target punchId token).asking i =
      if session = i then (s.asking i).erase target
      else if other = i then (s.asking i).erase data.peerName else s.asking i := by
  rw [pair_eq, asking_send, asking_send, asking_update _ _ data.peerName (fun _ => rfl),
    asking_update _ _ target (fun _ => rfl)]
  by_cases hi : session = i
  · subst hi
    simp [hne.symm]
  · simp [hi]

/-! ## Trying an ask -/

/-- A client is not its own match. -/
theorem Roster.ne_of_registered (hs : Roster s) (hdata : s.clients[session]? = some data)
    (hself : target ≠ data.peerName) (hreg : s.registry[target]? = some other) :
    session ≠ other := by
  rintro rfl
  obtain ⟨hname, -⟩ := hs.named target session hreg
  rw [nameOf_of_some hdata, Option.some.injEq] at hname
  exact hself hname.symm

/-- A try only takes from the names that are asked for. -/
theorem asking_tryPair_sublist (hs : Roster s) (i : Nat) :
    ((tryPair config s session target punchId token).asking i).Sublist (s.asking i) := by
  generalize h : tryPair config s session target punchId token = t
  obtain rfl | ⟨data, -, -, rfl⟩ | ⟨data, other, -, -, rfl⟩ |
    ⟨data, other, otherData, hdata, -, hself, hreg, -, -, rfl⟩ := tryPair_cases h
  · exact List.Sublist.refl _
  · rw [asking_send, asking_update _ _ target fun _ => rfl]
    split
    · exact List.erase_sublist
    · exact List.Sublist.refl _
  · exact List.Sublist.refl _
  · rw [asking_pair (hs.ne_of_registered hdata hself hreg)]
    split
    · exact List.erase_sublist
    · split
      · exact List.erase_sublist
      · exact List.Sublist.refl _

theorem queue_tryPair :
    (tryPair config s session target punchId token).connectPeerQueue = s.connectPeerQueue := by
  generalize h : tryPair config s session target punchId token = t
  obtain rfl | ⟨data, -, -, rfl⟩ | ⟨data, other, -, -, rfl⟩ |
    ⟨data, other, otherData, -, -, -, -, -, -, rfl⟩ := tryPair_cases h
  · rfl
  · rfl
  · rfl
  · rfl

theorem untried_tryPair :
    (tryPair config s session target punchId token).untried = s.untried := by
  have hframe : Frame s (tryPair config s session target punchId token) := frame_tryPair
  rw [untried, queue_tryPair, hframe.batch, untried]

/-- Two clients that ask for each other are paired. -/
theorem tryPair_mutual (hdata : s.clients[session]? = some data)
    (hpending : target ∈ data.pendingTargets) (hself : target ≠ data.peerName)
    (hreg : s.registry[target]? = some other) (hother : s.clients[other]? = some otherData)
    (hback : data.peerName ∈ otherData.pendingTargets) :
    tryPair config s session target punchId token =
      s.pair config session other data otherData target punchId token := by
  simp [tryPair, hdata, hpending, hself, hreg, hother, hback]

theorem exists_client_of_asking {name : Name} (h : name ∈ s.asking i) :
    ∃ data, s.clients[i]? = some data ∧ name ∈ data.pendingTargets := by
  cases hdata : s.clients[i]? with
  | none =>
    rw [asking_of_none hdata] at h
    cases h
  | some data =>
    rw [asking_of_some hdata] at h
    exact ⟨data, rfl, h⟩

/-- Of two registered clients that ask for each other, the one whose ask is tried no longer
asks. -/
theorem tryPair_consumes (hs : Roster s) {name : Name}
    (hname : s.registry[name]? = some session) (htarget : s.registry[target]? = some other)
    (hne : session ≠ other) (hasks : target ∈ s.asking session) (hback : name ∈ s.asking other)
    (honce : (s.asking session).Nodup) :
    target ∉ (tryPair config s session target punchId token).asking session := by
  obtain ⟨data, hdata, hpending⟩ := exists_client_of_asking hasks
  obtain ⟨otherData, hother, hback⟩ := exists_client_of_asking hback
  obtain ⟨hnamed, -⟩ := hs.named name session hname
  rw [nameOf_of_some hdata, Option.some.injEq] at hnamed
  subst hnamed
  have hself : target ≠ data.peerName := by
    rintro rfl
    rw [hname, Option.some.injEq] at htarget
    exact hne htarget
  rw [tryPair_mutual hdata hpending hself htarget hother hback, asking_pair hne, if_pos rfl]
  exact honce.not_mem_erase

/-! ## No two are forgotten -/

/-- A client without a name asks for nobody, and of two registered clients that ask for each
other one's ask is still to be tried. -/
structure Awaited (s : Rendezvous) : Prop where
  mute : ∀ i, s.nameOf i = some [] → s.asking i = []
  once : ∀ i, (s.asking i).Nodup
  untried : ∀ (name name' : Name) (i j : Nat), s.registry[name]? = some i →
    s.registry[name']? = some j → i ≠ j → name' ∈ s.asking i → name ∈ s.asking j →
    (i, name') ∈ s.untried ∨ (j, name) ∈ s.untried

theorem awaited_empty : Awaited {} := by
  refine ⟨fun i _ => rfl, fun i => List.nodup_nil, fun name name' i j h => ?_⟩
  simp at h

section

variable (hs : Awaited s)

include hs

/-- The asks are as before, and nobody is newly registered. -/
theorem Awaited.keep (hmute : ∀ i, t.nameOf i = some [] → s.asking i = [])
    (hasking : ∀ i, t.asking i = s.asking i)
    (hregistry : ∀ (name : Name) (i : Nat), t.registry[name]? = some i → s.registry[name]? = some i)
    (huntried : s.untried ⊆ t.untried) : Awaited t := by
  refine ⟨fun i hi => ?_, fun i => ?_, fun name name' i j hi hj hne hasks hback => ?_⟩
  · rw [hasking]
    exact hmute i hi
  · rw [hasking]
    exact hs.once i
  · rw [hasking] at hasks hback
    exact (hs.untried name name' i j (hregistry _ _ hi) (hregistry _ _ hj) hne hasks hback).imp
      (huntried ·) (huntried ·)

theorem Awaited.frame (hframe : Frame s t) (h : SameAsks s t) : Awaited t := by
  refine hs.keep (fun i hi => ?_) h.asking (fun name i hreg => ?_) ?_
  · rw [hframe.names] at hi
    exact hs.mute i hi
  · rw [hframe.registry] at hreg
    exact hreg
  · rw [h.untried]
    exact List.Subset.refl _

theorem Awaited.onConnect (hfresh : s.clients[session]? = none)
    (observed : InetAddress) : Awaited (s.onConnect session observed) := by
  have hsame := sameAsks_onConnect hfresh observed
  refine hs.keep (fun i hi => ?_) hsame.asking (fun _ _ hreg => hreg) (List.Subset.refl _)
  by_cases hsession : session = i
  · subst hsession
    exact asking_of_none hfresh
  · apply hs.mute
    simp only [nameOf, Rendezvous.onConnect] at hi
    rw [Keyed.getElem?_insert_of_ne hsession] at hi
    exact hi

theorem Awaited.onDisconnect (session : Nat) (data : ClientData) :
    Awaited (s.onDisconnect session data) := by
  have hsame := sameAsks_onDisconnect s session data
  refine hs.keep (fun i hi => hs.mute i ?_) hsame.asking (fun name i hreg => ?_) ?_
  · unfold Rendezvous.onDisconnect at hi
    split at hi <;> exact hi
  · unfold Rendezvous.onDisconnect at hreg
    split at hreg <;> exact hreg
  · rw [hsame.untried]
    exact List.Subset.refl _

theorem Awaited.ask (hframe : Frame s t) (h : Asks s session target t) : Awaited t := by
  have huntried : t.untried = (session, target) :: s.untried := by
    rw [Rendezvous.untried, h.queue, h.connect, Rendezvous.untried, List.cons_append]
  obtain ⟨own, hne, hown⟩ := h.named
  refine ⟨fun i hi => ?_, fun i => ?_, fun name name' i j hi hj hij hasks hback => ?_⟩
  · rw [hframe.names] at hi
    rw [h.asking, if_neg]
    · exact hs.mute i hi
    · rintro rfl
      rw [hown, Option.some.injEq] at hi
      exact hne hi
  · rw [h.asking]
    split
    · exact nodup_insertName (hs.once i)
    · exact hs.once i
  · -- an ask that is not the new one was there before
    have hold : ∀ {k : Nat} {wanted : Name}, wanted ∈ t.asking k →
        (k, wanted) = (session, target) ∨ wanted ∈ s.asking k := by
      intro k wanted hwanted
      rw [h.asking] at hwanted
      split at hwanted
      · next hk =>
        subst hk
        exact (mem_insertName.1 hwanted).imp_left fun h => by rw [h]
      · exact .inr hwanted
    rw [huntried]
    rw [hframe.registry] at hi hj
    rcases hold hasks with hnew | hasks
    · exact .inl (hnew ▸ List.mem_cons_self)
    · rcases hold hback with hnew | hback
      · exact .inr (hnew ▸ List.mem_cons_self)
      · exact (hs.untried name name' i j hi hj hij hasks hback).imp (List.mem_cons_of_mem _)
          (List.mem_cons_of_mem _)

/-- Who is given a name asks for nobody yet. -/
theorem Awaited.name {name : Name} (h : Named s session name t)
    (hsame : SameAsks s t) : Awaited t := by
  have hmute := hs.mute session h.unnamed
  refine ⟨fun i hi => ?_, fun i => ?_, fun own own' i j hi hj hij hasks hback => ?_⟩
  · rw [hsame.asking]
    rw [h.names] at hi
    split at hi
    · rw [Option.some.injEq] at hi
      exact absurd hi h.nonempty
    · exact hs.mute i hi
  · rw [hsame.asking]
    exact hs.once i
  · rw [hsame.asking] at hasks hback
    rw [hsame.untried]
    rw [h.registry] at hi hj
    rcases Keyed.getElem?_insert_cases hi with ⟨-, rfl⟩ | ⟨-, hi⟩
    · rw [hmute] at hasks
      cases hasks
    · rcases Keyed.getElem?_insert_cases hj with ⟨-, rfl⟩ | ⟨-, hj⟩
      · rw [hmute] at hback
        cases hback
      · exact hs.untried own own' i j hi hj hij hasks hback

end

/-- An ask is tried: it is no longer to be tried, and if the one it names asks back then it no
longer asks. -/
theorem awaited_tryPair (hs : Roster s) (hmute : ∀ i, s.nameOf i = some [] → s.asking i = [])
    (honce : ∀ i, (s.asking i).Nodup)
    (huntried : ∀ (name name' : Name) (i j : Nat), s.registry[name]? = some i →
      s.registry[name']? = some j → i ≠ j → name' ∈ s.asking i → name ∈ s.asking j →
      (i, name') ∈ (session, target) :: s.untried ∨ (j, name) ∈ (session, target) :: s.untried) :
    Awaited (tryPair config s session target punchId token) := by
  have hframe : Frame s (tryPair config s session target punchId token) := frame_tryPair
  have hsub : ∀ i, ((tryPair config s session target punchId token).asking i).Sublist _ :=
    asking_tryPair_sublist hs
  refine ⟨fun i hi => ?_, fun i => (honce i).sublist (hsub i), ?_⟩
  · rw [hframe.names] at hi
    have hnone := hsub i
    rw [hmute i hi] at hnone
    exact List.sublist_nil.1 hnone
  · intro name name' i j hi hj hne hasks hback
    rw [hframe.registry] at hi hj
    have hasks' := (hsub i).subset hasks
    have hback' := (hsub j).subset hback
    rw [untried_tryPair]
    rcases huntried name name' i j hi hj hne hasks' hback' with h | h
    · rcases List.mem_cons.1 h with h | h
      · cases h
        exact absurd hasks (tryPair_consumes hs hi hj hne hasks' hback' (honce _))
      · exact .inl h
    · rcases List.mem_cons.1 h with h | h
      · cases h
        exact absurd hback (tryPair_consumes hs hj hi hne.symm hback' hasks' (honce _))
      · exact .inr h

theorem awaited_of_step (hroster : Roster s) (hs : Awaited s)
    (hstep : (rendezvous config).step s e = some t) : Awaited t := by
  cases step_cases hstep with
  | connected session observed hfresh => exact hs.onConnect hfresh observed
  | departed session data _ _ => exact hs.onDisconnect session data
  | gathered session data candidates punchPort now _ hdata =>
    exact hs.frame (frame_onGathering hdata candidates punchPort now)
      (sameAsks_onGathering hdata candidates punchPort now)
  | asked session data target now _ hdata =>
    have hframe : Frame s (s.onConnectPeer config session data target now) :=
      frame_onConnectPeer hdata target now
    rcases onConnectPeer_cases config hdata target now with hsame | hasks
    · exact hs.frame hframe hsame
    · exact hs.ask hframe hasks
  | swapped hbatch =>
    refine hs.keep hs.mute (fun _ => rfl) (fun _ _ hreg => hreg) ?_
    rw [untried, hbatch]
    intro ask hask
    rw [List.append_nil] at hask
    exact hask
  | cleared _ _ _ name clear welcome connect hbatch =>
    refine hs.keep hs.mute (fun _ => rfl) (fun _ _ hreg => (Keyed.getElem?_erase_some hreg).2) ?_
    rw [untried, hbatch]
    exact List.Subset.refl _
  | welcomed draws _ _ session welcome connect hbatch =>
    have hpop : Awaited { s with batch := ⟨[], welcome, connect⟩ } := by
      refine hs.keep hs.mute (fun _ => rfl) (fun _ _ hreg => hreg) ?_
      rw [untried, hbatch]
      exact List.Subset.refl _
    have hsame := sameAsks_welcome config { s with batch := ⟨[], welcome, connect⟩ } session draws
    rcases welcome_cases config { s with batch := ⟨[], welcome, connect⟩ } session
      draws with hframe | ⟨name, hnamed⟩
    · exact hpop.frame hframe hsame
    · exact hpop.name hnamed hsame
  | tried _ punchId token session target connect hbatch =>
    have hpop : Roster { s with batch := ⟨[], [], connect⟩ } := hroster.pop (by rw [hbatch])
    refine awaited_tryPair hpop hs.mute hs.once fun name name' i j hi hj hne hasks hback => ?_
    have hmoved : ∀ ask, ask ∈ s.untried →
        ask ∈ (session, target) :: { s with batch := ⟨[], [], connect⟩ }.untried := by
      intro ask hask
      rw [untried, hbatch] at hask
      exact List.perm_middle.mem_iff.1 hask
    exact (hs.untried name name' i j hi hj hne hasks hback).imp (hmoved _) (hmoved _)
  | stopped => exact hs.frame ⟨fun _ => rfl, rfl, rfl, rfl, rfl, rfl⟩ ⟨fun _ => rfl, rfl, rfl, rfl⟩

/-! ## What a step changes -/

/-- Who asks for a name after a step asked before, or asks in that step. -/
theorem asking_of_step (hroster : Roster s) (hstep : (rendezvous config).step s e = some t)
    {name : Name} (h : name ∈ t.asking i) :
    name ∈ s.asking i ∨
      ∃ now, e = .connectPeer i name now ∧ t.connectPeerQueue ≠ s.connectPeerQueue := by
  cases step_cases hstep with
  | connected session observed hfresh =>
    rw [(sameAsks_onConnect hfresh observed).asking] at h
    exact .inl h
  | departed session data _ _ =>
    rw [(sameAsks_onDisconnect s session data).asking] at h
    exact .inl h
  | gathered session data candidates punchPort now _ hdata =>
    rw [(sameAsks_onGathering hdata candidates punchPort now).asking] at h
    exact .inl h
  | asked session data target now _ hdata =>
    rcases onConnectPeer_cases config hdata target now with hsame | hasks
    · rw [hsame.asking] at h
      exact .inl h
    · rw [hasks.asking] at h
      split at h
      · next hi =>
        subst hi
        rcases mem_insertName.1 h with rfl | h
        · refine .inr ⟨now, rfl, ?_⟩
          rw [hasks.queue]
          exact List.cons_ne_self _ _
        · exact .inl h
      · exact .inl h
  | swapped _ | cleared => exact .inl h
  | welcomed draws _ _ session welcome connect _ =>
    rw [(sameAsks_welcome config { s with batch := ⟨[], welcome, connect⟩ } session draws).asking]
      at h
    exact .inl h
  | tried _ punchId token session target connect hbatch =>
    have hpop : Roster { s with batch := ⟨[], [], connect⟩ } := hroster.pop (by rw [hbatch])
    exact .inl ((asking_tryPair_sublist hpop i).subset h)
  | stopped => exact .inl h

/-- A pair is made of two clients of which the one asks for the name that is registered to the
other, and the other asks back. -/
structure Paired (config : RendezvousConfig) (s : Rendezvous) (punchId : BitVec 64)
    (token : Option (BitVec 64)) (session other : Nat) (data otherData : ClientData) (target : Name)
    (connect : List (Nat × Name)) (t : Rendezvous) : Prop where
  batch : s.batch = ⟨[], [], (session, target) :: connect⟩
  asker : s.clients[session]? = some data
  asked : s.clients[other]? = some otherData
  asks : target ∈ s.asking session
  back : data.peerName ∈ s.asking other
  notSelf : target ≠ data.peerName
  registered : s.registry[target]? = some other
  after : t = { s with batch := ⟨[], [], connect⟩ }.pair config session other data otherData target
    punchId token

/-- A step offers nothing, or makes a pair. -/
theorem offers_of_step (hstep : (rendezvous config).step s e = some t) :
    t.offers = s.offers ∨
      ∃ draws punchId token session other data otherData target connect,
        e = .work draws punchId token ∧
        Paired config s punchId token session other data otherData target connect t := by
  cases step_cases hstep with
  | connected session observed hfresh => exact .inl (sameAsks_onConnect hfresh observed).offers
  | departed session data _ _ => exact .inl (sameAsks_onDisconnect s session data).offers
  | gathered session data candidates punchPort now _ hdata =>
    exact .inl (sameAsks_onGathering hdata candidates punchPort now).offers
  | asked session data target now _ hdata =>
    rcases onConnectPeer_cases config hdata target now with hsame | hasks
    · exact .inl hsame.offers
    · exact .inl hasks.offers
  | swapped _ | cleared => exact .inl rfl
  | welcomed draws _ _ session welcome connect _ =>
    exact .inl (sameAsks_welcome config { s with batch := ⟨[], welcome, connect⟩ } session
      draws).offers
  | tried draws punchId token session target connect hbatch =>
    generalize htry : tryPair config { s with batch := ⟨[], [], connect⟩ } session target punchId
      token = t
    obtain rfl | ⟨data, -, -, rfl⟩ | ⟨data, other, -, -, rfl⟩ |
      ⟨data, other, otherData, hdata, hpending, hself, hreg, hother, hback, rfl⟩ :=
        tryPair_cases htry
    · exact .inl rfl
    · exact .inl rfl
    · exact .inl rfl
    · refine .inr ⟨draws, punchId, token, session, other, data, otherData, target, connect, rfl,
        hbatch, hdata, hother, ?_, ?_, hself, hreg, rfl⟩
      · rw [show s.asking session = data.pendingTargets from asking_of_some hdata]
        exact hpending
      · rw [show s.asking other = otherData.pendingTargets from asking_of_some hother]
        exact hback
  | stopped => exact .inl rfl

theorem registry_welcome (config : RendezvousConfig) (s : Rendezvous) (session : Nat)
    (draws : Nat → Name) (name : Name) :
    (welcome config s session draws).registry[name]? = s.registry[name]? ∨
      name = s.generateUniqueName draws := by
  rw [welcome]
  split
  · exact .inl rfl
  · split
    · exact .inl rfl
    · dsimp only
      split
      · exact .inl rfl
      · by_cases hname : s.generateUniqueName draws = name
        · exact .inr hname.symm
        · exact .inl (Keyed.getElem?_insert_of_ne hname _)

/-- A name once given is kept. -/
theorem nameOf_of_step (hstep : (rendezvous config).step s e = some t) {name : Name}
    (hname : s.nameOf i = some name) (hne : name ≠ []) :
    t.nameOf i = some name := by
  cases effect_of_step hstep with
  | connected session observed hfresh =>
    have hi : session ≠ i := by
      rintro rfl
      rw [nameOf, hfresh] at hname
      cases hname
    rw [← hname]
    simp only [nameOf, Rendezvous.onConnect]
    rw [Keyed.getElem?_insert_of_ne hi]
  | departed session data _ _ =>
    unfold Rendezvous.onDisconnect
    split <;> exact hname
  | swapped | cleared => exact hname
  | named _ hnamed =>
    rw [hnamed.names, if_neg]
    · exact hname
    · rintro rfl
      have hempty := hnamed.unnamed.symm.trans hname
      rw [Option.some.injEq] at hempty
      exact hne hempty.symm
  | passed _ _ _ hframe => exact (hframe.names i).trans hname

/-- A name stays registered unless it is one to clear. -/
theorem registered_of_step (hstep : (rendezvous config).step s e = some t) {name : Name}
    (hreg : s.registry[name]? = some i) (hclear : name ∉ s.batch.clear) :
    t.registry[name]? = some i := by
  cases effect_of_step hstep with
  | connected => exact hreg
  | departed session data _ _ =>
    unfold Rendezvous.onDisconnect
    split <;> exact hreg
  | swapped => exact hreg
  | cleared hbatch =>
    refine (Keyed.getElem?_erase_of_ne ?_).trans hreg
    rintro rfl
    rw [hbatch] at hclear
    exact hclear List.mem_cons_self
  | named _ hnamed =>
    rw [hnamed.registry]
    refine (Keyed.getElem?_insert_of_ne ?_ _).trans hreg
    rintro rfl
    have htaken := hnamed.free.symm.trans hreg
    cases htaken
  | passed _ _ _ hframe =>
    rw [hframe.registry]
    exact hreg

/-- The pairing thread takes the queues, or what it has taken gets no longer. -/
theorem batch_of_step (hstep : (rendezvous config).step s e = some t) :
    t = s.swap ∨ t.batch.clear ⊆ s.batch.clear ∧ t.batch.connect ⊆ s.batch.connect := by
  cases effect_of_step hstep with
  | connected => exact .inr ⟨List.Subset.refl _, List.Subset.refl _⟩
  | departed session data _ _ =>
    unfold Rendezvous.onDisconnect
    split <;> exact .inr ⟨List.Subset.refl _, List.Subset.refl _⟩
  | swapped => exact .inl rfl
  | cleared hbatch =>
    rw [hbatch]
    exact .inr ⟨List.subset_cons_self _ _, List.Subset.refl _⟩
  | named hbatch hnamed =>
    rw [hbatch, hnamed.batch]
    exact .inr ⟨List.Subset.refl _, List.Subset.refl _⟩
  | passed hclear _ hconnect hframe =>
    rw [hframe.batch]
    exact .inr ⟨hclear ▸ List.Subset.refl _, hconnect⟩

/-- Who leaves in a step is the one it says, and who asks in it is there and has a name. -/
theorem queue_of_step (hstep : (rendezvous config).step s e = some t) :
    ((∀ i ∈ t.disconnected, i ∈ s.disconnected ∨ e = .disconnect i) ∧
      ∀ ask ∈ t.connectPeerQueue, ask ∈ s.connectPeerQueue ∨
        ask.1 ∉ s.disconnected ∧ (∃ now, e = .connectPeer ask.1 ask.2 now) ∧
          ∃ name, s.nameOf ask.1 = some name ∧ name ≠ []) := by
  have hsame : ∀ {u : Rendezvous}, u.disconnected = s.disconnected →
      u.connectPeerQueue = s.connectPeerQueue →
      (∀ i ∈ u.disconnected, i ∈ s.disconnected ∨ e = .disconnect i) ∧
        ∀ ask ∈ u.connectPeerQueue, ask ∈ s.connectPeerQueue ∨
          ask.1 ∉ s.disconnected ∧ (∃ now, e = .connectPeer ask.1 ask.2 now) ∧
            ∃ name, s.nameOf ask.1 = some name ∧ name ≠ [] := by
    intro u hdisconnected hqueue
    rw [hdisconnected, hqueue]
    exact ⟨fun _ hi => .inl hi, fun _ hask => .inl hask⟩
  cases step_cases hstep with
  | connected => exact hsame rfl rfl
  | departed session data _ _ =>
    have hleft : (s.onDisconnect session data).disconnected = session :: s.disconnected := by
      unfold Rendezvous.onDisconnect
      split <;> rfl
    rw [hleft, (sameAsks_onDisconnect s session data).queue]
    refine ⟨fun i hi => ?_, fun _ hask => .inl hask⟩
    rcases List.mem_cons.1 hi with rfl | hi
    · exact .inr rfl
    · exact .inl hi
  | gathered session data candidates punchPort now _ hdata =>
    exact hsame (frame_onGathering hdata candidates punchPort now).disconnected
      (sameAsks_onGathering hdata candidates punchPort now).queue
  | asked session data target now hhere hdata =>
    have hframe : Frame s (s.onConnectPeer config session data target now) :=
      frame_onConnectPeer hdata target now
    rcases onConnectPeer_cases config hdata target now with hkept | hasks
    · exact hsame hframe.disconnected hkept.queue
    · rw [hframe.disconnected, hasks.queue]
      refine ⟨fun _ hi => .inl hi, fun ask hask => ?_⟩
      rcases List.mem_cons.1 hask with rfl | hask
      · obtain ⟨name, hne, hname⟩ := hasks.named
        exact .inr ⟨hhere, ⟨now, rfl⟩, name, hname, hne⟩
      · exact .inl hask
  | swapped _ =>
    refine ⟨fun _ hi => .inl hi, fun ask hask => ?_⟩
    cases hask
  | cleared => exact hsame rfl rfl
  | welcomed draws _ _ session welcome connect _ =>
    have hqueue := (sameAsks_welcome config { s with batch := ⟨[], welcome, connect⟩ } session
      draws).queue
    rcases welcome_cases config { s with batch := ⟨[], welcome, connect⟩ } session
      draws with hframe | ⟨given, hnamed⟩
    · exact hsame hframe.disconnected hqueue
    · exact hsame hnamed.disconnected hqueue
  | tried _ punchId token session target connect _ =>
    refine hsame frame_tryPair.disconnected ?_
    exact queue_tryPair
  | stopped => exact hsame rfl rfl

end Rendezvous

end P2p
end Znet

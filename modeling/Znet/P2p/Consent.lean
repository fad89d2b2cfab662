import Znet.P2p.Pairing

/-!
# Pairing by mutual consent

The rendezvous server keeps no record of whom an ask was meant for: it keeps the name, and names
change hands.  Here the server runs beside a history that does: each ask with the client that had
the name when it was asked for, the asks that each pair consumed, and the punch ids that were
drawn.

* `paired_by_consent` — **every pair is wanted by both** in the runs in which nobody leaves with an
  ask in the queue and no name is given that an outstanding ask is for (`consenting`).
-/

namespace Znet
namespace P2p

/-! ## The history of the asks -/

/-- An ask, and who had the name when it was asked for. -/
structure Ask where
  number : Nat
  session : Nat
  target : Name
  holder : Option Nat
  deriving DecidableEq

/-- The server with the history of its asks. -/
structure Brokered where
  server : Rendezvous := {}
  /-- The asks that are outstanding. -/
  asks : List Ask := []
  /-- How many asks were made. -/
  made : Nat := 0
  /-- The asks that each pair consumed, by their numbers. -/
  pairs : List (List Nat) := []
  /-- The punch ids that were drawn. -/
  drawn : List (BitVec 64) := []

namespace Brokered

open Rendezvous

/-- An ask is outstanding while its client asks for the name. -/
def outstanding (t : Rendezvous) (ask : Ask) : Bool :=
  (t.asking ask.session).contains ask.target

/-- The ask that is made in a step, if the server takes it. -/
def newAsks (b : Brokered) (t : Rendezvous) : RendezvousEvent → List Ask
  | .connectPeer session target _ =>
    if t.connectPeerQueue = b.server.connectPeerQueue then []
    else [⟨b.made, session, target, b.server.registry[target]?⟩]
  | _ => []

/-- The id that a step draws, if it offers. -/
def newIds (b : Brokered) (t : Rendezvous) : RendezvousEvent → List (BitVec 64)
  | .work _ punchId _ => if b.server.offers.length < t.offers.length then [punchId] else []
  | _ => []

/-- The history after a step of the server: the asks that are no longer outstanding after a step
that offers were consumed by its pair. -/
def advance (b : Brokered) (e : RendezvousEvent) (t : Rendezvous) : Brokered :=
  let asks := b.newAsks t e ++ b.asks
  { server := t
    asks := asks.filter (outstanding t)
    made := b.made + (b.newAsks t e).length
    pairs :=
      if b.server.offers.length < t.offers.length then
        (asks.filter fun ask => !outstanding t ask).map Ask.number :: b.pairs
      else b.pairs
    drawn := b.newIds t e ++ b.drawn }

end Brokered

/-- Runs of the server with their history. -/
def brokered (config : RendezvousConfig) : Machine Brokered RendezvousEvent where
  step b e := ((rendezvous config).step b.server e).map (b.advance e)

namespace Brokered

open Rendezvous

variable {config : RendezvousConfig} {b b' : Brokered}

variable {e : RendezvousEvent} {t s : Rendezvous} {ask : Ask} {punchId : BitVec 64}
  {token : Option (BitVec 64)} {session other : Nat} {data otherData : ClientData} {target : Name}
  {connect : List (Nat × Name)}

theorem step_eq_some (h : (brokered config).step b e = some b') :
    ∃ t, (rendezvous config).step b.server e = some t ∧ b' = b.advance e t := by
  obtain ⟨t, ht, rfl⟩ := Option.map_eq_some_iff.1 h
  exact ⟨t, ht, rfl⟩

theorem mem_newAsks (h : ask ∈ b.newAsks t e) :
    ∃ now, e = .connectPeer ask.session ask.target now ∧ ask.number = b.made ∧
      ask.holder = b.server.registry[ask.target]? := by
  unfold newAsks at h
  split at h
  · next session target now =>
    split at h
    · cases h
    · obtain rfl := List.mem_singleton.1 h
      exact ⟨now, rfl, rfl, rfl⟩
  · cases h

theorem length_newAsks_le (b : Brokered) (t : Rendezvous) (e : RendezvousEvent) :
    (b.newAsks t e).length ≤ 1 := by
  unfold newAsks
  split
  · split <;> simp
  · simp

/-- The history is the server's: what a client asks for it has asked for, no ask was consumed
twice, and the ids of the offers were drawn. -/
structure Recorded (b : Brokered) : Prop where
  backed : ∀ (i : Nat) (name : Name), name ∈ b.server.asking i →
    ∃ ask ∈ b.asks, ask.session = i ∧ ask.target = name
  numbered : ∀ number ∈ b.pairs.flatten ++ b.asks.map Ask.number, number < b.made
  once : (b.pairs.flatten ++ b.asks.map Ask.number).Nodup
  ids : ∀ i target punchId connectionType candidates,
    (i, Outgoing.punchOffer target punchId connectionType candidates) ∈ b.server.offers →
      punchId ∈ b.drawn

theorem recorded_empty : Recorded {} := by
  refine ⟨fun i name h => ?_, fun number h => ?_, List.nodup_nil, fun _ _ _ _ _ h => ?_⟩
  · simp [asking] at h
  · cases h
  · cases h

theorem backed_advance (hroster : Roster b.server) (h : Recorded b)
    (hstep : (rendezvous config).step b.server e = some t) (i : Nat) (name : Name)
    (hasks : name ∈ t.asking i) :
    ∃ ask ∈ (b.advance e t).asks, ask.session = i ∧ ask.target = name := by
  have hfound : ∃ ask ∈ b.newAsks t e ++ b.asks, ask.session = i ∧ ask.target = name := by
    rcases asking_of_step hroster hstep hasks with hold | ⟨now, rfl, hqueue⟩
    · obtain ⟨ask, hask, hsame⟩ := h.backed i name hold
      exact ⟨ask, List.mem_append_right _ hask, hsame⟩
    · refine ⟨⟨b.made, i, name, b.server.registry[name]?⟩, List.mem_append_left _ ?_, rfl, rfl⟩
      rw [newAsks, if_neg hqueue]
      exact List.mem_singleton_self _
  obtain ⟨ask, hask, rfl, rfl⟩ := hfound
  exact ⟨ask, List.mem_filter.2 ⟨hask, List.contains_iff_mem.2 hasks⟩, rfl, rfl⟩

/-- The numbers of the asks before a step that are consumed or outstanding, with the new one. -/
theorem once_newAsks (h : Recorded b) (t : Rendezvous) (e : RendezvousEvent) :
    (b.pairs.flatten ++ (b.newAsks t e ++ b.asks).map Ask.number).Nodup ∧
      ∀ number ∈ b.pairs.flatten ++ (b.newAsks t e ++ b.asks).map Ask.number,
        number < b.made + (b.newAsks t e).length := by
  have hnew : b.newAsks t e = [] ∨ ∃ ask, b.newAsks t e = [ask] ∧ ask.number = b.made := by
    cases hasks : b.newAsks t e with
    | nil => exact .inl rfl
    | cons ask rest =>
      have hlength := length_newAsks_le b t e
      rw [hasks, List.length_cons] at hlength
      have hrest : rest = [] := List.eq_nil_of_length_eq_zero (by omega)
      subst hrest
      obtain ⟨-, -, hnumber, -⟩ := mem_newAsks (hasks ▸ List.mem_singleton_self ask)
      exact .inr ⟨ask, rfl, hnumber⟩
  rcases hnew with hnew | ⟨ask, hnew, hnumber⟩
  · rw [hnew]
    exact ⟨h.once, h.numbered⟩
  · rw [hnew, List.singleton_append, List.map_cons, hnumber, List.length_singleton]
    refine ⟨List.perm_middle.nodup_iff.2 (List.nodup_cons.2 ⟨fun hmem => ?_, h.once⟩),
      fun number hmem => ?_⟩
    · exact Nat.lt_irrefl _ (h.numbered _ hmem)
    · rcases List.mem_cons.1 (List.perm_middle.mem_iff.1 hmem) with rfl | hmem
      · exact Nat.lt_succ_self _
      · exact Nat.lt_succ_of_lt (h.numbered _ hmem)

/-- What a step consumes and what it leaves are the asks before it. -/
theorem numbers_advance (b : Brokered) (e : RendezvousEvent) (t : Rendezvous) :
    ∃ rest, ((b.advance e t).pairs.flatten ++ (b.advance e t).asks.map Ask.number ++ rest).Perm
      (b.pairs.flatten ++ (b.newAsks t e ++ b.asks).map Ask.number) := by
  have hsplit := (List.filter_append_perm (outstanding t) (b.newAsks t e ++ b.asks)).map Ask.number
  rw [List.map_append] at hsplit
  simp only [advance]
  split
  · refine ⟨[], ?_⟩
    rw [List.append_nil, List.flatten_cons]
    refine List.Perm.trans ?_ (hsplit.append_left _)
    refine (List.perm_append_comm.append_right _).trans ?_
    rw [List.append_assoc]
    exact List.perm_append_comm.append_left _
  · refine ⟨((b.newAsks t e ++ b.asks).filter fun ask => !outstanding t ask).map Ask.number, ?_⟩
    rw [List.append_assoc]
    exact hsplit.append_left _

theorem offers_pair
    (h : Paired config s punchId token session other data otherData target connect t) :
    t.offers = (other, offerOf config data punchId token) ::
      (session, offerOf config otherData punchId token) :: s.offers := by
  rw [h.after]
  rfl

theorem asking_of_paired
    (h : Paired config s punchId token session other data otherData target connect t)
    (hne : session ≠ other) (i : Nat) :
    t.asking i =
      if session = i then (s.asking i).erase target
      else if other = i then (s.asking i).erase data.peerName else s.asking i := by
  rw [h.after]
  exact asking_pair hne i

theorem ids_advance (h : Recorded b) (hstep : (rendezvous config).step b.server e = some t)
    (i : Nat) (target : Name) (punchId : BitVec 64) (connectionType : ConnectionType)
    (candidates : List Candidate)
    (hoffer : (i, Outgoing.punchOffer target punchId connectionType candidates) ∈ t.offers) :
    punchId ∈ (b.advance e t).drawn := by
  rcases offers_of_step hstep with hsame | ⟨draws, id, token, session, other, data, otherData,
    wanted, connect, rfl, hpaired⟩
  · rw [hsame] at hoffer
    exact List.mem_append_right _ (h.ids i target punchId connectionType candidates hoffer)
  · have hoffers := offers_pair hpaired
    have hdrawn : (b.advance (.work draws id token) t).drawn = id :: b.drawn := by
      simp only [advance, newIds, hoffers, List.length_cons]
      rw [if_pos (by omega)]
      rfl
    rw [hoffers] at hoffer
    rw [hdrawn]
    rcases List.mem_cons.1 hoffer with hnew | hoffer
    · cases hnew
      exact List.mem_cons_self
    · rcases List.mem_cons.1 hoffer with hnew | hoffer
      · cases hnew
        exact List.mem_cons_self
      · exact List.mem_cons_of_mem _ (h.ids i target punchId connectionType candidates hoffer)

theorem recorded_of_step (hroster : Roster b.server) (h : Recorded b)
    (hstep : (rendezvous config).step b.server e = some t) :
    Recorded (b.advance e t) := by
  obtain ⟨honce, hnumbered⟩ := once_newAsks h t e
  obtain ⟨rest, hperm⟩ := numbers_advance b e t
  refine ⟨backed_advance hroster h hstep, fun number hnumber => ?_, ?_, ids_advance h hstep⟩
  · exact hnumbered number (hperm.mem_iff.1 (List.mem_append_left _ hnumber))
  · exact (hperm.nodup_iff.2 honce).of_append_left

/-! ## Who had the name -/

/-- Nobody leaves with an ask in the queue, and no name is given that an outstanding ask is
for. -/
def consenting (b : Brokered) : RendezvousEvent → Bool
  | .disconnect session => decide (∀ ask ∈ b.server.connectPeerQueue, ask.1 ≠ session)
  | .work draws _ _ =>
    match b.server.batch with
    | ⟨[], _ :: _, _⟩ => decide (∀ ask ∈ b.asks, ask.target ≠ b.server.generateUniqueName draws)
    | _ => true
  | _ => true

/-- Nobody but the one who had the name when it was asked for has it, and whose ask is still to be
tried is registered when it is. -/
structure Honest (b : Brokered) : Prop where
  held : ∀ ask ∈ b.asks, b.server.registry[ask.target]? = none ∨
    b.server.registry[ask.target]? = ask.holder
  queued : ∀ ask ∈ b.server.connectPeerQueue, ask.1 ∉ b.server.disconnected ∧
    ∃ name, b.server.nameOf ask.1 = some name ∧ name ≠ []
  taken : ∀ ask ∈ b.server.batch.connect, ∃ name, b.server.nameOf ask.1 = some name ∧
    b.server.registry[name]? = some ask.1 ∧ name ∉ b.server.batch.clear

theorem honest_empty : Honest {} := by
  refine ⟨fun ask h => ?_, fun ask h => ?_, fun ask h => ?_⟩
  · cases h
  · cases h
  · cases h

/-- A name is as before, or free, unless it is given in this step. -/
theorem registry_of_step (hstep : (rendezvous config).step b.server e = some t)
    (hconsent : consenting b e = true) (hask : ask ∈ b.asks) :
    t.registry[ask.target]? = b.server.registry[ask.target]? ∨ t.registry[ask.target]? = none := by
  cases step_cases hstep with
  | connected => exact .inl rfl
  | departed session data _ _ =>
    unfold Rendezvous.onDisconnect
    split <;> exact .inl rfl
  | gathered session data candidates punchPort now _ hdata =>
    have hframe : Rendezvous.Frame b.server
        (b.server.onGathering config session data candidates punchPort
      now) := frame_onGathering hdata candidates punchPort now
    rw [hframe.registry]
    exact .inl rfl
  | asked session data target now _ hdata =>
    have hframe : Rendezvous.Frame b.server
        (b.server.onConnectPeer config session data target now) :=
      frame_onConnectPeer hdata target now
    rw [hframe.registry]
    exact .inl rfl
  | swapped => exact .inl rfl
  | cleared _ _ _ name clear welcome connect _ =>
    by_cases hname : name = ask.target
    · subst hname
      exact .inr Std.ExtTreeMap.getElem?_erase_self
    · exact .inl (Keyed.getElem?_erase_of_ne hname)
  | welcomed draws _ _ session welcome connect hbatch =>
    rcases registry_welcome config { b.server with batch := ⟨[], welcome, connect⟩ } session draws
      ask.target with hsame | hgiven
    · exact .inl hsame
    · simp only [consenting, hbatch] at hconsent
      exact absurd hgiven (of_decide_eq_true hconsent ask hask)
  | tried _ punchId token session target connect hbatch =>
    have hframe : Rendezvous.Frame { b.server with batch := ⟨[], [], connect⟩ } (tryPair config
      { b.server with batch := ⟨[], [], connect⟩ } session target punchId token) :=
      frame_tryPair
    rw [hframe.registry]
    exact .inl rfl
  | stopped => exact .inl rfl

theorem held_advance (h : Honest b) (hstep : (rendezvous config).step b.server e = some t)
    (hconsent : consenting b e = true) :
    ∀ ask ∈ (b.advance e t).asks, t.registry[ask.target]? = none ∨
      t.registry[ask.target]? = ask.holder := by
  intro ask hask
  rcases List.mem_append.1 (List.mem_filter.1 hask).1 with hnew | hold
  · obtain ⟨now, rfl, -, hholder⟩ := mem_newAsks hnew
    cases step_cases hstep with
    | asked session data target now _ hdata =>
      have hframe : Rendezvous.Frame b.server
          (b.server.onConnectPeer config ask.session data ask.target now) :=
        frame_onConnectPeer hdata ask.target now
      rw [hframe.registry, hholder]
      exact .inr rfl
  · rcases registry_of_step hstep hconsent hold with hsame | hnone
    · rw [hsame]
      exact h.held ask hold
    · exact .inl hnone

theorem queued_advance (h : Honest b) (hstep : (rendezvous config).step b.server e = some t)
    (hconsent : consenting b e = true) :
    ∀ ask ∈ t.connectPeerQueue, ask.1 ∉ t.disconnected ∧
      ∃ name, t.nameOf ask.1 = some name ∧ name ≠ [] := by
  intro ask hask
  obtain ⟨hleft, hqueue⟩ := queue_of_step hstep
  rcases hqueue ask hask with hold | ⟨hhere, ⟨now, rfl⟩, name, hname, hne⟩
  · obtain ⟨hhere, name, hname, hne⟩ := h.queued ask hold
    refine ⟨fun hgone => ?_, name, nameOf_of_step hstep hname hne, hne⟩
    rcases hleft ask.1 hgone with hgone | rfl
    · exact hhere hgone
    · exact of_decide_eq_true hconsent ask hold rfl
  · refine ⟨fun hgone => ?_, name, nameOf_of_step hstep hname hne, hne⟩
    rcases hleft ask.1 hgone with hgone | hother
    · exact hhere hgone
    · cases hother

theorem taken_advance (hroster : Roster b.server) (h : Honest b)
    (hstep : (rendezvous config).step b.server e = some t) :
    ∀ ask ∈ t.batch.connect, ∃ name, t.nameOf ask.1 = some name ∧
      t.registry[name]? = some ask.1 ∧ name ∉ t.batch.clear := by
  intro ask hask
  rcases batch_of_step hstep with rfl | ⟨hclear, hconnect⟩
  · obtain ⟨hhere, name, hname, hne⟩ := h.queued ask hask
    have hreg := hroster.here ask.1 name hname hne hhere
    refine ⟨name, hname, hreg, fun hclear => ?_⟩
    -- a name to clear is one of a client that has left
    obtain ⟨i, hi, hreg'⟩ := hroster.clearing name (List.mem_append_left _ hclear)
    rw [hreg, Option.some.injEq] at hreg'
    exact hhere (hreg' ▸ hi)
  · obtain ⟨name, hname, hreg, hstays⟩ := h.taken ask (hconnect hask)
    obtain ⟨-, hne⟩ := hroster.named name ask.1 hreg
    exact ⟨name, nameOf_of_step hstep hname hne, registered_of_step hstep hreg hstays,
      fun hmem => hstays (hclear hmem)⟩

/-- What holds of the server and its history in every run in which the condition is met. -/
structure Sound (b : Brokered) : Prop where
  roster : Roster b.server
  awaited : Awaited b.server
  recorded : Recorded b
  honest : Honest b

theorem sound_of_step (h : Sound b) (hconsent : consenting b e = true)
    (hstep : (brokered config).step b e = some b') : Sound b' := by
  obtain ⟨t, hserver, rfl⟩ := step_eq_some hstep
  exact ⟨roster_of_step h.roster hserver, awaited_of_step h.roster h.awaited hserver,
    recorded_of_step h.roster h.recorded hserver, held_advance h.honest hserver hconsent,
    queued_advance h.honest hserver hconsent, taken_advance h.roster h.honest hserver⟩

theorem sound_of_run {es : List RendezvousEvent}
    (hrun : GuardedRun (brokered config) (fun b e => consenting b e = true) {} es b) : Sound b :=
  hrun.invariant (I := Sound) (fun _ _ _ h hconsent hstep => sound_of_step h hconsent hstep)
    ⟨roster_empty, awaited_empty, recorded_empty, honest_empty⟩

/-! ## What an offer carries -/

/-- The relay tokens in a packet. -/
def relayTokens : Outgoing → List (BitVec 64)
  | .punchOffer _ _ _ candidates =>
    (candidates.filter fun candidate => decide (candidate.type = .relayed)).map Candidate.relayToken
  | _ => []

variable (client : ClientData)

/-- What is appended to the candidates of an offer is of the host type. -/
theorem relayed_withHosts (out : List Candidate)
    (hout : ∀ candidate ∈ out, candidate.type ≠ .relayed) :
    ∀ candidate ∈ withHosts client out, candidate.type ≠ .relayed := by
  unfold withHosts
  induction client.candidates generalizing out with
  | nil => exact hout
  | cons candidate candidates ih =>
    rw [List.foldl_cons]
    apply ih
    split
    · next hhost =>
      intro other hother
      rcases List.mem_append.1 hother with hother | hother
      · exact hout other hother
      · rw [List.mem_singleton.1 hother, hhost.1]
        decide
    · exact hout

theorem relayed_reflexive : ∀ candidate ∈ reflexive client, candidate.type ≠ .relayed := by
  intro candidate hmem
  unfold reflexive at hmem
  dsimp only at hmem
  split at hmem
  · rw [of_decide_eq_true (List.mem_filter.1 hmem).2]
    decide
  · rw [List.mem_singleton.1 hmem]
    exact fun h => by cases h

/-- The one relayed candidate of an offer is the pair's. -/
theorem relayTokens_offerOf (config : RendezvousConfig) (data : ClientData) (punchId : BitVec 64)
    (token : Option (BitVec 64)) :
    relayTokens (offerOf config data punchId token) =
      (relayedCandidate config token).toList.map Candidate.relayToken := by
  have hown : ∀ n, ((withHosts data (reflexive data)).take n).filter
      (fun candidate => decide (candidate.type = .relayed)) = [] := by
    intro n
    rw [List.filter_eq_nil_iff]
    intro candidate hmem hrelayed
    exact relayed_withHosts data _ (relayed_reflexive data) candidate (List.mem_of_mem_take hmem)
      (of_decide_eq_true hrelayed)
  simp only [relayTokens, offerOf, offerCandidates]
  split
  · next hnone => rw [hown, hnone, Option.toList_none]
  · next relayed hsome =>
    have htype : relayed.type = .relayed := by
      unfold relayedCandidate at hsome
      split at hsome
      · rw [← Option.some.inj hsome]
      · cases hsome
    rw [List.filter_append, hown, hsome, List.nil_append, Option.toList_some]
    simp [htype]

/-! ## Every pair is wanted by both -/

/-- A pair that both wanted: two clients, each registered under the name the other is told, each
with an outstanding ask for that name that it made when the other had it, which this pair
consumes; both are told the id that was drawn for them and the same relay token, or none. -/
structure Consented (config : RendezvousConfig) (b : Brokered) (punchId : BitVec 64)
    (token : Option (BitVec 64)) (session other : Nat) (data otherData : ClientData)
    (consumed : List Nat) (b' : Brokered) : Prop where
  distinct : session ≠ other
  asker : b.server.clients[session]? = some data
  asked : b.server.clients[other]? = some otherData
  askerNamed : b.server.registry[data.peerName]? = some session
  askedNamed : b.server.registry[otherData.peerName]? = some other
  ask : ∃ ask ∈ b.asks, ask.session = session ∧ ask.target = otherData.peerName ∧
    ask.holder = some other ∧ ask.number ∈ consumed
  back : ∃ ask ∈ b.asks, ask.session = other ∧ ask.target = data.peerName ∧
    ask.holder = some session ∧ ask.number ∈ consumed
  pairs : b'.pairs = consumed :: b.pairs
  sent : b'.server.sent = (other, offerOf config data punchId token) ::
    (session, offerOf config otherData punchId token) :: b.server.sent
  tokens : relayTokens (offerOf config data punchId token) =
    relayTokens (offerOf config otherData punchId token)
  fresh : punchId ∉ b.drawn → ∀ i target connectionType candidates,
    (i, Outgoing.punchOffer target punchId connectionType candidates) ∉ b.server.offers

/-- What a pair consumes: an ask that is outstanding before it and not after. -/
theorem consumed_of_pair (h : Recorded b) {i : Nat} {name : Name} (hasks : name ∈ b.server.asking i)
    (hafter : name ∉ t.asking i) :
    ∃ ask ∈ b.asks, ask.session = i ∧ ask.target = name ∧
      ask.number ∈ ((b.newAsks t e ++ b.asks).filter fun ask => !outstanding t ask).map
        Ask.number := by
  obtain ⟨ask, hask, rfl, rfl⟩ := h.backed i name hasks
  refine ⟨ask, hask, rfl, rfl, List.mem_map.2 ⟨ask, List.mem_filter.2 ⟨?_, ?_⟩, rfl⟩⟩
  · exact List.mem_append_right _ hask
  · simp [outstanding, hafter]

/-- A pair is consented to by both of its clients. -/
theorem consented_of_pair {draws : Nat → Name} (h : Sound b)
    (hpaired : Paired config b.server punchId token session other data otherData target connect t) :
    ∃ consumed, Consented config b punchId token session other data otherData consumed
      (b.advance (.work draws punchId token) t) := by
  have hne := h.roster.ne_of_registered hpaired.asker hpaired.notSelf hpaired.registered
  -- the one who asked is registered, since its ask was among those taken
  obtain ⟨own, hown, hasker, -⟩ := h.honest.taken (session, target) (by
    rw [hpaired.batch]
    exact List.mem_cons_self)
  rw [nameOf_of_some hpaired.asker, Option.some.injEq] at hown
  subst hown
  obtain ⟨hother, -⟩ := h.roster.named target other hpaired.registered
  rw [nameOf_of_some hpaired.asked, Option.some.injEq] at hother
  subst hother
  have hasking := asking_of_paired hpaired hne
  have hasked : otherData.peerName ∉ t.asking session := by
    rw [hasking, if_pos rfl]
    exact (h.awaited.once session).not_mem_erase
  have hback : data.peerName ∉ t.asking other := by
    rw [hasking, if_neg hne, if_pos rfl]
    exact (h.awaited.once other).not_mem_erase
  have hheld : ∀ {ask : Ask} {i : Nat}, ask ∈ b.asks →
      b.server.registry[ask.target]? = some i → ask.holder = some i := by
    intro ask i hask hreg
    rcases h.honest.held ask hask with hnone | hholder
    · rw [hreg] at hnone
      cases hnone
    · rw [← hholder, hreg]
  obtain ⟨ask, hask, rfl, htarget, hconsumed⟩ :=
    consumed_of_pair (e := .work draws punchId token) h.recorded hpaired.asks hasked
  obtain ⟨ask', hask', rfl, htarget', hconsumed'⟩ :=
    consumed_of_pair (e := .work draws punchId token) h.recorded hpaired.back hback
  have hoffers := offers_pair hpaired
  refine ⟨_, hne, hpaired.asker, hpaired.asked, hasker, hpaired.registered,
    ⟨ask, hask, rfl, htarget, ?_, hconsumed⟩, ⟨ask', hask', rfl, htarget', ?_, hconsumed'⟩,
      ?_, ?_, ?_, ?_⟩
  · exact hheld hask (htarget.symm ▸ hpaired.registered)
  · exact hheld hask' (htarget'.symm ▸ hasker)
  · simp only [advance]
    rw [if_pos]
    rw [hoffers, List.length_cons, List.length_cons]
    omega
  · rw [hpaired.after]
    rfl
  · rw [relayTokens_offerOf, relayTokens_offerOf]
  · intro hfresh i target connectionType candidates hoffer
    exact hfresh (h.recorded.ids i target punchId connectionType candidates hoffer)

/-- **Every pair is wanted by both.**  If nobody leaves with an ask in the queue and no name is
given that an outstanding ask is for, then a step that offers makes a pair that both wanted; no
ask is consumed by two pairs; and with no ask left to try, no two registered clients ask for each
other. -/
theorem paired_by_consent {es : List RendezvousEvent}
    (hrun : GuardedRun (brokered config) (fun b e => consenting b e = true) {} es b) :
    (∀ e b', (brokered config).step b e = some b' →
      b.server.offers.length < b'.server.offers.length →
      ∃ draws punchId token session other data otherData consumed,
        e = .work draws punchId token ∧
        Consented config b punchId token session other data otherData consumed b') ∧
    b.pairs.flatten.Nodup ∧
    (b.server.connectPeerQueue = [] → b.server.batch = {} →
      ∀ (name name' : Name) (i j : Nat), b.server.registry[name]? = some i →
        b.server.registry[name']? = some j → i ≠ j → name' ∈ b.server.asking i →
        name ∉ b.server.asking j) := by
  have h := sound_of_run hrun
  refine ⟨fun e b' hstep hoffers => ?_, h.recorded.once.of_append_left, ?_⟩
  · obtain ⟨t, hserver, rfl⟩ := step_eq_some hstep
    rcases offers_of_step hserver with hsame | ⟨draws, punchId, token, session, other, data,
      otherData, target, connect, rfl, hpaired⟩
    · have hlength : b.server.offers.length < t.offers.length := hoffers
      rw [hsame] at hlength
      exact absurd hlength (Nat.lt_irrefl _)
    · obtain ⟨consumed, hconsented⟩ := consented_of_pair h hpaired
      exact ⟨draws, punchId, token, session, other, data, otherData, consumed, rfl, hconsented⟩
  · intro hqueue hbatch name name' i j hi hj hne hasks hback
    have huntried := h.awaited.untried name name' i j hi hj hne hasks hback
    rw [untried, hqueue, hbatch] at huntried
    rcases huntried with huntried | huntried <;> cases huntried

/-- Two clients are named, and each asks for the other. -/
def bothAsk : List RendezvousEvent :=
  [.connect 0 sampleObserved, .connect 1 sampleObserved, .swap, .work (fun _ => [66]) 0 none,
    .work (fun _ => [65]) 0 none, .connectPeer 0 [66] 0, .connectPeer 1 [65] 0, .swap]

/-- The two are paired, and the pair consumes the two asks. -/
theorem paired_by_consent_both :
    ∃ b b', GuardedRun (brokered {}) (fun b e => consenting b e = true) {} bothAsk b ∧
      (brokered {}).step b (.work (fun _ => []) 77 none) = some b' ∧
      b.server.registry[([65] : Name)]? = some 0 ∧ b.server.registry[([66] : Name)]? = some 1 ∧
      ∃ punchId token session other data otherData consumed,
        Consented {} b punchId token session other data otherData consumed b' := by
  have hexec : (((brokered {}).guard consenting).exec {} bothAsk).map
      (fun b => (b.server.registry[([65] : Name)]?, b.server.registry[([66] : Name)]?,
        ((brokered {}).step b (.work (fun _ => []) 77 none)).map fun b' =>
          decide (b.server.offers.length < b'.server.offers.length))) =
      some (some 0, some 1, some true) := by
    decide +kernel
  obtain ⟨b, hb, hfacts⟩ := Option.map_eq_some_iff.1 hexec
  simp only [Prod.mk.injEq] at hfacts
  obtain ⟨hfirst, hsecond, hstep⟩ := hfacts
  obtain ⟨b', hstep, hoffers⟩ := Option.map_eq_some_iff.1 hstep
  have hrun : GuardedRun (brokered {}) (fun b e => consenting b e = true) {} bothAsk b :=
    GuardedRun.of_guard (fun _ _ h => h) hb
  obtain ⟨-, punchId, token, session, other, data, otherData, consumed, -, hconsented⟩ :=
    (paired_by_consent hrun).1 _ b' hstep (of_decide_eq_true hoffers)
  exact ⟨b, b', hrun, hstep, hfirst, hsecond, punchId, token, session, other, data, otherData,
    consumed, hconsented⟩

/-- A client leaves with its ask in the queue: its name is cleared before the ask is tried, and it
is offered all the same, under a name that nobody is registered under. -/
theorem departed_asker_offered :
    ∃ b b', (brokered {}).exec {}
        [.connect 0 sampleObserved, .connect 1 sampleObserved, .swap, .work (fun _ => [66]) 0 none,
          .work (fun _ => [65]) 0 none, .connectPeer 1 [65] 0, .swap, .work (fun _ => []) 0 none,
          .connectPeer 0 [66] 0, .disconnect 0, .swap, .work (fun _ => []) 0 none] = some b ∧
      (brokered {}).step b (.work (fun _ => []) 77 none) = some b' ∧
      b.server.offers = [] ∧ b'.server.offers.map Prod.fst = [1, 0] ∧
      b.server.disconnected = [0] ∧ b.server.registry[([65] : Name)]? = none := by
  exact Machine.exists_exec_step (by decide +kernel) fun _ _ _ _ h => h

/-- A client leaves, another is given its name, and is paired with one that asked for the
first. -/
theorem stranger_offered :
    ∃ b b', (brokered {}).exec {}
        [.connect 0 sampleObserved, .connect 1 sampleObserved, .swap, .work (fun _ => [66]) 0 none,
          .work (fun _ => [65]) 0 none, .connectPeer 0 [66] 0, .swap, .work (fun _ => []) 0 none,
          .disconnect 1, .swap, .work (fun _ => []) 0 none, .connect 2 sampleObserved, .swap,
          .work (fun _ => [66]) 0 none, .connectPeer 2 [65] 0, .swap] = some b ∧
      (brokered {}).step b (.work (fun _ => []) 77 none) = some b' ∧
      b.server.offers = [] ∧ b'.server.offers.map Prod.fst = [0, 2] ∧
      b.asks.map (fun ask => (ask.session, ask.holder)) = [(2, some 0), (0, some 1)] := by
  exact Machine.exists_exec_step (by decide +kernel) fun _ _ _ _ h => h

end Brokered
end P2p
end Znet

import Znet.P2p.Punch
import Znet.Zdt.Link

/-!
# Two punches agree on a path

Two agents punch toward each other from one broker's offers.  There may be any paths between
them, direct and through relays: a path has two ends, each an address and a channel as its side
sees them, and what one side sends to its end of a path can arrive at the other from there.  The
network keeps everything that was ever sent and delivers any of it, at any time, any number of
times or never.  Relays answer binds as they like.

An agent hands its machine the datagrams the machine owns and makes a session of a completed
punch (`HandleOffline`, `CompletePunch`).  The initiator's session sends where the punch completed.

* `punch_agreement` — **the two sessions are the two ends of one path.**
-/

namespace Znet
namespace P2p

open Zdt

/-! ## Agents and paths -/

/-- An agent, as far as this punch goes. -/
inductive Peer where
  | idle
  | punching (machine : ZDTPunch)
  /-- The session: its connection, and where its peer is reached. -/
  | connected (connection : Connected) (source : InetAddress) (channel : BitVec 32)
  | failed (reason : Result)

/-- `CompletePunch` or `FailPunch`, on the outcome of a call. -/
def Punched.concluded (r : Punched) : Peer :=
  match r.outcome with
  | .pending => .punching r.machine
  | .completed source channel _ =>
    .connected { r.machine.connection with relayChannel := channel } source channel
  | .failed reason => .failed reason

/-- A datagram arrives: `DrainSocket` and `HandleOffline`. -/
def Peer.receive (p : Peer) (source : InetAddress) (raw : List UInt8) : Peer × List Sent :=
  match p, drained raw with
  | .punching m, some (channel, data) =>
    if m.owns source channel then
      ((m.onDatagram source channel data).concluded, (m.onDatagram source channel data).sent)
    else (p, [])
  | _, _ => (p, [])

/-- A path between the two sides: what each sends to, and sees as the source. -/
structure Path where
  ends : Side → InetAddress × BitVec 32
  inRange : ∀ side, (ends side).2.toNat ≤ kZDTMaxRelayChannel

/-- A datagram on a path. -/
structure Carried where
  dest : Side
  path : Path
  datagram : List UInt8

structure Race where
  peers : Side → Peer := fun _ => .idle
  /-- Everything that was ever sent. -/
  wire : List Carried := []

/-- What the broker settled, and what the two agents bring along. -/
structure Terms where
  punchId : BitVec 64
  names : Side → Name
  /-- The candidates in the offer a side gets. -/
  candidates : Side → List Candidate
  guids : Side → BitVec 64
  migration : Side → Bool
  timeout : Side → Int := fun _ => 5000
  relayDelay : Side → Int := fun _ => 1000

namespace Terms

def initiator (terms : Terms) (side : Side) : Bool :=
  isInitiator terms.punchId (terms.names side) (terms.names side.peer)

/-- The offer a side punches from. -/
def offer (terms : Terms) (side : Side) : PunchOffer where
  candidates := terms.candidates side
  punchId := terms.punchId
  isInitiator := terms.initiator side
  timeout := terms.timeout side
  relayDelay := terms.relayDelay side

def capabilities (terms : Terms) (side : Side) : BitVec 8 :=
  if terms.migration side then kZDTCapMigration else 0

theorem hasFlag_capabilities (terms : Terms) (side : Side) :
    hasFlag (terms.capabilities side) kZDTCapMigration = terms.migration side := by
  unfold capabilities
  cases terms.migration side <;> decide

end Terms

/-! ## The system -/

/-- What is sent to the end of a path is on that path. -/
def carry (paths : List Path) (side : Side) (x : Sent) : List Carried :=
  (paths.filter fun path => decide (path.ends side = (x.address, x.channel))).map fun path =>
    ⟨side.peer, path, x.datagram⟩

/-- A side has acted. -/
def Race.acted (s : Race) (paths : List Path) (side : Side) (p : Peer)
    (sent : List Sent) : Race where
  peers := Function.update s.peers side p
  wire := s.wire ++ sent.flatMap (carry paths side)

/-- Data of a session: the first byte has the online flag, and is not the marker of a relay. -/
def isOnline (data : List UInt8) : Bool :=
  hasFlag (data.headD 0).toBitVec kFlagOnline && decide ((data.headD 0).toNat ≠ kZDTRelayMarker)

inductive RaceEvent where
  /-- An agent is given its offer. -/
  | start (side : Side) (now : Int)
  | tick (side : Side) (now : Int)
  /-- The network delivers what was sent as the `i`-th datagram. -/
  | deliver (i : Nat)
  /-- A relay says that a side is bound. -/
  | bound (side : Side) (relay : InetAddress) (token : BitVec 64) (channel : BitVec 32)
  /-- A session sends. -/
  | online (side : Side) (data : List UInt8)

def race (terms : Terms) (paths : List Path) : Machine Race RaceEvent where
  step s
    | .start side now =>
      match s.peers side with
      | .idle =>
        some (s.acted paths side
          (.punching (.new (terms.offer side) now (terms.migration side) (terms.guids side))) [])
      | _ => none
    | .tick side now =>
      match s.peers side with
      | .punching m => some (s.acted paths side (m.tick now).concluded (m.tick now).sent)
      | _ => none
    | .deliver i =>
      (s.wire[i]?).map fun c =>
        let r := (s.peers c.dest).receive (c.path.ends c.dest).1
          (wrapped (c.path.ends c.dest).2 c.datagram)
        s.acted paths c.dest r.1 r.2
    | .bound side relay token channel =>
      let r := (s.peers side).receive relay (buildRelayBound token channel)
      some (s.acted paths side r.1 r.2)
    | .online side data =>
      match s.peers side with
      | .connected connection source channel =>
        if isOnline data then
          some (s.acted paths side (.connected connection source channel)
            [⟨source, channel, data⟩])
        else none
      | _ => none

/-! ## What holds of a side -/

variable {terms : Terms} {paths : List Path} {s : Race}

/-- A machine was made for this side. -/
structure MadeFor (terms : Terms) (side : Side) (m : ZDTPunch) : Prop where
  initiator : m.offer.isInitiator = terms.initiator side
  migration : m.localMigration = terms.migration side
  guid : m.connection.localGuid = terms.guids side

variable {side x : Side} {m : ZDTPunch} {c : Carried} {p : Peer} {sent : List Sent}
  {data raw : List UInt8} {channel : BitVec 32} {source : InetAddress}

theorem MadeFor.capabilities (h : MadeFor terms side m) :
    m.capabilities = terms.capabilities side := by
  rw [ZDTPunch.capabilities, h.migration, Terms.capabilities]

theorem madeFor_new (terms : Terms) (side : Side) (now : Int) :
    MadeFor terms side (.new (terms.offer side) now (terms.migration side) (terms.guids side)) :=
  ⟨rfl, rfl, rfl⟩

theorem MadeFor.same {m' : ZDTPunch} (h : MadeFor terms side m) (hsame : ZDTPunch.SameTerms m m') :
    MadeFor terms side m' := by
  refine ⟨?_, ?_, ?_⟩
  · rw [hsame.offer]
    exact h.initiator
  · rw [hsame.migration]
    exact h.migration
  · rw [hsame.connection]
    exact h.guid

/-- A connection as both sides want it: the guids are theirs, and migration is on if both offer
it. -/
structure Settled (terms : Terms) (side : Side) (connection : Connected) : Prop where
  own : connection.localGuid = terms.guids side
  remote : connection.remoteGuid = terms.guids side.peer
  migration : connection.migrationEnabled = (terms.migration side && terms.migration side.peer)

/-- What the peer says settles the connection. -/
theorem settled_settle (h : MadeFor terms side m) :
    Settled terms side
      (m.settle (terms.guids side.peer) (terms.capabilities side.peer)).connection := by
  refine ⟨h.guid, rfl, ?_⟩
  simp only [ZDTPunch.settle]
  rw [h.migration, terms.hasFlag_capabilities]

/-- The initiator. -/
inductive Initiating (terms : Terms) (side : Side) : Peer → Prop
  | idle : Initiating terms side .idle
  | failed (reason : Result) : Initiating terms side (.failed reason)
  | punching (m : ZDTPunch) : MadeFor terms side m → Initiating terms side (.punching m)
  | connected (connection : Connected) (source : InetAddress) (channel : BitVec 32) :
      Settled terms side connection → Initiating terms side (.connected connection source channel)

/-- The responder, given the initiator: its connection is settled once it has answered, and where
its session is, that of the initiator is at the other end of a path. -/
inductive Responding (terms : Terms) (paths : List Path) (side : Side)
    (initiator : Peer) : Peer → Prop
  | idle : Responding terms paths side initiator .idle
  | failed (reason : Result) : Responding terms paths side initiator (.failed reason)
  | punching (m : ZDTPunch) : MadeFor terms side m →
      (m.answered = true → Settled terms side m.connection) →
      Responding terms paths side initiator (.punching m)
  | connected (connection : Connected) (source : InetAddress) (channel : BitVec 32)
      (connection' : Connected) (path : Path) : Settled terms side connection →
      initiator = .connected connection' (path.ends side.peer).1 (path.ends side.peer).2 →
      path ∈ paths → path.ends side = (source, channel) →
      Responding terms paths side initiator (.connected connection source channel)

/-- What the initiator says: nothing that counts, requests, and data where its punch completed. -/
inductive FromInitiator (terms : Terms) (side : Side) (initiator : Peer) (c : Carried) : Prop
  | stray : readPunch c.datagram = .stray → FromInitiator terms side initiator c
  | request : c.datagram = buildRequest1 (terms.guids side) (terms.capabilities side) →
      FromInitiator terms side initiator c
  | online (connection : Connected) : readPunch c.datagram = .online →
      initiator = .connected connection (c.path.ends side).1 (c.path.ends side).2 →
      FromInitiator terms side initiator c

/-- What the responder says: nothing that counts, answers, and data. -/
inductive FromResponder (terms : Terms) (side : Side) (datagram : List UInt8) : Prop
  | stray : readPunch datagram = .stray → FromResponder terms side datagram
  | answer (mtu : BitVec 16) :
      datagram = buildReply2 (terms.guids side) mtu (terms.capabilities side) →
      FromResponder terms side datagram
  | online : readPunch datagram = .online → FromResponder terms side datagram

/-- What holds of the two machines and of everything on the wire. -/
structure Agreed (terms : Terms) (paths : List Path) (side : Side) (s : Race) : Prop where
  initiating : Initiating terms side (s.peers side)
  responding : Responding terms paths side.peer (s.peers side) (s.peers side.peer)
  paths : ∀ c ∈ s.wire, c.path ∈ paths ∧ Speakable c.datagram
  toResponder : ∀ c ∈ s.wire, c.dest = side.peer → FromInitiator terms side (s.peers side) c
  toInitiator : ∀ c ∈ s.wire, c.dest = side → FromResponder terms side.peer c.datagram

theorem agreed_empty (terms : Terms) (paths : List Path) (side : Side) :
    Agreed terms paths side {} := by
  refine ⟨.idle, .idle, fun c hc => ?_, fun c hc => ?_, fun c hc => ?_⟩
  · cases hc
  · cases hc
  · cases hc

/-! ## What a side does -/

/-- What holds of everything on the wire, and of all that a side sends, holds when it has acted. -/
theorem forall_wire_acted {P : Carried → Prop} (hwire : ∀ c ∈ s.wire, P c)
    (hsent : ∀ y ∈ sent, ∀ c : Carried, c.dest = side.peer → c.path ∈ paths →
      c.path.ends side = (y.address, y.channel) → c.datagram = y.datagram → P c) :
    ∀ c ∈ (s.acted paths side p sent).wire, P c := by
  intro c hc
  rcases List.mem_append.1 hc with hc | hc
  · exact hwire c hc
  · obtain ⟨y, hy, hc⟩ := List.mem_flatMap.1 hc
    obtain ⟨path, hpath, rfl⟩ := List.mem_map.1 hc
    obtain ⟨hmem, hends⟩ := List.mem_filter.1 hpath
    exact hsent y hy _ rfl hmem (of_decide_eq_true hends) rfl

theorem peers_acted_self (s : Race) (side : Side) (p : Peer) (sent : List Sent) :
    (s.acted paths side p sent).peers side = p :=
  Function.update_self ..

theorem peers_acted_peer (s : Race) (side : Side) (p : Peer) (sent : List Sent) :
    (s.acted paths side p sent).peers side.peer = s.peers side.peer :=
  Function.update_of_ne (by cases side <;> decide) ..

theorem peers_peer_acted (s : Race) (side : Side) (p : Peer) (sent : List Sent) :
    (s.acted paths side.peer p sent).peers side = s.peers side :=
  Function.update_of_ne (by cases side <;> decide) ..

/-- A session that is there stays, as far as the other side can tell. -/
def Stays (p p' : Peer) : Prop := ∀ connection source channel,
  p = .connected connection source channel → p' = .connected connection source channel

section

variable (h : Agreed terms paths side s)
include h

/-- The initiator acts: what it sends are strays, requests, and data of its session. -/
theorem Agreed.initiatorActs (hp : Initiating terms side p)
    (hstays : Stays (s.peers side) p) (hsent : ∀ x ∈ sent, Speakable x.datagram ∧
      (readPunch x.datagram = .stray ∨
        x.datagram = buildRequest1 (terms.guids side) (terms.capabilities side) ∨
        readPunch x.datagram = .online ∧
          ∃ connection, p = .connected connection x.address x.channel)) :
    Agreed terms paths side (s.acted paths side p sent) := by
  refine ⟨?_, ?_, forall_wire_acted h.paths ?_, forall_wire_acted ?_ ?_,
    forall_wire_acted h.toInitiator ?_⟩
  · rw [peers_acted_self]
    exact hp
  · rw [peers_acted_self, peers_acted_peer]
    have hresponding := h.responding
    generalize s.peers side.peer = responder at hresponding ⊢
    cases hresponding with
    | idle => exact .idle
    | failed reason => exact .failed reason
    | punching m hmade hanswered => exact .punching m hmade hanswered
    | connected connection source channel connection' path hsettled hinitiator hpath hends =>
      exact .connected connection source channel connection' path hsettled
        (hstays _ _ _ hinitiator) hpath hends
  · intro y hy c _ hpath _ hdatagram
    rw [hdatagram]
    exact ⟨hpath, (hsent y hy).1⟩
  · intro c hc hdest
    rw [peers_acted_self]
    cases h.toResponder c hc hdest with
    | stray hread => exact .stray hread
    | request hdatagram => exact .request hdatagram
    | online connection hread hinitiator =>
      exact .online connection hread (hstays _ _ _ hinitiator)
  · intro y hy c _ _ hends hdatagram _
    rw [peers_acted_self]
    obtain ⟨-, hstray | hrequest | ⟨honline, connection, hconnected⟩⟩ := hsent y hy
    · exact .stray (hdatagram ▸ hstray)
    · exact .request (hdatagram ▸ hrequest)
    · refine .online connection (hdatagram ▸ honline) ?_
      rw [hends]
      exact hconnected
  · -- what the initiator sends is for the responder
    intro y _ c hother _ _ _ hdest
    rw [hdest] at hother
    cases side <;> cases hother

/-- The initiator's machine is called, and has no session before. -/
theorem Agreed.initiatorCalled (hm : s.peers side = .punching m)
    (hp : Initiating terms side p) (hsent : ∀ x ∈ sent, Speakable x.datagram ∧
      (readPunch x.datagram = .stray ∨
        x.datagram = buildRequest1 (terms.guids side) (terms.capabilities side))) :
    Agreed terms paths side (s.acted paths side p sent) := by
  refine h.initiatorActs hp ?_ fun x hx => ⟨(hsent x hx).1, (hsent x hx).2.imp_right .inl⟩
  intro connection source channel hconnected
  rw [hm] at hconnected
  cases hconnected

/-- The responder acts: what it sends are strays, answers, and data of its session. -/
theorem Agreed.responderActs (hp : Responding terms paths side.peer (s.peers side) p)
    (hsent : ∀ x ∈ sent, Speakable x.datagram ∧ FromResponder terms side.peer x.datagram) :
    Agreed terms paths side (s.acted paths side.peer p sent) := by
  have hpeers : (s.acted paths side.peer p sent).peers side = s.peers side :=
    peers_peer_acted s side p sent
  refine ⟨?_, ?_, forall_wire_acted h.paths ?_, forall_wire_acted ?_ ?_,
    forall_wire_acted h.toInitiator ?_⟩
  · rw [hpeers]
    exact h.initiating
  · rw [hpeers, peers_acted_self]
    exact hp
  · intro y hy c _ hpath _ hdatagram
    rw [hdatagram]
    exact ⟨hpath, (hsent y hy).1⟩
  · rw [hpeers]
    exact h.toResponder
  · -- what the responder sends is for the initiator
    intro y _ c hother _ _ _ hdest
    rw [hdest] at hother
    cases side <;> cases hother
  · intro y hy c _ _ _ hdatagram _
    rw [hdatagram]
    exact (hsent y hy).2

theorem Agreed.initiator_made (hm : s.peers side = .punching m) : MadeFor terms side m := by
  have hinitiating := h.initiating
  rw [hm] at hinitiating
  cases hinitiating with
  | punching _ hmade => exact hmade

theorem Agreed.responder_made (hm : s.peers side.peer = .punching m) :
    MadeFor terms side.peer m ∧ (m.answered = true → Settled terms side.peer m.connection) := by
  have hresponding := h.responding
  rw [hm] at hresponding
  cases hresponding with
  | punching _ hmade hanswered => exact ⟨hmade, hanswered⟩

/-- The responder's machine goes on as it was. -/
theorem Agreed.responderGoesOn
    (hm : s.peers side.peer = .punching m) {r : Punched} (houtcome : r.outcome = .pending)
    (hsame : ZDTPunch.SameTerms m r.machine)
    (hsent : ∀ x ∈ sent, Speakable x.datagram ∧ readPunch x.datagram = .stray) :
    Agreed terms paths side (s.acted paths side.peer r.concluded sent) := by
  obtain ⟨hmade, hanswered⟩ := h.responder_made hm
  refine h.responderActs ?_ fun x hx => ⟨(hsent x hx).1, .stray (hsent x hx).2⟩
  rw [Punched.concluded, houtcome]
  refine .punching _ (hmade.same hsame) fun hnow => ?_
  rw [hsame.connection]
  rw [hsame.answered] at hnow
  exact hanswered hnow

end

/-! ## What a side makes of a datagram -/

variable (guid : BitVec 64)

theorem speakable_request1 (capabilities : BitVec 8) :
    Speakable (buildRequest1 guid capabilities) := by
  rw [buildRequest1_eq]
  exact speakable_offline (by decide) _

theorem speakable_reply2 (mtu : BitVec 16) (capabilities : BitVec 8) :
    Speakable (buildReply2 guid mtu capabilities) := by
  rw [buildReply2_eq]
  exact speakable_offline (by decide) _

theorem speakable_relayBound (token : BitVec 64) (channel : BitVec 32) :
    Speakable (buildRelayBound token channel) := by
  rw [buildRelayBound_eq]
  exact speakable_offline (by decide) _

theorem isOnline_iff (h : isOnline data = true) :
    Speakable data ∧ readPunch data = .online := by
  obtain ⟨hflag, hmarker⟩ := Bool.and_eq_true_iff.1 h
  refine ⟨⟨?_, of_decide_eq_true hmarker⟩, ?_⟩
  · rintro rfl
    revert hflag
    decide
  · rw [readPunch, if_pos hflag]

/-- What arrives at a side, if it is a datagram of a relay or one of the other side: a session
takes no notice here, nor does an agent that does not punch. -/
theorem receive_cases (p : Peer) (source : InetAddress)
    (hraw : drained raw = some (channel, data)) :
    p.receive source raw = (p, []) ∨
      ∃ m, p = .punching m ∧ p.receive source raw =
        ((m.onDatagram source channel data).concluded,
          (m.onDatagram source channel data).sent) := by
  cases p with
  | punching m =>
    simp only [Peer.receive, hraw]
    split
    · exact .inr ⟨m, rfl, rfl⟩
    · exact .inl rfl
  | idle | connected connection source channel | failed reason => exact .inl rfl

/-- A datagram for the initiator: an answer is the responder's, and completes the punch. -/
theorem Agreed.initiatorReceives (h : Agreed terms paths side s)
    (hinitiator : terms.initiator side = true) (source : InetAddress)
    (hraw : drained raw = some (channel, data))
    (hdata : FromResponder terms side.peer data ∨ ∃ bound, readPunch data = .relayBound bound) :
    Agreed terms paths side (s.acted paths side ((s.peers side).receive source raw).1
      ((s.peers side).receive source raw).2) := by
  rcases receive_cases (s.peers side) source hraw with hsame | ⟨m, hm, hreceive⟩
  · rw [hsame]
    exact h.initiatorActs h.initiating (fun _ _ _ hp => hp) (fun x hx => by cases hx)
  · rw [hreceive]
    have hmade := h.initiator_made hm
    rcases ZDTPunch.onDatagram_initiator (hmade.initiator.trans hinitiator) source channel data with
      ⟨houtcome, hsame, hsent⟩ | ⟨guid, mtu, capabilities, hread, hreply⟩ | ⟨hread, hbad⟩
    · rw [hsent]
      refine h.initiatorCalled hm ?_ (fun x hx => by cases hx)
      rw [Punched.concluded, houtcome]
      exact .punching _ (hmade.same hsame)
    · rw [hreply]
      refine h.initiatorCalled hm ?_ (fun x hx => by cases hx)
      obtain ⟨rfl, rfl⟩ : guid = terms.guids side.peer ∧
        capabilities = terms.capabilities side.peer := by
        rcases hdata with (hstray | ⟨_, hanswer⟩ | honline) | ⟨bound, hbound⟩
        · rw [hread] at hstray
          cases hstray
        · rw [hanswer, readPunch_reply2] at hread
          cases hread
          exact ⟨rfl, rfl⟩
        · rw [hread] at honline
          cases honline
        · rw [hread] at hbound
          cases hbound
      have hsettled := settled_settle hmade
      exact .connected _ _ _ { hsettled with }
    · rw [hbad]
      exact h.initiatorCalled hm (.failed _) (fun x hx => by cases hx)

/-- A datagram for the responder: a request is the initiator's, and is answered; data is of the
initiator's session, and came from its end of the path. -/
theorem Agreed.responderReceives (h : Agreed terms paths side s)
    (hresponder : terms.initiator side.peer = false) (source : InetAddress)
    (hraw : drained raw = some (channel, data))
    (hdata : (∃ c, c.path ∈ paths ∧ c.datagram = data ∧ c.path.ends side.peer = (source, channel) ∧
        FromInitiator terms side (s.peers side) c) ∨
      ∃ bound, readPunch data = .relayBound bound) :
    Agreed terms paths side (s.acted paths side.peer ((s.peers side.peer).receive source raw).1
      ((s.peers side.peer).receive source raw).2) := by
  have hside : side.peer.peer = side := by cases side <;> rfl
  rcases receive_cases (s.peers side.peer) source hraw with hsame | ⟨m, hm, hreceive⟩
  · rw [hsame]
    exact h.responderActs h.responding (fun x hx => by cases hx)
  · rw [hreceive]
    obtain ⟨hmade, hanswered⟩ := h.responder_made hm
    rcases ZDTPunch.onDatagram_responder (hmade.initiator.trans hresponder) source channel data with
      ⟨houtcome, hsame, hsent⟩ | ⟨version, guid, capabilities, hread, hrequest⟩ |
      ⟨hread, hready, honline⟩
    · rw [hsent]
      exact h.responderGoesOn hm houtcome hsame (fun x hx => by cases hx)
    · rw [hrequest]
      -- the request is the one the initiator builds
      obtain ⟨rfl, rfl, rfl⟩ : version = kZDTProtocolVersion ∧ guid = terms.guids side ∧
          capabilities = terms.capabilities side := by
        rcases hdata with ⟨c, -, rfl, -, hfrom⟩ | ⟨bound, hbound⟩
        · cases hfrom with
          | stray hstray =>
            rw [hread] at hstray
            cases hstray
          | request hbuilt =>
            rw [hbuilt, readPunch_request1] at hread
            cases hread
            exact ⟨rfl, rfl, rfl⟩
          | online _ honline _ =>
            rw [hread] at honline
            cases honline
        · rw [hread] at hbound
          cases hbound
      have hsettled := settled_settle hmade
      rw [hside] at hsettled
      refine h.responderActs ?_ fun x hx => ?_
      · exact .punching _ { hmade with } fun _ => hsettled
      · obtain rfl := List.mem_singleton.1 hx
        refine ⟨speakable_reply2 _ _ _, .answer m.connection.mtu ?_⟩
        rw [hmade.guid, hmade.capabilities]
    · rw [honline]
      refine h.responderActs ?_ (fun x hx => by cases hx)
      rcases hdata with ⟨c, hpath, rfl, hends, hfrom⟩ | ⟨bound, hbound⟩
      · cases hfrom with
        | stray hstray =>
          rw [hread] at hstray
          cases hstray
        | request hbuilt =>
          rw [hbuilt, readPunch_request1] at hread
          cases hread
        | online connection' _ hconnected =>
          have hsettled := hanswered hready
          refine .connected _ source channel connection' c.path
            { hsettled with } ?_ hpath hends
          rw [hside]
          exact hconnected
      · rw [hread] at hbound
        cases hbound

/-! ## Runs -/

theorem side_cases (side x : Side) : x = side ∨ x = side.peer := by
  cases side <;> cases x <;> decide

section

variable (h : Agreed terms paths side s)
include h

/-- An agent is given its offer. -/
theorem Agreed.starts (hidle : s.peers x = .idle) (now : Int) :
    Agreed terms paths side (s.acted paths x
      (.punching (.new (terms.offer x) now (terms.migration x) (terms.guids x))) []) := by
  have hmade := madeFor_new terms x now
  rcases side_cases side x with rfl | rfl
  · refine h.initiatorActs (.punching _ hmade) ?_ (fun x hx => by cases hx)
    intro connection source channel hconnected
    rw [hidle] at hconnected
    cases hconnected
  · refine h.responderActs (.punching _ hmade fun hanswered => ?_) (fun x hx => by cases hx)
    cases hanswered

/-- The initiator ticks. -/
theorem Agreed.initiatorTicks (hm : s.peers side = .punching m) (now : Int) :
    Agreed terms paths side (s.acted paths side (m.tick now).concluded (m.tick now).sent) := by
  have hmade := h.initiator_made hm
  rcases m.tick_cases now with hfailed | ⟨houtcome, hsame, hsent⟩
  · rw [hfailed]
    exact h.initiatorCalled hm (.failed _) (fun x hx => by cases hx)
  · refine h.initiatorCalled hm ?_ fun x hx => ?_
    · rw [Punched.concluded, houtcome]
      exact .punching _ (hmade.same hsame)
    · rcases hsent x hx with ⟨hspeakable, hstray⟩ | ⟨-, hrequest⟩
      · exact ⟨hspeakable, .inl hstray⟩
      · rw [hmade.guid, hmade.capabilities] at hrequest
        refine ⟨?_, .inr hrequest⟩
        rw [hrequest]
        exact speakable_request1 _ _

/-- The responder ticks. -/
theorem Agreed.responderTicks
    (hresponder : terms.initiator side.peer = false) (hm : s.peers side.peer = .punching m)
    (now : Int) :
    Agreed terms paths side (s.acted paths side.peer (m.tick now).concluded (m.tick now).sent) := by
  rcases m.tick_cases now with hfailed | ⟨houtcome, hsame, hsent⟩
  · rw [hfailed]
    exact h.responderActs (.failed _) (fun x hx => by cases hx)
  · refine h.responderGoesOn hm houtcome hsame fun x hx => ?_
    rcases hsent x hx with hstray | ⟨hinitiator, -⟩
    · exact hstray
    · rw [(h.responder_made hm).1.initiator, hresponder] at hinitiator
      cases hinitiator

/-- A session sends. -/
theorem Agreed.sends {connection : Connected}
    (hx : s.peers x = .connected connection source channel) (hdata : isOnline data = true) :
    Agreed terms paths side (s.acted paths x (.connected connection source channel)
      [⟨source, channel, data⟩]) := by
  obtain ⟨hspeakable, honline⟩ := isOnline_iff hdata
  rcases side_cases side x with rfl | rfl
  · refine h.initiatorActs (hx ▸ h.initiating) (fun _ _ _ hp => hx ▸ hp) fun y hy => ?_
    obtain rfl := List.mem_singleton.1 hy
    exact ⟨hspeakable, .inr (.inr ⟨honline, connection, rfl⟩)⟩
  · refine h.responderActs (hx ▸ h.responding) fun y hy => ?_
    obtain rfl := List.mem_singleton.1 hy
    exact ⟨hspeakable, .online honline⟩

/-- A datagram of a side arrives at the other, or one of a relay at either. -/
theorem Agreed.receives (hinitiator : terms.initiator side = true)
    (hresponder : terms.initiator side.peer = false) (source : InetAddress)
    (hraw : drained raw = some (channel, data))
    (hdata : (∃ c ∈ s.wire, c.dest = x ∧ c.datagram = data ∧ c.path.ends x = (source, channel)) ∨
      ∃ bound, readPunch data = .relayBound bound) :
    Agreed terms paths side (s.acted paths x ((s.peers x).receive source raw).1
      ((s.peers x).receive source raw).2) := by
  rcases side_cases side x with rfl | rfl
  · refine h.initiatorReceives hinitiator source hraw (hdata.imp_left ?_)
    rintro ⟨c, hc, hdest, rfl, -⟩
    exact h.toInitiator c hc hdest
  · refine h.responderReceives hresponder source hraw (hdata.imp_left ?_)
    rintro ⟨c, hc, hdest, hdatagram, hends⟩
    exact ⟨c, (h.paths c hc).1, hdatagram, hends, h.toResponder c hc hdest⟩

end

theorem agreed_of_step (hinitiator : terms.initiator side = true)
    (hresponder : terms.initiator side.peer = false) {s t : Race} {e : RaceEvent}
    (h : Agreed terms paths side s) (hstep : (race terms paths).step s e = some t) :
    Agreed terms paths side t := by
  cases e with
  | start x now =>
    simp only [race] at hstep
    split at hstep
    · next hidle =>
      cases hstep
      exact h.starts hidle now
    · cases hstep
  | tick x now =>
    simp only [race] at hstep
    split at hstep
    · next m hm =>
      cases hstep
      rcases side_cases side x with rfl | rfl
      · exact h.initiatorTicks hm now
      · exact h.responderTicks hresponder hm now
    · cases hstep
  | deliver i =>
    obtain ⟨c, hc, rfl⟩ := Option.map_eq_some_iff.1 hstep
    have hmem := List.mem_of_getElem? hc
    have hraw := drained_wrapped (c.path.inRange c.dest) (h.paths c hmem).2
    exact h.receives hinitiator hresponder _ hraw (.inl ⟨c, hmem, rfl, rfl, rfl⟩)
  | bound x relay token channel =>
    cases hstep
    have hraw : drained (buildRelayBound token channel) = some (0, buildRelayBound token channel) :=
      if_neg (speakable_relayBound token channel).2
    exact h.receives hinitiator hresponder relay hraw
      (.inr ⟨some (token, channel), readPunch_relayBound token channel⟩)
  | online x data =>
    simp only [race] at hstep
    split at hstep
    · next connection source channel hx =>
      obtain ⟨hdata, hstep⟩ := Option.ite_none_right_eq_some.1 hstep
      cases hstep
      exact h.sends hx hdata
    · cases hstep

/-- **The two sessions are the two ends of one path.**  Of two agents with different names exactly
one is the initiator.  In every run, once the responder has its session the initiator has its own,
at the other end of a path; each connection has the guid of the other, and both or neither have
migration on. -/
theorem punch_agreement (terms : Terms) (paths : List Path)
    (hnames : terms.names .left ≠ terms.names .right) {es : List RaceEvent} {s : Race}
    (hrun : (race terms paths).exec {} es = some s) :
    terms.initiator .left ≠ terms.initiator .right ∧
    ∀ side, terms.initiator side = true →
      ∀ connection source channel, s.peers side.peer = .connected connection source channel →
        ∃ connection' source' channel', s.peers side = .connected connection' source' channel' ∧
          (∃ path ∈ paths, path.ends side = (source', channel') ∧
            path.ends side.peer = (source, channel)) ∧
          connection.remoteGuid = connection'.localGuid ∧
          connection'.remoteGuid = connection.localGuid ∧
          connection'.localGuid = terms.guids side ∧
          connection.localGuid = terms.guids side.peer ∧
          connection.migrationEnabled = connection'.migrationEnabled := by
  have hone : terms.initiator .left ≠ terms.initiator .right := isInitiator_ne terms.punchId hnames
  refine ⟨hone, fun side hinitiator connection source channel hconnected => ?_⟩
  have hside : side.peer.peer = side := by cases side <;> rfl
  have hresponder : terms.initiator side.peer = false := by
    rw [← Bool.not_eq_true]
    intro hboth
    apply hone
    cases side
    · exact hinitiator.trans hboth.symm
    · exact hboth.trans hinitiator.symm
  have h : Agreed terms paths side s :=
    (race terms paths).exec_invariant (I := Agreed terms paths side)
      (fun _ _ _ h hstep => agreed_of_step hinitiator hresponder h hstep) hrun
      (agreed_empty terms paths side)
  have hresponding := h.responding
  rw [hconnected] at hresponding
  cases hresponding with
  | connected _ _ _ connection' path hsettled hpeer hpath hends =>
    rw [hside] at hpeer
    have hinitiating := h.initiating
    rw [hpeer] at hinitiating
    cases hinitiating with
    | connected _ _ _ hsettled' =>
      refine ⟨connection', _, _, hpeer, ⟨path, hpath, rfl, hends⟩, ?_, ?_, hsettled'.own,
        hsettled.own, ?_⟩
      · rw [hsettled.remote, hsettled'.own, hside]
      · rw [hsettled'.remote, hsettled.own]
      · rw [hsettled.migration, hsettled'.migration, hside, Bool.and_comm]

/-- Where the two of the run below are. -/
def sampleAddress (last : UInt8) : InetAddress := .inet ⟨.ipv4 (Vector.replicate 4 last), 5000⟩

/-- Two agents, each with the other's address. -/
def sampleTerms : Terms where
  punchId := 0
  names := fun side => if side = .left then [65] else [66]
  candidates := fun side =>
    [{ type := .reflexive, address := some (sampleAddress (if side = .left then 2 else 1)) }]
  guids := fun side => if side = .left then 11 else 22
  migration := fun _ => true

/-- The path between them. -/
def samplePath : Path where
  ends := fun side => (sampleAddress (if side = .left then 2 else 1), 0)
  inRange := fun _ => Nat.zero_le _

/-- A request, an answer, and the first datagram of the session. -/
def sampleRace : List RaceEvent :=
  [.start .left 0, .start .right 0, .tick .left 200, .deliver 1, .deliver 2, .online .left [0x80],
    .deliver 3]

/-- Where the peer of an agent's session is reached. -/
def Peer.reached : Peer → Option (InetAddress × BitVec 32)
  | .connected _ source channel => some (source, channel)
  | _ => none

theorem Peer.eq_connected_of_reached (h : p.reached = some (source, channel)) :
    ∃ connection, p = .connected connection source channel := by
  cases p with
  | connected connection source channel =>
    cases h
    exact ⟨connection, rfl⟩
  | idle | punching m | failed reason => cases h

/-- Both complete, on the path between them. -/
theorem punch_agreement_direct :
    ∃ s connection connection', (race sampleTerms [samplePath]).exec {} sampleRace = some s ∧
      s.peers .right = .connected connection (sampleAddress 1) 0 ∧
      s.peers .left = .connected connection' (sampleAddress 2) 0 ∧
      connection.remoteGuid = connection'.localGuid ∧
      connection.migrationEnabled = connection'.migrationEnabled := by
  have hexec : ((race sampleTerms [samplePath]).exec {} sampleRace).map
      (fun s => (s.peers .right).reached) = some (some (sampleAddress 1, 0)) := by
    decide +kernel
  obtain ⟨s, hs, hreached⟩ := Option.map_eq_some_iff.1 hexec
  obtain ⟨connection, hright⟩ := Peer.eq_connected_of_reached hreached
  obtain ⟨connection', source', channel', hleft, ⟨path, hpath, hends, -⟩, hguid, -, -, -,
    hmigration⟩ :=
    (punch_agreement sampleTerms [samplePath] (by decide) hs).2 .left (by decide) _ _ _ hright
  obtain rfl := List.mem_singleton.1 hpath
  obtain ⟨rfl, rfl⟩ := Prod.mk.inj hends
  exact ⟨s, connection, connection', hs, hright, hleft, hguid, hmigration⟩

end P2p
end Znet

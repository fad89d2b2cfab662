import Znet.Inet.Address
import Znet.Lib.Keyed
import Znet.Lib.Machine

/-!
# The rendezvous server

`RendezvousServer`: clients connect and are named; a client says where it can be reached and
whom it asks for; two that ask for each other are paired and told of each other.  Connects,
disconnects and packets are handled on other threads than the pairing, which takes three queues
at once and works through what it took: names to clear, clients to welcome, asks to pair.  Each
section under the lock is one step, and the steps interleave in any way.

The names that are drawn, the punch ids, what the relay answers and the clock are the
environment's.
-/

namespace Znet
namespace P2p

/-! ## State -/

abbrev Name := List UInt8

inductive ConnectionType where
  | tcp
  | zdt
  deriving DecidableEq, Repr

inductive CandidateType where
  | host
  | reflexive
  | relayed
  deriving DecidableEq, Repr

/-- An address to try; `none` where it is null or not valid. -/
structure Candidate where
  type : CandidateType
  address : Option InetAddress
  relayToken : BitVec 64 := 0
  deriving DecidableEq

def kMaxCandidates : Nat := 32

def kMaxReflectors : Nat := 8

structure RendezvousConfig where
  punchConnectionType : ConnectionType := .zdt
  maxRequestsPerWindow : BitVec 32 := 30
  requestWindow : Int := 10000
  /-- The reflector of the traversal server that is run, if one is. -/
  reflector : Option InetAddress := none
  /-- Where its relay is reached, if it has one. -/
  relay : Option InetAddress := none
  /-- Further reflectors; `none` where one is null or not valid. -/
  extraReflectors : List (Option InetAddress) := []

/-- What the server sends. -/
inductive Outgoing where
  | welcome (peerName : Name) (endpoint : InetAddress) (connectionType : ConnectionType)
      (reflectors : List InetAddress)
  | peerNotFound (target : Name)
  | repunchRequest (peer : Name)
  | punchOffer (target : Name) (punchId : BitVec 64) (connectionType : ConnectionType)
      (candidates : List Candidate)
  deriving DecidableEq

/-- `ClientData`, with the address its session is at. -/
structure ClientData where
  observed : InetAddress
  peerName : Name := []
  pendingTargets : List Name := []
  pairedWith : List Name := []
  candidates : List Candidate := []
  punchPort : BitVec 16 := 0
  requestWindowStart : Int := 0
  requestCount : BitVec 32 := 0
  deriving DecidableEq

/-- What the pairing thread has taken and not worked through. -/
structure Batch where
  clear : List Name := []
  welcome : List Nat := []
  connect : List (Nat × Name) := []
  deriving DecidableEq

structure Rendezvous where
  clients : Std.ExtTreeMap Nat ClientData compare := ∅
  registry : Std.ExtTreeMap Name Nat compare := ∅
  welcomeQueue : List Nat := []
  connectPeerQueue : List (Nat × Name) := []
  clearQueue : List Name := []
  batch : Batch := {}
  stop : Bool := false
  /-- The sessions the server has closed. -/
  closed : List Nat := []
  /-- History: the sessions whose disconnect event was delivered. -/
  disconnected : List Nat := []
  /-- History: what was sent, and to whom. -/
  sent : List (Nat × Outgoing) := []

namespace Rendezvous

/-! ## The functions -/

variable (config : RendezvousConfig) (s : Rendezvous) (session : Nat)

def send (packet : Outgoing) : Rendezvous :=
  { s with sent := (session, packet) :: s.sent }

/-- A change to the data of a client. -/
def update (change : ClientData → ClientData) : Rendezvous :=
  { s with clients := s.clients.modify session change }

/-- `OnConnectEvent`. -/
def onConnect (observed : InetAddress) : Rendezvous :=
  { s with
    clients := s.clients.insert session { observed }
    welcomeQueue := session :: s.welcomeQueue }

/-- `OnDisconnectEvent`. -/
def onDisconnect (data : ClientData) : Rendezvous :=
  let s := { s with disconnected := session :: s.disconnected }
  if data.peerName ≠ [] then { s with clearQueue := data.peerName :: s.clearQueue } else s

/-- `AllowRequest`: whether the request is allowed, and the client's count. -/
def allowRequest (data : ClientData) (now : Int) : Bool × ClientData :=
  if config.maxRequestsPerWindow = 0 ∨ config.requestWindow ≤ 0 then (true, data)
  else
    let data :=
      if data.requestCount = 0 ∨ config.requestWindow < now - data.requestWindowStart then
        { data with requestWindowStart := now, requestCount := 0 }
      else data
    let data := { data with requestCount := data.requestCount + 1 }
    (decide (data.requestCount ≤ config.maxRequestsPerWindow), data)

/-- A candidate that is taken from a client: an address of the internet, and not a relayed one. -/
def acceptable (candidate : Candidate) : Bool :=
  match candidate.address with
  | some (.inet _) => decide (candidate.type ≠ .relayed)
  | _ => false

/-- `OnPacket` of a gathering. -/
def onGathering (data : ClientData)
    (candidates : List Candidate) (punchPort : BitVec 16) (now : Int) : Rendezvous :=
  let (allowed, data) := allowRequest config data now
  let s := { s with clients := s.clients.insert session data }
  if !allowed then { s with closed := session :: s.closed }
  else
    { s with
      clients := s.clients.insert session
        { data with candidates := candidates.filter acceptable, punchPort } }

/-- A set of names with one more. -/
def insertName (name : Name) (names : List Name) : List Name :=
  if name ∈ names then names else name :: names

/-- `OnPacket` of an ask. -/
def onConnectPeer (data : ClientData) (target : Name) (now : Int) : Rendezvous :=
  let (allowed, data) := allowRequest config data now
  let s := { s with clients := s.clients.insert session data }
  if !allowed then { s with closed := session :: s.closed }
  else if data.peerName = [] then s
  else
    { s with
      clients := s.clients.insert session
        { data with pendingTargets := insertName target data.pendingTargets }
      connectPeerQueue := (session, target) :: s.connectPeerQueue }

/-- The loop of `GenerateUniqueName`, in so many draws. -/
def drawName (registered : Name → Bool) (draws : Nat → Name) : Nat → Nat → Name
  | 0, _ => []
  | left + 1, i => if registered (draws i) then drawName registered draws left (i + 1) else draws i

/-- `GenerateUniqueName`: it gives up after five thousand further draws. -/
def generateUniqueName (draws : Nat → Name) : Name :=
  drawName s.registry.contains draws 5001 0

/-- The reflectors a welcome names: the server's own, then others while there is room. -/
def welcomeReflectors : List InetAddress :=
  (config.reflector.toList ++ config.extraReflectors.filterMap id).take kMaxReflectors

/-- `Welcome`. -/
def welcome (draws : Nat → Name) : Rendezvous :=
  match s.clients[session]? with
  | none => s
  | some data =>
    if data.peerName ≠ [] then s
    else
      let name := s.generateUniqueName draws
      if name = [] then { s with closed := session :: s.closed }
      else
        { s with
          clients := s.clients.insert session { data with peerName := name }
          registry := s.registry.insert name session }.send session
            (.welcome name data.observed config.punchConnectionType (welcomeReflectors config))

/-- `WithPort`. -/
def withPort (address : InetAddress) (port : BitVec 16) : InetAddress :=
  match address with
  | .inet endpoint => .inet { endpoint with port }
  | .unix path => .unix path

/-- The reflexive candidates of a client, or one made of its observed address. -/
def reflexive (client : ClientData) : List Candidate :=
  let claimed := client.candidates.filter fun candidate => decide (candidate.type = .reflexive)
  if claimed ≠ [] then claimed
  else
    [{ type := .reflexive
       address := some (if client.punchPort ≠ 0 then withPort client.observed client.punchPort
         else client.observed) }]

/-- `ContainsAddress`. -/
def containsAddress (candidates : List Candidate) (address : Option InetAddress) : Bool :=
  candidates.any fun candidate => decide (candidate.address = address)

/-- The host candidates are appended, each unless its address is there. -/
def withHosts (client : ClientData) (out : List Candidate) : List Candidate :=
  client.candidates.foldl (fun out candidate =>
    if candidate.type = .host ∧ ¬ containsAddress out candidate.address then out ++ [candidate]
    else out) out

/-- `OfferCandidates`. -/
def offerCandidates (client : ClientData) (relayed : Option Candidate) : List Candidate :=
  let out := withHosts client (reflexive client)
  match relayed with
  | none => out.take kMaxCandidates
  | some relayed => out.take (kMaxCandidates - 1) ++ [relayed]

/-- The relayed candidate of a pair, where the relay gives a token. -/
def relayedCandidate (token : Option (BitVec 64)) : Option Candidate :=
  match config.relay, config.punchConnectionType, token with
  | some address, .zdt, some token =>
    some { type := .relayed, address := some address, relayToken := token }
  | _, _, _ => none

/-- The two asks are consumed, and the two clients told of each other. -/
def pair (session other : Nat) (data otherData : ClientData)
    (target : Name) (punchId : BitVec 64) (token : Option (BitVec 64)) : Rendezvous :=
  let relayed := relayedCandidate config token
  let s := s.update session fun x =>
    { x with
      pendingTargets := x.pendingTargets.erase target
      pairedWith := insertName target x.pairedWith }
  let s := s.update other fun x =>
    { x with
      pendingTargets := x.pendingTargets.erase data.peerName
      pairedWith := insertName data.peerName x.pairedWith }
  (s.send session
      (.punchOffer otherData.peerName punchId config.punchConnectionType
        (offerCandidates otherData relayed))).send other
    (.punchOffer data.peerName punchId config.punchConnectionType (offerCandidates data relayed))

/-- `TryPair`. -/
def tryPair (target : Name) (punchId : BitVec 64) (token : Option (BitVec 64)) : Rendezvous :=
  match s.clients[session]? with
  | none => s
  | some data =>
    if target ∉ data.pendingTargets then s
    else
      match (if target = data.peerName then none else s.registry[target]?) with
      | none =>
        (s.update session fun x => { x with pendingTargets := x.pendingTargets.erase target }).send
          session (.peerNotFound target)
      | some other =>
        match s.clients[other]? with
        | none => s
        | some otherData =>
          if data.peerName ∉ otherData.pendingTargets then
            if data.peerName ∈ otherData.pairedWith then
              s.send other (.repunchRequest data.peerName)
            else s
          else s.pair config session other data otherData target punchId token

/-! ## The pairing thread -/

/-- The queues are taken. -/
def swap : Rendezvous :=
  { s with
    batch := ⟨s.clearQueue, s.welcomeQueue, s.connectPeerQueue⟩
    clearQueue := []
    welcomeQueue := []
    connectPeerQueue := [] }

/-- The next of what was taken; `none` if it is all done. -/
def work (draws : Nat → Name) (punchId : BitVec 64)
    (token : Option (BitVec 64)) : Option Rendezvous :=
  match s.batch with
  | ⟨name :: clear, welcome, connect⟩ =>
    some { s with registry := s.registry.erase name, batch := ⟨clear, welcome, connect⟩ }
  | ⟨[], session :: welcome, connect⟩ =>
    some (Rendezvous.welcome config { s with batch := ⟨[], welcome, connect⟩ } session draws)
  | ⟨[], [], (session, target) :: connect⟩ =>
    some (tryPair config { s with batch := ⟨[], [], connect⟩ } session target punchId token)
  | ⟨[], [], []⟩ => none

end Rendezvous

inductive RendezvousEvent where
  | connect (session : Nat) (observed : InetAddress)
  | disconnect (session : Nat)
  | gathering (session : Nat) (candidates : List Candidate) (punchPort : BitVec 16) (now : Int)
  | connectPeer (session : Nat) (target : Name) (now : Int)
  | swap
  | work (draws : Nat → Name) (punchId : BitVec 64) (token : Option (BitVec 64))
  | stop

/-- A client whose disconnect event was not delivered yet. -/
def Rendezvous.present (s : Rendezvous) (session : Nat) : Option ClientData :=
  if session ∈ s.disconnected then none else s.clients[session]?

/-- Runs of the server.  A session connects once, and its disconnect is its last event. -/
def rendezvous (config : RendezvousConfig) : Machine Rendezvous RendezvousEvent where
  step s
    | .connect session observed =>
      if s.clients.contains session then none else some (s.onConnect session observed)
    | .disconnect session => (s.present session).map fun data => s.onDisconnect session data
    | .gathering session candidates punchPort now =>
      (s.present session).map fun data => s.onGathering config session data candidates punchPort now
    | .connectPeer session target now =>
      (s.present session).map fun data => s.onConnectPeer config session data target now
    | .swap =>
      if s.batch = {} ∧ s.stop = false ∧
          (s.clearQueue ≠ [] ∨ s.welcomeQueue ≠ [] ∨ s.connectPeerQueue ≠ []) then some s.swap
      else none
    | .work draws punchId token => s.work config draws punchId token
    | .stop => some { s with stop := true }

namespace Rendezvous

variable {config : RendezvousConfig} {s t : Rendezvous}

variable {session i : Nat} {data : ClientData} {draws : Nat → Name} {punchId : BitVec 64}
  {token : Option (BitVec 64)} {e : RendezvousEvent}
  {clients : Std.ExtTreeMap Nat ClientData compare} {change : ClientData → ClientData}
  {batch : Batch} {es : List RendezvousEvent}

theorem present_eq_some :
    s.present session = some data ↔ session ∉ s.disconnected ∧ s.clients[session]? = some data := by
  rw [present]
  split
  · next h => simp [h]
  · next h => simp [h]

/-- What a step can do. -/
inductive Outcome (config : RendezvousConfig) (s : Rendezvous) : RendezvousEvent → Rendezvous → Prop
  | connected (session : Nat) (observed : InetAddress) : s.clients[session]? = none →
      Outcome config s (.connect session observed) (s.onConnect session observed)
  | departed (session : Nat) (data : ClientData) : session ∉ s.disconnected →
      s.clients[session]? = some data →
      Outcome config s (.disconnect session) (s.onDisconnect session data)
  | gathered (session : Nat) (data : ClientData) (candidates : List Candidate)
      (punchPort : BitVec 16) (now : Int) : session ∉ s.disconnected →
      s.clients[session]? = some data →
      Outcome config s (.gathering session candidates punchPort now)
        (s.onGathering config session data candidates punchPort now)
  | asked (session : Nat) (data : ClientData) (target : Name) (now : Int) :
      session ∉ s.disconnected → s.clients[session]? = some data →
      Outcome config s (.connectPeer session target now)
        (s.onConnectPeer config session data target now)
  | swapped : s.batch = {} → Outcome config s .swap s.swap
  | cleared (draws : Nat → Name) (punchId : BitVec 64) (token : Option (BitVec 64)) (name : Name)
      (clear : List Name) (welcome : List Nat) (connect : List (Nat × Name)) :
      s.batch = ⟨name :: clear, welcome, connect⟩ →
      Outcome config s (.work draws punchId token)
        { s with registry := s.registry.erase name, batch := ⟨clear, welcome, connect⟩ }
  | welcomed (draws : Nat → Name) (punchId : BitVec 64) (token : Option (BitVec 64))
      (session : Nat) (welcome : List Nat) (connect : List (Nat × Name)) :
      s.batch = ⟨[], session :: welcome, connect⟩ →
      Outcome config s (.work draws punchId token)
        (Rendezvous.welcome config { s with batch := ⟨[], welcome, connect⟩ } session draws)
  | tried (draws : Nat → Name) (punchId : BitVec 64) (token : Option (BitVec 64)) (session : Nat)
      (target : Name) (connect : List (Nat × Name)) :
      s.batch = ⟨[], [], (session, target) :: connect⟩ →
      Outcome config s (.work draws punchId token)
        (tryPair config { s with batch := ⟨[], [], connect⟩ } session target punchId token)
  | stopped : Outcome config s .stop { s with stop := true }

theorem work_cases (h : s.work config draws punchId token = some t) :
    Outcome config s (.work draws punchId token) t := by
  rw [work] at h
  split at h
  · next name clear welcome connect hbatch =>
    cases h
    exact .cleared _ _ _ name clear welcome connect hbatch
  · next session welcome connect hbatch =>
    cases h
    exact .welcomed _ _ _ session welcome connect hbatch
  · next session target connect hbatch =>
    cases h
    exact .tried _ _ _ session target connect hbatch
  · cases h

theorem step_cases (h : (rendezvous config).step s e = some t) :
    Outcome config s e t := by
  cases e with
  | connect session observed =>
    obtain ⟨hfresh, ⟨⟩⟩ := Option.ite_none_left_eq_some.1 h
    rw [Bool.not_eq_true] at hfresh
    exact .connected _ _ (Std.ExtTreeMap.getElem?_eq_none_of_contains_eq_false hfresh)
  | disconnect session =>
    obtain ⟨data, hdata, rfl⟩ := Option.map_eq_some_iff.1 h
    obtain ⟨hhere, hdata⟩ := present_eq_some.1 hdata
    exact .departed _ _ hhere hdata
  | gathering session candidates punchPort now =>
    obtain ⟨data, hdata, rfl⟩ := Option.map_eq_some_iff.1 h
    obtain ⟨hhere, hdata⟩ := present_eq_some.1 hdata
    exact .gathered _ _ _ _ _ hhere hdata
  | connectPeer session target now =>
    obtain ⟨data, hdata, rfl⟩ := Option.map_eq_some_iff.1 h
    obtain ⟨hhere, hdata⟩ := present_eq_some.1 hdata
    exact .asked _ _ _ _ hhere hdata
  | swap =>
    obtain ⟨hidle, ⟨⟩⟩ := Option.ite_none_right_eq_some.1 h
    exact .swapped hidle.1
  | work draws punchId token => exact work_cases h
  | stop =>
    cases h
    exact .stopped

/-! ## Names -/

/-- The name a session has; `none` if it never connected. -/
def nameOf (s : Rendezvous) (session : Nat) : Option Name :=
  s.clients[session]?.map ClientData.peerName

theorem nameOf_of_some (h : s.clients[session]? = some data) :
    s.nameOf session = some data.peerName := by
  rw [nameOf, h, Option.map_some]

theorem peerName_allowRequest (data : ClientData) (now : Int) :
    (allowRequest config data now).2.peerName = data.peerName := by
  unfold allowRequest
  split
  · rfl
  · split <;> rfl

/-- A client's data changed, its name as before. -/
theorem names_insert {data' : ClientData} (h : clients[session]? = some data)
    (hname : data'.peerName = data.peerName) (i : Nat) :
    (clients.insert session data')[i]?.map ClientData.peerName =
      clients[i]?.map ClientData.peerName := by
  by_cases hi : session = i
  · subst hi
    rw [Std.ExtTreeMap.getElem?_insert_self, h, Option.map_some, Option.map_some, hname]
  · rw [Keyed.getElem?_insert_of_ne hi]

theorem nameOf_update (s : Rendezvous) (session : Nat)
    (hchange : ∀ x, (change x).peerName = x.peerName) (i : Nat) :
    (s.update session change).nameOf i = s.nameOf i := by
  simp only [nameOf, update, Std.ExtTreeMap.getElem?_modify]
  split
  · next hi =>
    obtain rfl := Std.LawfulEqCmp.eq_of_compare hi
    cases s.clients[session]? with
    | none => rfl
    | some data => simp [hchange]
  · rfl

/-- Nothing that decides who is registered differs. -/
structure Frame (s t : Rendezvous) : Prop where
  names : ∀ i, t.nameOf i = s.nameOf i
  registry : t.registry = s.registry
  welcomeQueue : t.welcomeQueue = s.welcomeQueue
  clearQueue : t.clearQueue = s.clearQueue
  batch : t.batch = s.batch
  disconnected : t.disconnected = s.disconnected

theorem Frame.refl (s : Rendezvous) : Frame s s :=
  ⟨fun _ => rfl, rfl, rfl, rfl, rfl, rfl⟩

theorem Frame.trans {u : Rendezvous} (h : Frame s t) (h' : Frame t u) : Frame s u :=
  ⟨fun i => (h'.names i).trans (h.names i), h'.registry.trans h.registry,
    h'.welcomeQueue.trans h.welcomeQueue, h'.clearQueue.trans h.clearQueue,
    h'.batch.trans h.batch, h'.disconnected.trans h.disconnected⟩

/-- Asks, closes and what is sent do not count, nor does what a client's data holds beside its
name. -/
theorem frame_of_names {connectPeerQueue : List (Nat × Name)} {closed : List Nat}
    {sent : List (Nat × Outgoing)}
    (h : ∀ i : Nat, clients[i]?.map ClientData.peerName = s.nameOf i) :
    Frame s { s with clients, connectPeerQueue, closed, sent } :=
  ⟨h, rfl, rfl, rfl, rfl, rfl⟩

theorem frame_send (s : Rendezvous) (session : Nat) (packet : Outgoing) :
    Frame s (s.send session packet) :=
  frame_of_names fun _ => rfl

theorem frame_update (s : Rendezvous) (session : Nat)
    (hchange : ∀ x, (change x).peerName = x.peerName) : Frame s (s.update session change) :=
  frame_of_names (nameOf_update s session hchange)

theorem frame_onGathering (h : s.clients[session]? = some data) (candidates : List Candidate)
    (punchPort : BitVec 16) (now : Int) :
    Frame s (s.onGathering config session data candidates punchPort now) := by
  have hname : (allowRequest config data now).2.peerName = data.peerName :=
    peerName_allowRequest data now
  have hfirst := names_insert h hname
  unfold onGathering
  dsimp only
  split
  · exact frame_of_names hfirst
  · refine frame_of_names fun i => ?_
    refine Eq.trans (names_insert (Std.ExtTreeMap.getElem?_insert_self) ?_ i) (hfirst i)
    rfl

theorem frame_onConnectPeer (h : s.clients[session]? = some data) (target : Name) (now : Int) :
    Frame s (s.onConnectPeer config session data target now) := by
  have hname : (allowRequest config data now).2.peerName = data.peerName :=
    peerName_allowRequest data now
  have hfirst := names_insert h hname
  unfold onConnectPeer
  dsimp only
  split
  · exact frame_of_names hfirst
  · split
    · exact frame_of_names hfirst
    · refine frame_of_names fun i => ?_
      refine Eq.trans (names_insert (Std.ExtTreeMap.getElem?_insert_self) ?_ i) (hfirst i)
      rfl

theorem frame_pair {other : Nat} {otherData : ClientData} {target : Name} :
    Frame s (s.pair config session other data otherData target punchId token) := by
  refine Frame.trans ?_ (frame_send _ _ _)
  refine Frame.trans ?_ (frame_send _ _ _)
  refine Frame.trans (frame_update s session ?_) (frame_update _ other ?_)
  · intro x
    rfl
  · intro x
    rfl

/-- The ways a try ends. -/
theorem tryPair_cases {target : Name} (h : tryPair config s session target punchId token = t) :
    t = s ∨
    (∃ data, s.clients[session]? = some data ∧ target ∈ data.pendingTargets ∧
      t = (s.update session
        fun x => { x with pendingTargets := x.pendingTargets.erase target }).send
        session (.peerNotFound target)) ∨
    (∃ data other, s.clients[session]? = some data ∧ s.registry[target]? = some other ∧
      t = s.send other (.repunchRequest data.peerName)) ∨
    ∃ data other otherData, s.clients[session]? = some data ∧ target ∈ data.pendingTargets ∧
      target ≠ data.peerName ∧ s.registry[target]? = some other ∧
      s.clients[other]? = some otherData ∧ data.peerName ∈ otherData.pendingTargets ∧
      t = s.pair config session other data otherData target punchId token := by
  subst h
  rw [tryPair]
  split
  · exact .inl rfl
  · next data hdata =>
    split
    · exact .inl rfl
    · next hpending =>
      rw [not_not] at hpending
      split
      · exact .inr (.inl ⟨data, hdata, hpending, rfl⟩)
      · next other hother =>
        obtain ⟨hself, hother⟩ := Option.ite_none_left_eq_some.1 hother
        split
        · exact .inl rfl
        · next otherData hotherData =>
          split
          · split
            · exact .inr (.inr (.inl ⟨data, other, hdata, hother, rfl⟩))
            · exact .inl rfl
          · next hback =>
            rw [not_not] at hback
            exact .inr (.inr (.inr ⟨data, other, otherData, hdata, hpending, hself,
              hother, hotherData, hback, rfl⟩))

theorem frame_tryPair {target : Name} :
    Frame s (tryPair config s session target punchId token) := by
  generalize h : tryPair config s session target punchId token = t
  obtain rfl | ⟨data, -, -, rfl⟩ | ⟨data, other, -, -, rfl⟩ |
    ⟨data, other, otherData, -, -, -, -, -, -, rfl⟩ := tryPair_cases h
  · exact Frame.refl _
  · refine Frame.trans (frame_update s session ?_) (frame_send _ _ _)
    intro x
    rfl
  · exact frame_send _ _ _
  · exact frame_pair

/-! ## Naming -/

/-- A drawn name is empty or free. -/
theorem drawName_free (registered : Name → Bool) (draws : Nat → Name) (left i : Nat) :
    drawName registered draws left i = [] ∨
      registered (drawName registered draws left i) = false := by
  induction left generalizing i with
  | zero => exact .inl rfl
  | succ left ih =>
    rw [drawName]
    split
    · exact ih (i + 1)
    · next h => exact .inr (Bool.not_eq_true _ ▸ h)

theorem generateUniqueName_free (h : s.generateUniqueName draws ≠ []) :
    s.registry[s.generateUniqueName draws]? = none := by
  rcases drawName_free s.registry.contains draws 5001 0 with hnone | hfree
  · exact absurd hnone h
  · exact Std.ExtTreeMap.getElem?_eq_none_of_contains_eq_false hfree

/-- A client is given a name. -/
structure Named (s : Rendezvous) (session : Nat) (name : Name) (t : Rendezvous) : Prop where
  unnamed : s.nameOf session = some []
  nonempty : name ≠ []
  free : s.registry[name]? = none
  names : ∀ i, t.nameOf i = if session = i then some name else s.nameOf i
  registry : t.registry = s.registry.insert name session
  welcomeQueue : t.welcomeQueue = s.welcomeQueue
  clearQueue : t.clearQueue = s.clearQueue
  batch : t.batch = s.batch
  disconnected : t.disconnected = s.disconnected

theorem welcome_cases (config : RendezvousConfig) (s : Rendezvous) (session : Nat)
    (draws : Nat → Name) :
    Frame s (welcome config s session draws) ∨
      ∃ name, Named s session name (welcome config s session draws) := by
  rw [welcome]
  split
  · exact .inl (Frame.refl _)
  · next data hdata =>
    split
    · exact .inl (Frame.refl _)
    · next hunnamed =>
      rw [not_not] at hunnamed
      dsimp only
      split
      · exact .inl (frame_of_names fun _ => rfl)
      · next hname =>
        refine .inr ⟨s.generateUniqueName draws, ?_, hname, generateUniqueName_free hname,
          fun i => ?_, rfl, rfl, rfl, rfl, rfl⟩
        · rw [nameOf_of_some hdata, hunnamed]
        · by_cases hi : session = i
          · subst hi
            simp [nameOf, send]
          · rw [if_neg hi]
            simp only [nameOf, send]
            rw [Keyed.getElem?_insert_of_ne hi]

/-- What a step does to the names, the registry and what the pairing thread has taken. -/
inductive Effect (s : Rendezvous) : RendezvousEvent → Rendezvous → Prop
  | connected (session : Nat) (observed : InetAddress) : s.clients[session]? = none →
      Effect s (.connect session observed) (s.onConnect session observed)
  | departed (session : Nat) (data : ClientData) : session ∉ s.disconnected →
      s.clients[session]? = some data →
      Effect s (.disconnect session) (s.onDisconnect session data)
  | swapped {e : RendezvousEvent} : s.batch = {} → Effect s e s.swap
  | cleared {e : RendezvousEvent} {name : Name} {clear : List Name} {welcome : List Nat}
      {connect : List (Nat × Name)} : s.batch = ⟨name :: clear, welcome, connect⟩ →
      Effect s e { s with registry := s.registry.erase name, batch := ⟨clear, welcome, connect⟩ }
  | named {e : RendezvousEvent} {session : Nat} {welcome : List Nat}
      {connect : List (Nat × Name)} {name : Name} {t : Rendezvous} :
      s.batch = ⟨[], session :: welcome, connect⟩ →
      Named { s with batch := ⟨[], welcome, connect⟩ } session name t → Effect s e t
  /-- What was taken gets no longer, with no name to clear dropped, and the rest is left alone. -/
  | passed {e : RendezvousEvent} {batch : Batch} {t : Rendezvous} :
      s.batch.clear = batch.clear → batch.welcome ⊆ s.batch.welcome →
      batch.connect ⊆ s.batch.connect → Frame { s with batch } t → Effect s e t

theorem Effect.framed (h : Frame s t) : Effect s e t :=
  .passed rfl (List.Subset.refl _) (List.Subset.refl _) h

theorem effect_of_step (hstep : (rendezvous config).step s e = some t) : Effect s e t := by
  cases step_cases hstep with
  | connected session observed hfresh => exact .connected session observed hfresh
  | departed session data hhere hdata => exact .departed session data hhere hdata
  | gathered session data candidates punchPort now _ hdata =>
    exact .framed (frame_onGathering hdata candidates punchPort now)
  | asked session data target now _ hdata => exact .framed (frame_onConnectPeer hdata target now)
  | swapped hbatch => exact .swapped hbatch
  | cleared _ _ _ name clear welcome connect hbatch => exact .cleared hbatch
  | welcomed draws _ _ session welcome connect hbatch =>
    rcases welcome_cases config { s with batch := ⟨[], welcome, connect⟩ } session
      draws with hframe | ⟨name, hnamed⟩
    · refine .passed ?_ ?_ ?_ hframe
      all_goals rw [hbatch]
      · exact List.subset_cons_self _ _
      · exact List.Subset.refl _
    · exact .named hbatch hnamed
  | tried _ punchId token session target connect hbatch =>
    refine .passed ?_ (List.nil_subset _) ?_ frame_tryPair
    all_goals rw [hbatch]
    exact List.subset_cons_self _ _
  | stopped => exact .framed ⟨fun _ => rfl, rfl, rfl, rfl, rfl, rfl⟩

end Rendezvous

end P2p
end Znet

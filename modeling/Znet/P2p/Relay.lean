import Znet.Lib.Keyed
import Znet.Zdt.Offline

/-!
# The relay

`Relay` of `traversal_server.cc`: pairings of two peers that cannot reach each other.  A broker
allocates a pairing and hands its token to both; each presents the token from wherever it is and
is bound to one of two slots; what one of them then sends on the pairing's channel goes to the
other.  Every function holds the lock, so each is one step.  The tokens that are drawn, and the
clock, are the environment's.

* `relay_isolation` — **a pairing is between the two endpoints that presented its token.**
-/

namespace Znet
namespace P2p

open Zdt

/-! ## State -/

def kZDTMaxRelayChannel : Nat := 0xFFFFFF

structure RelayConfig where
  bindTimeout : Int := 15000
  idleTimeout : Int := 30000
  maxAllocations : Nat := 4096

/-- A pairing.  A slot is empty until an endpoint is bound to it. -/
structure Pairing where
  channel : Nat
  token : BitVec 64
  first : Option Endpoint := none
  second : Option Endpoint := none
  created : Int
  lastTraffic : Int
  /-- History: who has presented the token. -/
  presented : List Endpoint := []
  deriving DecidableEq

/-- A datagram that was passed on. -/
structure Forwarded where
  channel : Nat
  bytes : List UInt8
  source : Endpoint
  target : Endpoint
  deriving DecidableEq

structure Relay where
  running : Bool := false
  pairings : Std.ExtTreeMap Nat Pairing compare := ∅
  channelsByToken : Std.ExtTreeMap (BitVec 64) Nat compare := ∅
  nextChannel : Nat := 1
  /-- History: what was passed on. -/
  forwarded : List Forwarded := []
  /-- History: who was told that it is bound. -/
  answered : List (Endpoint × BitVec 64 × Nat) := []

/-- What `Allocate` returns. -/
inductive Allocated where
  | success (channel : Nat) (token : BitVec 64)
  | serverFull
  | alreadyStopped
  deriving DecidableEq

/-- What `Free` returns. -/
inductive Freed where
  | success
  | peerNotFound
  deriving DecidableEq

/-! ## The functions -/

/-- The channel after a channel. -/
def nextAfter (channel : Nat) : Nat := if channel = kZDTMaxRelayChannel then 1 else channel + 1

/-- The walk to a free channel, in so many steps. -/
def freeChannel (taken : Nat → Bool) : Nat → Nat → Option Nat
  | 0, _ => none
  | steps + 1, channel =>
    if taken channel then freeChannel taken steps (nextAfter channel) else some channel

/-- The token of a bind, or zero. -/
def bindToken (bytes : List UInt8) : BitVec 64 :=
  if bytes.length < kZDTOfflineHeaderSize + 8 ∨ peekOfflineHeader bytes ≠ some .relayBind then 0
  else readBigEndian64 (bytes.drop kZDTOfflineHeaderSize)

namespace Pairing

/-- The slot across from an endpoint, if the endpoint is bound. -/
def across (p : Pairing) (source : Endpoint) : Option (Option Endpoint) :=
  if p.first = some source then some p.second
  else if p.second = some source then some p.first
  else none

/-- An endpoint takes a slot, unless it has one; `none` if both are taken. -/
def bound (p : Pairing) (source : Endpoint) : Option Pairing :=
  if p.first = some source ∨ p.second = some source then some p
  else if p.first = none then some { p with first := some source }
  else if p.second = none then some { p with second := some source }
  else none

/-- The test of `Expire`. -/
def expired (config : RelayConfig) (now : Int) (p : Pairing) : Bool :=
  if p.first.isSome && p.second.isSome then decide (config.idleTimeout < now - p.lastTraffic)
  else decide (config.bindTimeout < now - p.created)

end Pairing

namespace Relay

/-- `Release`. -/
def release (s : Relay) (channel : Nat) : Relay :=
  match s.pairings[channel]? with
  | none => s
  | some p =>
    { s with
      channelsByToken := s.channelsByToken.erase p.token
      pairings := s.pairings.erase channel }

/-- `Allocate`, with the tokens that are drawn; `none` where a loop does not end. -/
def allocate (config : RelayConfig) (s : Relay) (draws : List (BitVec 64)) (now : Int) :
    Option (Allocated × Relay) :=
  if !s.running then some (.alreadyStopped, s)
  else if config.maxAllocations ≤ s.pairings.size then some (.serverFull, s)
  else
    (freeChannel s.pairings.contains kZDTMaxRelayChannel s.nextChannel).bind fun channel =>
      (draws.find? fun token => decide (token ≠ 0 ∧ ¬ s.channelsByToken.contains token)).map
        fun token =>
          (.success channel token,
            { s with
              nextChannel := nextAfter channel
              channelsByToken := s.channelsByToken.insert token channel
              pairings := s.pairings.insert channel
                { channel, token, created := now, lastTraffic := now } })

/-- `Free`. -/
def free (s : Relay) (channel : Nat) : Freed × Relay :=
  if s.pairings.contains channel then (.success, s.release channel) else (.peerNotFound, s)

/-- `OnForward`. -/
def onForward (s : Relay) (channel : Nat) (bytes : List UInt8) (source : Endpoint) (now : Int) :
    Relay :=
  match s.pairings[channel]? with
  | none => s
  | some p =>
    match p.across source with
    | none => s
    | some none => s
    | some (some target) =>
      { s with
        pairings := s.pairings.insert channel { p with lastTraffic := now }
        forwarded := ⟨channel, bytes, source, target⟩ :: s.forwarded }

/-- `OnBind`, where the token is one of a channel's.  That channel always has a pairing; where the
table had none, the source would make one. -/
def bindTo (s : Relay) (channel : Nat) (source : Endpoint) (now : Int) : Relay :=
  let p := s.pairings.getD channel { channel := 0, token := 0, created := 0, lastTraffic := 0 }
  let p := { p with presented := source :: p.presented }
  match p.bound source with
  | none => { s with pairings := s.pairings.insert channel p }
  | some p =>
    { s with
      pairings := s.pairings.insert channel { p with lastTraffic := now }
      answered := (source, p.token, p.channel) :: s.answered }

/-- `OnBind`. -/
def onBind (s : Relay) (bytes : List UInt8) (source : Endpoint) (now : Int) : Relay :=
  let token := bindToken bytes
  if token = 0 then s
  else
    match s.channelsByToken[token]? with
    | none => s
    | some channel => s.bindTo channel source now

/-- `Expire`: what has expired is released, one after the other. -/
def expire (config : RelayConfig) (s : Relay) (now : Int) : Relay :=
  ((s.pairings.toList.filter fun entry => entry.2.expired config now).map Prod.fst).foldl release s

end Relay

/-! ## Runs -/

inductive RelayEvent where
  | start
  /-- The first half of `Stop`. -/
  | stop
  /-- The second half of `Stop`. -/
  | clear
  | allocate (draws : List (BitVec 64)) (now : Int)
  | free (channel : Nat)
  | bind (bytes : List UInt8) (source : Endpoint) (now : Int)
  | forward (channel : Nat) (bytes : List UInt8) (source : Endpoint) (now : Int)
  | expire (now : Int)

def relay (config : RelayConfig) : Machine Relay RelayEvent where
  step s
    | .start => some { s with running := true }
    | .stop => some { s with running := false }
    | .clear => some { s with pairings := ∅, channelsByToken := ∅ }
    | .allocate draws now => (s.allocate config draws now).map Prod.snd
    | .free channel => some (s.free channel).2
    | .bind bytes source now => some (s.onBind bytes source now)
    | .forward channel bytes source now => some (s.onForward channel bytes source now)
    | .expire now => some (s.expire config now)

/-! ## Channels -/

/-- A channel that is in range. -/
def InRange (channel : Nat) : Prop := 1 ≤ channel ∧ channel ≤ kZDTMaxRelayChannel

variable {channel steps start : Nat} {taken : Nat → Bool}

theorem inRange_nextAfter (h : InRange channel) : InRange (nextAfter channel) := by
  obtain ⟨hlow, hhigh⟩ := h
  unfold nextAfter
  split
  · exact ⟨le_rfl, by decide⟩
  · exact ⟨by omega, by omega⟩

/-- What the walk finds is free, and in range. -/
theorem freeChannel_spec (h : freeChannel taken steps start = some channel)
    (hstart : InRange start) :
    taken channel = false ∧ InRange channel := by
  induction steps generalizing start with
  | zero => cases h
  | succ steps ih =>
    rw [freeChannel] at h
    split at h
    · exact ih h (inRange_nextAfter hstart)
    · next hfree =>
      cases h
      exact ⟨by simpa using hfree, hstart⟩

/-- The channels a walk visits. -/
def visited (start : Nat) : Nat → List Nat
  | 0 => []
  | steps + 1 => start :: visited (nextAfter start) steps

theorem freeChannel_eq_none (h : freeChannel taken steps start = none) :
    ∀ channel ∈ visited start steps, taken channel = true := by
  induction steps generalizing start with
  | zero =>
    intro channel hmem
    cases hmem
  | succ steps ih =>
    rw [freeChannel] at h
    split at h
    · next htaken =>
      rw [visited, List.forall_mem_cons]
      exact ⟨htaken, ih h⟩
    · cases h

/-- The channels are visited in order, round and round. -/
theorem nextAfter_sub_one (h : InRange start) (i : Nat) :
    (nextAfter start - 1 + i) % kZDTMaxRelayChannel =
      (start - 1 + (i + 1)) % kZDTMaxRelayChannel := by
  obtain ⟨hlow, hhigh⟩ := h
  unfold nextAfter kZDTMaxRelayChannel at *
  split
  · omega
  · omega

theorem sub_one_mod (h : InRange channel) :
    (channel - 1) % kZDTMaxRelayChannel + 1 = channel := by
  obtain ⟨hlow, hhigh⟩ := h
  unfold kZDTMaxRelayChannel at *
  omega

/-- The channel so many steps on. -/
theorem mem_visited (hstart : InRange start) {i : Nat} (hi : i < steps) :
    (start - 1 + i) % kZDTMaxRelayChannel + 1 ∈ visited start steps := by
  induction steps generalizing start i with
  | zero => cases hi
  | succ steps ih =>
    cases i with
    | zero =>
      show (start - 1) % kZDTMaxRelayChannel + 1 ∈ _
      rw [sub_one_mod hstart]
      exact List.mem_cons_self
    | succ i =>
      rw [← nextAfter_sub_one hstart]
      exact List.mem_cons_of_mem _ (ih (inRange_nextAfter hstart) (Nat.lt_of_succ_lt_succ hi))

/-- A whole round visits every channel. -/
theorem mem_visited_round (hstart : InRange start) (h : InRange channel) :
    channel ∈ visited start kZDTMaxRelayChannel := by
  -- so many steps lie between the two, counted round
  have hi : (channel + kZDTMaxRelayChannel - start) % kZDTMaxRelayChannel < kZDTMaxRelayChannel :=
    Nat.mod_lt _ (by decide)
  have hmem := mem_visited hstart hi
  have hround : (start - 1 + (channel + kZDTMaxRelayChannel - start) % kZDTMaxRelayChannel) %
      kZDTMaxRelayChannel + 1 = channel := by
    obtain ⟨hlow, hhigh⟩ := hstart
    obtain ⟨hlow', hhigh'⟩ := h
    unfold kZDTMaxRelayChannel at *
    omega
  rwa [hround] at hmem

/-- **The walk ends.**  While there are fewer pairings than channels, it finds one that is free. -/
theorem freeChannel_isSome (s : Relay) (hnext : InRange s.nextChannel)
    (hroom : s.pairings.size < kZDTMaxRelayChannel) :
    (freeChannel s.pairings.contains kZDTMaxRelayChannel s.nextChannel).isSome = true := by
  rw [Option.isSome_iff_ne_none]
  intro hnone
  have htaken : List.range' 1 kZDTMaxRelayChannel ⊆ s.pairings.keys := by
    intro channel hmem
    have hrange : InRange channel := by
      rw [List.mem_range'_1] at hmem
      exact ⟨hmem.1, by omega⟩
    have := freeChannel_eq_none hnone channel (mem_visited_round hnext hrange)
    rw [Std.ExtTreeMap.mem_keys]
    exact Std.ExtTreeMap.mem_iff_contains.2 this
  have hlength := (List.subperm_of_subset (List.nodup_range' (n := kZDTMaxRelayChannel))
      htaken).length_le
  rw [List.length_range', Std.ExtTreeMap.length_keys] at hlength
  omega

/-! ## Pairings and tokens, over runs -/

namespace Pairing

/-- Who is bound has presented the token, and is bound once. -/
structure Wf (p : Pairing) : Prop where
  first : ∀ a, p.first = some a → a ∈ p.presented
  second : ∀ a, p.second = some a → a ∈ p.presented
  apart : ∀ a, p.first = some a → p.second ≠ some a

/-- A pairing and the same pairing later. -/
structure Evolves (p p' : Pairing) : Prop where
  token : p'.token = p.token
  channel : p'.channel = p.channel
  first : ∀ a, p.first = some a → p'.first = some a
  second : ∀ a, p.second = some a → p'.second = some a

theorem Evolves.refl (p : Pairing) : Evolves p p := ⟨rfl, rfl, fun _ h => h, fun _ h => h⟩

variable {p : Pairing} {source : Endpoint}

/-- **What binding does.**  Slots that are set stay, and an empty one is only set to an endpoint
that is not in the other. -/
theorem bound_spec {p' : Pairing} (hp : p.Wf)
    (h : { p with presented := source :: p.presented }.bound source = some p') :
    p'.Wf ∧ Evolves p p' := by
  have hpresented : ∀ a, a ∈ p.presented → a ∈ source :: p.presented :=
    fun a ha => List.mem_cons_of_mem _ ha
  unfold bound at h
  split at h
  · cases h
    exact ⟨⟨fun a ha => hpresented a (hp.first a ha), fun a ha => hpresented a (hp.second a ha),
      hp.apart⟩, rfl, rfl, fun _ h => h, fun _ h => h⟩
  · next hnew =>
    rw [not_or] at hnew
    split at h
    · next hempty =>
      cases h
      refine ⟨⟨fun a ha => ?_, fun a ha => hpresented a (hp.second a ha), fun a ha => ?_⟩,
        rfl, rfl, fun a ha => ?_, fun _ h => h⟩
      · cases ha
        exact List.mem_cons_self
      · cases ha
        exact hnew.2
      · cases hempty.symm.trans ha
    · split at h
      · next hempty =>
        cases h
        refine ⟨⟨fun a ha => hpresented a (hp.first a ha), fun a ha => ?_, fun a ha hsame => ?_⟩,
          rfl, rfl, fun _ h => h, fun a ha => ?_⟩
        · cases ha
          exact List.mem_cons_self
        · cases hsame
          exact hnew.1 ha
        · cases hempty.symm.trans ha
      · cases h

/-- Across from an endpoint is the other slot. -/
theorem across_spec {target : Endpoint} (h : p.across source = some (some target)) :
    p.first = some source ∧ p.second = some target ∨
      p.first = some target ∧ p.second = some source := by
  unfold across at h
  split at h
  · next hfirst => exact .inl ⟨hfirst, Option.some.inj h⟩
  · split at h
    · next hsecond => exact .inr ⟨Option.some.inj h, hsecond⟩
    · cases h

end Pairing

namespace Relay

structure Paired (config : RelayConfig) (s : Relay) : Prop where
  indexed : Keyed.Indexed Pairing.token s.pairings s.channelsByToken
  channel : ∀ (c : Nat) (p : Pairing), s.pairings[c]? = some p → p.channel = c ∧ InRange c
  token : ∀ (c : Nat) (p : Pairing), s.pairings[c]? = some p → p.token ≠ 0
  slots : ∀ (c : Nat) (p : Pairing), s.pairings[c]? = some p → p.Wf
  room : s.pairings.size ≤ config.maxAllocations
  next : InRange s.nextChannel

variable {config : RelayConfig} {s t : Relay} {e : RelayEvent}

theorem paired_empty (config : RelayConfig) {s : Relay} (hpairings : s.pairings = ∅)
    (htokens : s.channelsByToken = ∅) (hnext : InRange s.nextChannel) : Paired config s where
  indexed := by
    rw [hpairings, htokens]
    exact Keyed.indexed_empty
  channel c p h := by simp [hpairings] at h
  token c p h := by simp [hpairings] at h
  slots c p h := by simp [hpairings] at h
  room := by simp [hpairings]
  next := hnext

variable {c : Nat} {p : Pairing} {now : Int}

/-- A pairing is replaced by what it has become. -/
theorem Paired.evolve (h : Paired config s) {p' : Pairing} (hp : s.pairings[c]? = some p)
    (hevolves : p.Evolves p') (hwf : p'.Wf) (hpairings : t.pairings = s.pairings.insert c p')
    (htokens : t.channelsByToken = s.channelsByToken) (hnext : t.nextChannel = s.nextChannel) :
    Paired config t := by
  have hcases : ∀ (c' : Nat) (q : Pairing), t.pairings[c']? = some q →
      c = c' ∧ p' = q ∨ s.pairings[c']? = some q := by
    intro c' q hq
    rw [hpairings] at hq
    exact (Keyed.getElem?_insert_cases hq).imp_right And.right
  constructor
  · rw [hpairings, htokens]
    exact h.indexed.replace hp hevolves.token
  · intro c' q hq
    rcases hcases c' q hq with ⟨rfl, rfl⟩ | hq
    · rw [hevolves.channel]
      exact h.channel c p hp
    · exact h.channel c' q hq
  · intro c' q hq
    rcases hcases c' q hq with ⟨rfl, rfl⟩ | hq
    · rw [hevolves.token]
      exact h.token c p hp
    · exact h.token c' q hq
  · intro c' q hq
    rcases hcases c' q hq with ⟨rfl, rfl⟩ | hq
    · exact hwf
    · exact h.slots c' q hq
  · have hcontains : s.pairings.contains c = true := by
      rw [Std.ExtTreeMap.contains_eq_isSome_getElem?, hp]
      rfl
    rw [hpairings, Std.ExtTreeMap.size_insert, if_pos hcontains]
    exact h.room
  · rw [hnext]
    exact h.next

theorem release_eq (s : Relay) (c : Nat) :
    (s.release c).nextChannel = s.nextChannel ∧ (s.release c).forwarded = s.forwarded ∧
      (s.release c).running = s.running := by
  unfold release
  split <;> exact ⟨rfl, rfl, rfl⟩

/-- A release takes a pairing away whole, and no other. -/
theorem getElem?_release (s : Relay) (c c' : Nat) :
    (s.release c).pairings[c']? = if c = c' then none else s.pairings[c']? := by
  unfold release
  split
  · next hnone =>
    split
    · next heq => rw [← heq, hnone]
    · rfl
  · rw [Std.ExtTreeMap.getElem?_erase]
    simp

theorem Paired.release (h : Paired config s) (c : Nat) : Paired config (s.release c) := by
  have hold : ∀ (c' : Nat) (q : Pairing), (s.release c).pairings[c']? = some q →
      s.pairings[c']? = some q := by
    intro c' q hq
    rw [getElem?_release] at hq
    split at hq
    · cases hq
    · exact hq
  refine ⟨?_, fun c' q hq => h.channel c' q (hold c' q hq),
    fun c' q hq => h.token c' q (hold c' q hq),
    fun c' q hq => h.slots c' q (hold c' q hq), ?_, ?_⟩
  · unfold Relay.release
    split
    · exact h.indexed
    · next p hp => exact h.indexed.erase hp
  · unfold Relay.release
    split
    · exact h.room
    · exact Std.ExtTreeMap.size_erase_le.trans h.room
  · rw [(release_eq s c).1]
    exact h.next

/-- Releases, one after the other. -/
theorem Paired.releases (h : Paired config s) (channels : List Nat) :
    Paired config (channels.foldl Relay.release s) := by
  induction channels generalizing s with
  | nil => exact h
  | cons c channels ih => exact ih (h.release c)

theorem getElem?_releases (s : Relay) (channels : List Nat) (c : Nat) :
    (channels.foldl release s).pairings[c]? = if c ∈ channels then none else s.pairings[c]? := by
  induction channels generalizing s with
  | nil => rfl
  | cons c' channels ih =>
    rw [List.foldl_cons, ih, getElem?_release]
    by_cases hmem : c ∈ channels
    · simp [hmem]
    · by_cases heq : c' = c
      · simp [heq]
      · simp [hmem, heq, Ne.symm heq]

theorem forwarded_releases (s : Relay) (channels : List Nat) :
    (channels.foldl release s).forwarded = s.forwarded := by
  induction channels generalizing s with
  | nil => rfl
  | cons c channels ih => rw [List.foldl_cons, ih, (release_eq s c).2.1]

/-- What a step can do. -/
inductive Change (config : RelayConfig) (s : Relay) : RelayEvent → Relay → Prop
  | idle {e : RelayEvent} {t : Relay} (hpairings : t.pairings = s.pairings)
      (htokens : t.channelsByToken = s.channelsByToken) (hnext : t.nextChannel = s.nextChannel)
      (hforwarded : t.forwarded = s.forwarded) : Change config s e t
  | cleared : Change config s .clear { s with pairings := ∅, channelsByToken := ∅ }
  | allocated (draws : List (BitVec 64)) (now : Int) (c : Nat) (token : BitVec 64)
      (hfree : s.pairings[c]? = none) (hrange : InRange c) (htoken : token ≠ 0)
      (hunused : s.channelsByToken[token]? = none)
      (hroom : s.pairings.size < config.maxAllocations) :
      Change config s (.allocate draws now)
        { s with
          nextChannel := nextAfter c
          channelsByToken := s.channelsByToken.insert token c
          pairings := s.pairings.insert c
            { channel := c, token, created := now, lastTraffic := now } }
  | released {e : RelayEvent} (channels : List Nat) :
      Change config s e (channels.foldl Relay.release s)
  | evolved {t : Relay} (bytes : List UInt8) (source : Endpoint) (now : Int) (c : Nat)
      (p p' : Pairing) (hp : s.pairings[c]? = some p) (hevolves : p.Evolves p') (hwf : p'.Wf)
      (hpairings : t.pairings = s.pairings.insert c p')
      (htokens : t.channelsByToken = s.channelsByToken) (hnext : t.nextChannel = s.nextChannel)
      (hforwarded : t.forwarded = s.forwarded) : Change config s (.bind bytes source now) t
  | forwarded (c : Nat) (bytes : List UInt8) (source : Endpoint) (now : Int) (p : Pairing)
      (target : Endpoint) (hp : s.pairings[c]? = some p)
      (hacross : p.across source = some (some target)) :
      Change config s (.forward c bytes source now)
        { s with
          pairings := s.pairings.insert c { p with lastTraffic := now }
          forwarded := ⟨c, bytes, source, target⟩ :: s.forwarded }

section

variable (h : Paired config s)

include h

theorem allocate_change {draws : List (BitVec 64)} {result : Allocated}
    (hstep : s.allocate config draws now = some (result, t)) :
    Change config s (.allocate draws now) t := by
  unfold allocate at hstep
  split at hstep
  · obtain ⟨-, rfl⟩ := Prod.mk.inj (Option.some.inj hstep)
    exact .idle rfl rfl rfl rfl
  · split at hstep
    · obtain ⟨-, rfl⟩ := Prod.mk.inj (Option.some.inj hstep)
      exact .idle rfl rfl rfl rfl
    · next hroom =>
      obtain ⟨c, hc, hstep⟩ := Option.bind_eq_some_iff.1 hstep
      obtain ⟨token, htoken, heq⟩ := Option.map_eq_some_iff.1 hstep
      obtain ⟨-, rfl⟩ := Prod.mk.inj heq
      obtain ⟨hfree, hrange⟩ := freeChannel_spec hc h.next
      have hdrawn : token ≠ 0 ∧ ¬ s.channelsByToken.contains token = true := by
        simpa using List.find?_some htoken
      refine .allocated draws now c token ?_ hrange hdrawn.1 ?_ (not_le.1 hroom)
      · exact Std.ExtTreeMap.getElem?_eq_none_of_contains_eq_false hfree
      · exact Std.ExtTreeMap.getElem?_eq_none_of_contains_eq_false
          (Bool.eq_false_of_not_eq_true hdrawn.2)

theorem bindTo_change {bytes : List UInt8} {source : Endpoint} (hp : s.pairings[c]? = some p) :
    Change config s (.bind bytes source now) (s.bindTo c source now) := by
  have hwf := h.slots c p hp
  unfold bindTo
  rw [Std.ExtTreeMap.getD_eq_getD_getElem?, hp, Option.getD_some]
  simp only
  split
  · refine .evolved bytes source now c p _ hp ?_ ?_ rfl rfl rfl rfl
    · exact ⟨rfl, rfl, fun _ h => h, fun _ h => h⟩
    · exact ⟨fun a ha => List.mem_cons_of_mem _ (hwf.first a ha),
        fun a ha => List.mem_cons_of_mem _ (hwf.second a ha), hwf.apart⟩
  · next p' hbound =>
    obtain ⟨hwf', hevolves⟩ := Pairing.bound_spec hwf hbound
    refine .evolved bytes source now c p _ hp ?_ ?_ rfl rfl rfl rfl
    · exact { hevolves with }
    · exact { hwf' with }

/-- **Everything a step can do.** -/
theorem change_of_step (hstep : (relay config).step s e = some t) : Change config s e t := by
  cases e with
  | start | stop =>
    cases hstep
    exact .idle rfl rfl rfl rfl
  | clear =>
    cases hstep
    exact .cleared
  | allocate draws now =>
    obtain ⟨⟨result, t'⟩, hallocate, rfl⟩ := Option.map_eq_some_iff.1 hstep
    exact allocate_change h hallocate
  | free c =>
    cases hstep
    unfold free
    split
    · exact .released [c]
    · exact .idle rfl rfl rfl rfl
  | bind bytes source now =>
    cases hstep
    unfold onBind
    simp only
    split
    · exact .idle rfl rfl rfl rfl
    · split
      · exact .idle rfl rfl rfl rfl
      · next c hc =>
        obtain ⟨p, hp, -⟩ := h.indexed.back _ c hc
        exact bindTo_change h hp
  | forward c bytes source now =>
    cases hstep
    unfold onForward
    split
    · exact .idle rfl rfl rfl rfl
    · next p hp =>
      split
      · exact .idle rfl rfl rfl rfl
      · exact .idle rfl rfl rfl rfl
      · next target hacross => exact .forwarded c bytes source now p target hp hacross
  | expire now =>
    cases hstep
    exact .released _

theorem Paired.allocate (hfree : s.pairings[c]? = none)
    (hunused : s.channelsByToken[p.token]? = none) (hchannel : p.channel = c) (hrange : InRange c)
    (htoken : p.token ≠ 0) (hwf : p.Wf) (hroom : s.pairings.size < config.maxAllocations) :
    Paired config
      { s with
        nextChannel := nextAfter c
        channelsByToken := s.channelsByToken.insert p.token c
        pairings := s.pairings.insert c p } := by
  refine ⟨h.indexed.insert hfree hunused, fun c' q hq => ?_, fun c' q hq => ?_, fun c' q hq => ?_,
    ?_, inRange_nextAfter hrange⟩
  · rcases Keyed.getElem?_insert_cases hq with ⟨rfl, rfl⟩ | ⟨-, hq⟩
    · exact ⟨hchannel, hrange⟩
    · exact h.channel c' q hq
  · rcases Keyed.getElem?_insert_cases hq with ⟨rfl, rfl⟩ | ⟨-, hq⟩
    · exact htoken
    · exact h.token c' q hq
  · rcases Keyed.getElem?_insert_cases hq with ⟨rfl, rfl⟩ | ⟨-, hq⟩
    · exact hwf
    · exact h.slots c' q hq
  · have hsize := Std.ExtTreeMap.size_insert_le (t := s.pairings) (k := c) (v := p)
    show (s.pairings.insert c p).size ≤ _
    omega

theorem Paired.change (hchange : Change config s e t) : Paired config t := by
  cases hchange with
  | idle hpairings htokens hnext =>
    constructor
    · rw [hpairings, htokens]
      exact h.indexed
    · rw [hpairings]
      exact h.channel
    · rw [hpairings]
      exact h.token
    · rw [hpairings]
      exact h.slots
    · rw [hpairings]
      exact h.room
    · rw [hnext]
      exact h.next
  | cleared => exact paired_empty config rfl rfl h.next
  | allocated draws now c token hfree hrange htoken hunused hroom =>
    exact h.allocate hfree hunused rfl hrange htoken
      ⟨fun a ha => (by cases ha), fun a ha => (by cases ha), fun a ha => (by cases ha)⟩ hroom
  | released channels => exact h.releases channels
  | evolved bytes source now c p p' hp hevolves hwf hpairings htokens hnext =>
    exact h.evolve hp hevolves hwf hpairings htokens hnext
  | forwarded c bytes source now p target hp hacross =>
    have hwf := h.slots c p hp
    refine h.evolve hp ?_ ?_ rfl rfl rfl
    · exact ⟨rfl, rfl, fun _ h => h, fun _ h => h⟩
    · exact { hwf with }

end

theorem paired_of_run {es : List RelayEvent} (h : (relay config).exec {} es = some s) :
    Paired config s :=
  Machine.exec_invariant (relay config) (I := Paired config)
    (fun _ _ _ hs hstep => hs.change (change_of_step hs hstep)) h
    (paired_empty config rfl rfl ⟨le_rfl, by decide⟩)

/-- A pairing is the same pairing after a step, or it is gone. -/
theorem evolves_of_change (hchange : Change config s e t) (hp : s.pairings[c]? = some p) :
    t.pairings[c]? = none ∨ ∃ p', t.pairings[c]? = some p' ∧ p.Evolves p' := by
  have hsame : s.pairings[c]? = none ∨ ∃ p', s.pairings[c]? = some p' ∧ p.Evolves p' :=
    .inr ⟨p, hp, .refl p⟩
  have hinsert : ∀ (c' : Nat) (q q' : Pairing), s.pairings[c']? = some q → q.Evolves q' →
      ∃ p', (s.pairings.insert c' q')[c]? = some p' ∧ p.Evolves p' := by
    intro c' q q' hq hevolves
    by_cases hc : c' = c
    · subst hc
      obtain rfl : p = q := Option.some.inj (hp.symm.trans hq)
      exact ⟨q', Std.ExtTreeMap.getElem?_insert_self, hevolves⟩
    · exact ⟨p, by rw [Keyed.getElem?_insert_of_ne hc, hp], .refl p⟩
  cases hchange with
  | idle hpairings =>
    rw [hpairings]
    exact hsame
  | cleared => exact .inl (by simp)
  | allocated draws now c' token hfree =>
    refine .inr ⟨p, ?_, .refl p⟩
    show (s.pairings.insert c' _)[c]? = _
    rw [Keyed.getElem?_insert_of_ne, hp]
    rintro rfl
    rw [hfree] at hp
    cases hp
  | released channels =>
    rw [getElem?_releases]
    split
    · exact .inl rfl
    · exact hsame
  | evolved bytes source now c' q q' hq hevolves hwf hpairings =>
    rw [hpairings]
    exact .inr (hinsert c' q q' hq hevolves)
  | forwarded c' bytes source now q target hq =>
    refine .inr (hinsert c' q _ hq ?_)
    exact ⟨rfl, rfl, fun _ h => h, fun _ h => h⟩

/-- **Relay isolation.**  In every run:

* the two tables are inverse to each other, channels are in range, tokens are not zero and all
  different, and there are no more pairings than are allowed;
* the two slots of a pairing hold different endpoints, both of which presented its token; and a
  step leaves a pairing, its token and the slots that are set as they are, or takes it away whole;
* what a step passes on came, on a channel, from the endpoint in one slot of that channel's
  pairing, and goes to the endpoint in the other. -/
theorem relay_isolation {es : List RelayEvent} (hrun : (relay config).exec {} es = some s) :
    ((∀ (c : Nat) (p : Pairing), s.pairings[c]? = some p →
        s.channelsByToken[p.token]? = some c ∧ p.channel = c ∧ 1 ≤ c ∧ c ≤ 0xFFFFFF ∧
          p.token ≠ 0) ∧
      (∀ (token : BitVec 64) (c : Nat), s.channelsByToken[token]? = some c →
        ∃ p, s.pairings[c]? = some p ∧ p.token = token) ∧
      (∀ (c c' : Nat) (p p' : Pairing), s.pairings[c]? = some p → s.pairings[c']? = some p' →
        p.token = p'.token → c = c') ∧
      s.pairings.size ≤ config.maxAllocations) ∧
    (∀ (c : Nat) (p : Pairing), s.pairings[c]? = some p → p.Wf) ∧
    ∀ e t, (relay config).step s e = some t →
      (∀ (c : Nat) (p : Pairing), s.pairings[c]? = some p →
        t.pairings[c]? = none ∨ ∃ p', t.pairings[c]? = some p' ∧ p.Evolves p') ∧
      (t.forwarded = s.forwarded ∨
        ∃ c bytes source now target p, e = .forward c bytes source now ∧
          t.forwarded = ⟨c, bytes, source, target⟩ :: s.forwarded ∧ s.pairings[c]? = some p ∧
          (p.first = some source ∧ p.second = some target ∨
            p.first = some target ∧ p.second = some source) ∧
          source ∈ p.presented ∧ target ∈ p.presented) := by
  have hs := paired_of_run hrun
  refine ⟨⟨fun c p hp => ?_, hs.indexed.back, hs.indexed.distinct, hs.room⟩, hs.slots,
    fun e t hstep => ?_⟩
  · obtain ⟨hchannel, hlow, hhigh⟩ := hs.channel c p hp
    exact ⟨hs.indexed.there c p hp, hchannel, hlow, hhigh, hs.token c p hp⟩
  · have hchange := change_of_step hs hstep
    refine ⟨fun c p hp => evolves_of_change hchange hp, ?_⟩
    cases hchange with
    | idle _ _ _ hforwarded => exact .inl hforwarded
    | cleared | allocated => exact .inl rfl
    | released channels => exact .inl (forwarded_releases s channels)
    | evolved _ _ _ _ _ _ _ _ _ _ _ _ hforwarded => exact .inl hforwarded
    | forwarded c bytes source now p target hp hacross =>
      have hslots := Pairing.across_spec hacross
      have hwf := hs.slots c p hp
      refine .inr ⟨c, bytes, source, now, target, p, rfl, rfl, hp, hslots, ?_⟩
      rcases hslots with ⟨hfirst, hsecond⟩ | ⟨hfirst, hsecond⟩
      · exact ⟨hwf.first _ hfirst, hwf.second _ hsecond⟩
      · exact ⟨hwf.second _ hsecond, hwf.first _ hfirst⟩

/-- A bind with a token, as a peer sends it. -/
def sampleBind (token : BitVec 64) : List UInt8 :=
  offlineHeader .relayBind (Endianness.bigEndian.bytes 8 token.toNat)

def samplePeer (host : UInt8) : Endpoint := ⟨.ipv4 #v[10, 0, 0, host], 4000⟩

/-- One pairing with both its peers. -/
def samplePair : List RelayEvent :=
  [.start, .allocate [0, 7] 0, .bind (sampleBind 7) (samplePeer 1) 1,
    .bind (sampleBind 7) (samplePeer 2) 2]

/-- What one of them sends is passed on to the other. -/
theorem relay_isolation_forwards :
    ∃ s t, (relay {}).exec {} samplePair = some s ∧
      (relay {}).step s (.forward 1 [5] (samplePeer 1) 3) = some t ∧
      ∃ target p, t.forwarded = [⟨1, [5], samplePeer 1, target⟩] ∧ s.pairings[1]? = some p ∧
        (p.first = some (samplePeer 1) ∧ p.second = some target ∨
          p.first = some target ∧ p.second = some (samplePeer 1)) ∧ target ∈ p.presented := by
  apply Machine.exists_exec_step
    (P := fun s t : Relay => s.forwarded.length = 0 ∧ t.forwarded.length = 1) (by decide +kernel)
  rintro s t hrun hstep ⟨hnone, hone⟩
  rcases ((relay_isolation hrun).2.2 _ t hstep).2 with hsame | hpassed
  · rw [hsame] at hone
    omega
  · obtain ⟨_, _, _, _, target, p, ⟨⟩, hforwarded, hp, hslots, -, htarget⟩ := hpassed
    rw [List.eq_nil_of_length_eq_zero hnone] at hforwarded
    exact ⟨target, p, hforwarded, hp, hslots, htarget⟩

/-! ## Allocation -/

/-- **`Allocate` ends.**  In every state a relay comes to, if there are channels for all
allocations: a usable token among those that are drawn is enough for it to return, and while there
is room it gives out a channel and a token that nobody has. -/
theorem allocate_ends {es : List RelayEvent} (hrun : (relay config).exec {} es = some s)
    (hchannels : config.maxAllocations ≤ kZDTMaxRelayChannel) {draws : List (BitVec 64)}
    (hdrawn : ∃ token ∈ draws, token ≠ 0 ∧ ¬s.channelsByToken.contains token) (now : Int) :
    ∃ result t, s.allocate config draws now = some (result, t) ∧
      (s.running = true → s.pairings.size < config.maxAllocations →
        ∃ c token, result = .success c token ∧ InRange c ∧ s.pairings.contains c = false ∧
          token ≠ 0 ∧ ¬s.channelsByToken.contains token) := by
  have hs := paired_of_run hrun
  unfold allocate
  split
  · next hstopped =>
    refine ⟨_, _, rfl, fun hrunning => ?_⟩
    simp [hrunning] at hstopped
  · split
    · next hfull => exact ⟨_, _, rfl, fun _ hroom => absurd hfull (not_le.2 hroom)⟩
    · next hroom =>
      have hwalk := freeChannel_isSome s hs.next (by omega)
      have hfind : (draws.find? fun token =>
          decide (token ≠ 0 ∧ ¬s.channelsByToken.contains token)).isSome = true := by
        rw [List.find?_isSome]
        simpa using hdrawn
      obtain ⟨c, hc⟩ := Option.isSome_iff_exists.1 hwalk
      obtain ⟨token, htoken⟩ := Option.isSome_iff_exists.1 hfind
      obtain ⟨hfree, hrange⟩ := freeChannel_spec hc hs.next
      rw [hc, htoken]
      refine ⟨_, _, rfl, fun _ _ => ⟨c, token, rfl, hrange, hfree, ?_⟩⟩
      simpa using List.find?_some htoken

/-- Beside a pairing: a token that is zero, one that is taken, and one that is neither. -/
theorem allocate_ends_second :
    ∃ s, (relay {}).exec {} samplePair = some s ∧
      ∃ result t, s.allocate {} [0, 7, 9] 3 = some (result, t) ∧
        ∃ c token, result = .success c token ∧ InRange c ∧ s.pairings.contains c = false ∧
          ¬s.channelsByToken.contains token := by
  apply Machine.exists_exec (P := fun s : Relay => s.running = true ∧
    s.pairings.size < ({} : RelayConfig).maxAllocations ∧ ¬s.channelsByToken.contains 9)
    (by decide +kernel)
  rintro s hrun ⟨hrunning, hsize, hfree⟩
  have hdrawn : ∃ token ∈ [0, 7, 9], token ≠ 0 ∧ ¬s.channelsByToken.contains token :=
    ⟨9, by simp, by simp, hfree⟩
  obtain ⟨result, t, h, hroom⟩ := allocate_ends hrun (by decide) hdrawn 3
  obtain ⟨c, token, hresult, hrange, hchannel, -, htoken⟩ := hroom hrunning hsize
  exact ⟨result, t, h, c, token, hresult, hrange, hchannel, htoken⟩

end Relay

end P2p
end Znet

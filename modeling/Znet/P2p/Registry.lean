import Znet.P2p.Rendezvous

/-!
# Who is registered

Names are given and cleared by the pairing thread, while clients come and leave on other threads.

* `Roster` — in every run a registered client has the name it is registered under, and a name to
  clear is that of a client that has left.
* `registry_hygiene` — **who has left is not registered** once the queues are empty, if nobody
  leaves while waiting for a welcome (`settled`).
-/

namespace Znet
namespace P2p
namespace Rendezvous

variable {config : RendezvousConfig} {s t : Rendezvous} {session i : Nat} {data : ClientData}
  {draws : Nat → Name} {punchId : BitVec 64} {token : Option (BitVec 64)} {e : RendezvousEvent}
  {batch : Batch} {es : List RendezvousEvent}

/-! ## Names and the registry -/

/-- Who has a name and has not left is registered under it; a name to clear is one whose client
has left, and is cleared once. -/
structure Roster (s : Rendezvous) : Prop where
  known : ∀ i, i ∈ s.disconnected → s.nameOf i ≠ none
  named : ∀ (name : Name) (i : Nat), s.registry[name]? = some i →
    s.nameOf i = some name ∧ name ≠ []
  here : ∀ (i : Nat) (name : Name), s.nameOf i = some name → name ≠ [] → i ∉ s.disconnected →
    s.registry[name]? = some i
  clearing : ∀ name ∈ s.clearQueue ++ s.batch.clear,
    ∃ i ∈ s.disconnected, s.registry[name]? = some i
  once : (s.clearQueue ++ s.batch.clear).Nodup

theorem roster_empty : Roster {} := by
  refine ⟨fun i hi => ?_, fun name i h => ?_, fun i name h => ?_, fun name h => ?_, List.nodup_nil⟩
  · cases hi
  · simp at h
  · simp [nameOf] at h
  · cases h

section

variable (hs : Roster s)
include hs

/-- Nothing of it differs. -/
theorem Roster.keep (hnames : ∀ i, t.nameOf i = s.nameOf i)
    (hregistry : t.registry = s.registry) (hdisconnected : t.disconnected = s.disconnected)
    (hclear : t.clearQueue ++ t.batch.clear = s.clearQueue ++ s.batch.clear) : Roster t := by
  refine ⟨fun i hi => ?_, fun name i hreg => ?_, fun i name hname hne hhere => ?_,
    fun name hname => ?_, ?_⟩
  · rw [hdisconnected] at hi
    rw [hnames]
    exact hs.known i hi
  · rw [hregistry] at hreg
    rw [hnames]
    exact hs.named name i hreg
  · rw [hnames] at hname
    rw [hdisconnected] at hhere
    rw [hregistry]
    exact hs.here i name hname hne hhere
  · rw [hclear] at hname
    rw [hdisconnected, hregistry]
    exact hs.clearing name hname
  · rw [hclear]
    exact hs.once

theorem Roster.frame (h : Frame s t) : Roster t :=
  hs.keep h.names h.registry h.disconnected (by rw [h.clearQueue, h.batch])

theorem Roster.onConnect (hfresh : s.clients[session]? = none)
    (observed : InetAddress) : Roster (s.onConnect session observed) := by
  have hnone : s.nameOf session = none := by
    rw [nameOf, hfresh, Option.map_none]
  have hother : ∀ i, session ≠ i → (s.onConnect session observed).nameOf i = s.nameOf i := by
    intro i hi
    simp only [nameOf, Rendezvous.onConnect]
    rw [Keyed.getElem?_insert_of_ne hi]
  refine ⟨fun i hi => ?_, fun name i hreg => ?_, fun i name hname hne hhere => ?_, hs.clearing,
    hs.once⟩
  · have hne : session ≠ i := by
      rintro rfl
      exact hs.known _ hi hnone
    rw [hother i hne]
    exact hs.known i hi
  · have hne : session ≠ i := by
      rintro rfl
      rw [(hs.named name _ hreg).1] at hnone
      cases hnone
    rw [hother i hne]
    exact hs.named name i hreg
  · by_cases hi : session = i
    · subst hi
      have hempty : (s.onConnect session observed).nameOf session = some [] := by
        simp [nameOf, Rendezvous.onConnect]
      rw [hempty, Option.some.injEq] at hname
      exact absurd hname.symm hne
    · rw [hother i hi] at hname
      exact hs.here i name hname hne hhere

theorem Roster.onDisconnect (hhere : session ∉ s.disconnected)
    (hdata : s.clients[session]? = some data) :
    Roster (s.onDisconnect session data) := by
  have hname : s.nameOf session = some data.peerName := nameOf_of_some hdata
  have hknown : ∀ i, i ∈ session :: s.disconnected → s.nameOf i ≠ none := by
    intro i hi
    rcases List.mem_cons.1 hi with rfl | hi
    · rw [hname]
      exact Option.some_ne_none _
    · exact hs.known i hi
  have hstays : ∀ (i : Nat) (name : Name), s.nameOf i = some name → name ≠ [] →
      i ∉ session :: s.disconnected → s.registry[name]? = some i := by
    intro i name hname hne hi
    exact hs.here i name hname hne fun h => hi (List.mem_cons_of_mem _ h)
  have hclearing : ∀ name ∈ s.clearQueue ++ s.batch.clear,
      ∃ i ∈ session :: s.disconnected, s.registry[name]? = some i := by
    intro name hclear
    obtain ⟨i, hi, hreg⟩ := hs.clearing name hclear
    exact ⟨i, List.mem_cons_of_mem _ hi, hreg⟩
  unfold Rendezvous.onDisconnect
  split
  · next hne =>
    have hreg := hs.here session data.peerName hname hne hhere
    refine ⟨hknown, hs.named, hstays, fun name hclear => ?_, List.nodup_cons.2 ⟨?_, hs.once⟩⟩
    · rcases List.mem_cons.1 hclear with rfl | hclear
      · exact ⟨session, List.mem_cons_self, hreg⟩
      · exact hclearing name hclear
    · -- what is to be cleared is of clients that have left, and this one had not
      intro hclear
      obtain ⟨i, hi, hreg'⟩ := hs.clearing _ hclear
      rw [hreg, Option.some.injEq] at hreg'
      exact hhere (hreg' ▸ hi)
  · exact ⟨hknown, hs.named, hstays, hclearing, hs.once⟩

theorem Roster.swap (hbatch : s.batch = {}) : Roster s.swap := by
  refine hs.keep (fun _ => rfl) rfl rfl ?_
  rw [hbatch]
  exact (List.append_nil _).symm

theorem Roster.clear {name : Name} {clear : List Name} {welcome : List Nat}
    {connect : List (Nat × Name)} (hbatch : s.batch = ⟨name :: clear, welcome, connect⟩) :
    Roster { s with registry := s.registry.erase name, batch := ⟨clear, welcome, connect⟩ } := by
  have hclearing := hs.clearing
  have honce := hs.once
  rw [hbatch] at hclearing honce
  have hmiddle : (name :: (s.clearQueue ++ clear)).Nodup :=
    List.perm_middle.nodup_iff.1 honce
  obtain ⟨left, hleft, hreg⟩ := hclearing name (by simp)
  refine ⟨hs.known, fun name' i hreg' => ?_, fun i name' hname hne hhere => ?_,
    fun name' hname => ?_, (List.nodup_cons.1 hmiddle).2⟩
  · exact hs.named name' i (Keyed.getElem?_erase_some hreg').2
  · have hreg' := hs.here i name' hname hne hhere
    refine (Keyed.getElem?_erase_of_ne ?_).trans hreg'
    rintro rfl
    rw [hreg, Option.some.injEq] at hreg'
    exact hhere (hreg' ▸ hleft)
  · obtain ⟨i, hi, hreg'⟩ :=
      hclearing name' (List.perm_middle.mem_iff.2 (List.mem_cons_of_mem _ hname))
    refine ⟨i, hi, (Keyed.getElem?_erase_of_ne ?_).trans hreg'⟩
    rintro rfl
    exact (List.nodup_cons.1 hmiddle).1 hname

theorem Roster.name {name : Name} (h : Named s session name t) : Roster t := by
  have hother : ∀ {name' : Name} {i : Nat}, s.registry[name']? = some i →
      t.registry[name']? = some i := by
    intro name' i hreg
    rw [h.registry]
    refine (Keyed.getElem?_insert_of_ne ?_ _).trans hreg
    rintro rfl
    rw [h.free] at hreg
    cases hreg
  refine ⟨fun i hi => ?_, fun name' i hreg => ?_, fun i name' hname hne hhere => ?_,
    fun name' hname => ?_, ?_⟩
  · rw [h.disconnected] at hi
    rw [h.names]
    split
    · exact Option.some_ne_none _
    · exact hs.known i hi
  · rw [h.registry] at hreg
    rw [h.names]
    rcases Keyed.getElem?_insert_cases hreg with ⟨rfl, rfl⟩ | ⟨-, hreg⟩
    · exact ⟨if_pos rfl, h.nonempty⟩
    · obtain ⟨hregistered, hne⟩ := hs.named name' i hreg
      refine ⟨?_, hne⟩
      rw [if_neg, hregistered]
      rintro rfl
      rw [h.unnamed, Option.some.injEq] at hregistered
      exact hne hregistered.symm
  · rw [h.names] at hname
    rw [h.disconnected] at hhere
    split at hname
    · next hi =>
      subst hi
      cases hname
      rw [h.registry, Std.ExtTreeMap.getElem?_insert_self]
    · exact hother (hs.here i name' hname hne hhere)
  · rw [h.clearQueue, h.batch] at hname
    obtain ⟨i, hi, hreg⟩ := hs.clearing name' hname
    refine ⟨i, ?_, hother hreg⟩
    rw [h.disconnected]
    exact hi
  · rw [h.clearQueue, h.batch]
    exact hs.once

/-- What the pairing thread has taken gets shorter, with no name to clear dropped. -/
theorem Roster.pop {batch : Batch} (hclear : s.batch.clear = batch.clear) :
    Roster { s with batch } := by
  refine hs.keep (fun _ => rfl) rfl rfl ?_
  rw [hclear]

theorem roster_of_step (hstep : (rendezvous config).step s e = some t) : Roster t := by
  cases effect_of_step hstep with
  | connected session observed hfresh => exact hs.onConnect hfresh observed
  | departed session data hhere hdata => exact hs.onDisconnect hhere hdata
  | swapped hbatch => exact hs.swap hbatch
  | cleared hbatch => exact hs.clear hbatch
  | named hbatch hnamed => exact (hs.pop (by rw [hbatch])).name hnamed
  | passed hclear _ _ hframe => exact (hs.pop hclear).frame hframe

end

/-! ## Who has left -/

/-- If a registered client has left then its name is to be cleared; who waits for a welcome has not
left. -/
structure Tidy (s : Rendezvous) : Prop where
  waiting : ∀ i, i ∈ s.welcomeQueue ∨ i ∈ s.batch.welcome → i ∉ s.disconnected
  leaving : ∀ (name : Name) (i : Nat), s.registry[name]? = some i → i ∈ s.disconnected →
    name ∈ s.clearQueue ∨ name ∈ s.batch.clear

theorem tidy_empty : Tidy {} := by
  refine ⟨fun i _ hi => ?_, fun name i h => ?_⟩
  · cases hi
  · simp at h

/-- A client leaves only when it is not waiting for its welcome. -/
def settled (s : Rendezvous) : RendezvousEvent → Bool
  | .disconnect session => decide (session ∉ s.welcomeQueue ∧ session ∉ s.batch.welcome)
  | _ => true

section

variable (hs : Tidy s)

include hs

theorem Tidy.frame (h : Frame s t) : Tidy t := by
  refine ⟨fun i hi => ?_, fun name i hreg hi => ?_⟩
  · rw [h.welcomeQueue, h.batch] at hi
    rw [h.disconnected]
    exact hs.waiting i hi
  · rw [h.registry] at hreg
    rw [h.disconnected] at hi
    rw [h.clearQueue, h.batch]
    exact hs.leaving name i hreg hi

theorem Tidy.onConnect (hroster : Roster s) (hfresh : s.clients[session]? = none)
    (observed : InetAddress) : Tidy (s.onConnect session observed) := by
  refine ⟨fun i hi hleft => ?_, hs.leaving⟩
  rcases hi with hi | hi
  · rcases List.mem_cons.1 hi with rfl | hi
    · -- who has left had connected
      refine hroster.known i hleft ?_
      rw [nameOf, hfresh, Option.map_none]
    · exact hs.waiting i (.inl hi) hleft
  · exact hs.waiting i (.inr hi) hleft

theorem Tidy.onDisconnect (hroster : Roster s) (hdata : s.clients[session]? = some data)
    (hsettled : settled s (.disconnect session) = true) :
    Tidy (s.onDisconnect session data) := by
  obtain ⟨hqueue, hbatch⟩ := of_decide_eq_true hsettled
  have hname : s.nameOf session = some data.peerName := nameOf_of_some hdata
  have hwaiting : ∀ i, i ∈ s.welcomeQueue ∨ i ∈ s.batch.welcome →
      i ∉ session :: s.disconnected := by
    intro i hi hleft
    rcases List.mem_cons.1 hleft with rfl | hleft
    · exact hi.elim hqueue hbatch
    · exact hs.waiting i hi hleft
  unfold Rendezvous.onDisconnect
  split
  · refine ⟨hwaiting, fun name i hreg hi => ?_⟩
    rcases List.mem_cons.1 hi with rfl | hi
    · obtain ⟨hregistered, -⟩ := hroster.named name i hreg
      rw [hname, Option.some.injEq] at hregistered
      exact .inl (hregistered ▸ List.mem_cons_self)
    · exact (hs.leaving name i hreg hi).imp_left (List.mem_cons_of_mem _)
  · next hunnamed =>
    rw [not_not] at hunnamed
    refine ⟨hwaiting, fun name i hreg hi => ?_⟩
    rcases List.mem_cons.1 hi with rfl | hi
    · -- a registered client has a name, and this one has none
      obtain ⟨hregistered, hne⟩ := hroster.named name i hreg
      rw [hname, hunnamed, Option.some.injEq] at hregistered
      exact absurd hregistered.symm hne
    · exact hs.leaving name i hreg hi

theorem Tidy.swap (hbatch : s.batch = {}) : Tidy s.swap := by
  refine ⟨fun i hi => ?_, fun name i hreg hi => ?_⟩
  · rcases hi with hi | hi
    · cases hi
    · exact hs.waiting i (.inl hi)
  · have hclear := hs.leaving name i hreg hi
    rw [hbatch] at hclear
    rcases hclear with hclear | hclear
    · exact .inr hclear
    · cases hclear

theorem Tidy.clear {name : Name} {clear : List Name} {welcome : List Nat}
    {connect : List (Nat × Name)} (hbatch : s.batch = ⟨name :: clear, welcome, connect⟩) :
    Tidy { s with registry := s.registry.erase name, batch := ⟨clear, welcome, connect⟩ } := by
  refine ⟨fun i hi => ?_, fun name' i hreg hi => ?_⟩
  · refine hs.waiting i ?_
    rw [hbatch]
    exact hi
  · obtain ⟨hne, hreg⟩ := Keyed.getElem?_erase_some hreg
    have hclear := hs.leaving name' i hreg hi
    rw [hbatch] at hclear
    refine hclear.imp_right fun hmem => ?_
    exact (List.mem_cons.1 hmem).resolve_left fun h => hne h.symm

/-- What the pairing thread has taken gets shorter, with no name to clear dropped. -/
theorem Tidy.pop (hclear : s.batch.clear = batch.clear)
    (hwelcome : batch.welcome ⊆ s.batch.welcome) : Tidy { s with batch } := by
  refine ⟨fun i hi => hs.waiting i (hi.imp_right (hwelcome ·)), ?_⟩
  intro name i hreg hi
  rw [← hclear]
  exact hs.leaving name i hreg hi

theorem Tidy.name {name : Name} (hhere : session ∉ s.disconnected)
    (h : Named s session name t) : Tidy t := by
  refine ⟨fun i hi => ?_, fun name' i hreg hi => ?_⟩
  · rw [h.welcomeQueue, h.batch] at hi
    rw [h.disconnected]
    exact hs.waiting i hi
  · rw [h.registry] at hreg
    rw [h.disconnected] at hi
    rw [h.clearQueue, h.batch]
    rcases Keyed.getElem?_insert_cases hreg with ⟨rfl, rfl⟩ | ⟨-, hreg⟩
    · exact absurd hi hhere
    · exact hs.leaving name' i hreg hi

theorem tidy_of_step (hroster : Roster s) (hsettled : settled s e = true)
    (hstep : (rendezvous config).step s e = some t) : Tidy t := by
  cases effect_of_step hstep with
  | connected session observed hfresh => exact hs.onConnect hroster hfresh observed
  | departed session data _ hdata => exact hs.onDisconnect hroster hdata hsettled
  | swapped hbatch => exact hs.swap hbatch
  | cleared hbatch => exact hs.clear hbatch
  | @named _ session welcome connect _ _ hbatch hnamed =>
    have hhere : session ∉ s.disconnected := by
      refine hs.waiting session (.inr ?_)
      rw [hbatch]
      exact List.mem_cons_self
    have hpop : Tidy { s with batch := ⟨[], welcome, connect⟩ } := by
      refine hs.pop (by rw [hbatch]) ?_
      rw [hbatch]
      exact List.subset_cons_self _ _
    exact hpop.name hhere hnamed
  | passed hclear hwelcome _ hframe => exact (hs.pop hclear hwelcome).frame hframe

end

theorem tidy_of_run
    (hrun : GuardedRun (rendezvous config) (fun s e => settled s e = true) {} es s) :
    Tidy s ∧ Roster s := by
  refine hrun.invariant (I := fun s => Tidy s ∧ Roster s) ?_ ⟨tidy_empty, roster_empty⟩
  rintro s e t ⟨hs, hroster⟩ hsettled hstep
  exact ⟨tidy_of_step hs hroster hsettled hstep, roster_of_step hroster hstep⟩

/-! ## After a client has left -/

/-- What was sent to a session. -/
def sentTo (s : Rendezvous) (session : Nat) : List (Nat × Outgoing) :=
  s.sent.filter fun packet => decide (packet.1 = session)

theorem sentTo_send_of_ne (h : session ≠ i) (packet : Outgoing) :
    (s.send session packet).sentTo i = s.sentTo i := by
  simp [sentTo, send, h]

/-- A session has left: it is not registered, and no ask of its own is left. -/
structure Gone (i : Nat) (s : Rendezvous) : Prop where
  left : i ∈ s.disconnected
  unregistered : ∀ name : Name, s.registry[name]? ≠ some i
  queued : ∀ ask ∈ s.connectPeerQueue, ask.1 ≠ i
  taken : ∀ ask ∈ s.batch.connect, ask.1 ≠ i

/-- A step that sends nothing and touches neither the registry nor the asks. -/
theorem Gone.keep (hgone : Gone i s) (hleft : i ∈ t.disconnected)
    (hregistry : t.registry = s.registry) (hqueue : t.connectPeerQueue = s.connectPeerQueue)
    (hbatch : t.batch = s.batch) (hsent : t.sent = s.sent) :
    Gone i t ∧ t.sentTo i = s.sentTo i := by
  refine ⟨⟨hleft, ?_, ?_, ?_⟩, ?_⟩
  · rw [hregistry]
    exact hgone.unregistered
  · rw [hqueue]
    exact hgone.queued
  · rw [hbatch]
    exact hgone.taken
  · rw [sentTo, hsent, sentTo]

theorem Gone.frame (hgone : Gone i s) (h : Frame s t)
    (hqueue : t.connectPeerQueue = s.connectPeerQueue) : Gone i t := by
  refine ⟨?_, ?_, ?_, ?_⟩
  · rw [h.disconnected]
    exact hgone.left
  · rw [h.registry]
    exact hgone.unregistered
  · rw [hqueue]
    exact hgone.queued
  · rw [h.batch]
    exact hgone.taken

theorem Gone.name {name : Name} (hgone : Gone i s) (hne : session ≠ i) (h : Named s session name t)
    (hqueue : t.connectPeerQueue = s.connectPeerQueue) :
    Gone i t := by
  refine ⟨?_, fun name' hreg => ?_, ?_, ?_⟩
  · rw [h.disconnected]
    exact hgone.left
  · rw [h.registry] at hreg
    rcases Keyed.getElem?_insert_cases hreg with ⟨-, hsame⟩ | ⟨-, hreg⟩
    · exact hne hsame
    · exact hgone.unregistered name' hreg
  · rw [hqueue]
    exact hgone.queued
  · rw [h.batch]
    exact hgone.taken

theorem Gone.pop (hgone : Gone i s) (hconnect : batch.connect ⊆ s.batch.connect) :
    Gone i { s with batch } :=
  { hgone with taken := fun ask hask => hgone.taken ask (hconnect hask) }

theorem sentTo_welcome (config : RendezvousConfig) (s : Rendezvous) (h : session ≠ i)
    (draws : Nat → Name) :
    (welcome config s session draws).sentTo i = s.sentTo i ∧
      (welcome config s session draws).connectPeerQueue = s.connectPeerQueue := by
  rw [welcome]
  split
  · exact ⟨rfl, rfl⟩
  · split
    · exact ⟨rfl, rfl⟩
    · dsimp only
      split
      · exact ⟨rfl, rfl⟩
      · exact ⟨sentTo_send_of_ne h _, rfl⟩

/-- Both offers of a pair go to its two clients, so neither of them is one that has left. -/
theorem sentTo_tryPair (config : RendezvousConfig) (s : Rendezvous) (hsession : session ≠ i)
    (hother : ∀ name : Name, s.registry[name]? ≠ some i) (target : Name) (punchId : BitVec 64)
    (token : Option (BitVec 64)) :
    (tryPair config s session target punchId token).sentTo i = s.sentTo i ∧
      (tryPair config s session target punchId token).connectPeerQueue = s.connectPeerQueue := by
  generalize h : tryPair config s session target punchId token = t
  have hne : ∀ other, s.registry[target]? = some other → other ≠ i := by
    rintro other hreg rfl
    exact hother target hreg
  obtain rfl | ⟨data, -, -, rfl⟩ | ⟨data, other, -, hreg, rfl⟩ |
    ⟨data, other, otherData, -, -, -, hreg, -, -, rfl⟩ := tryPair_cases h
  · exact ⟨rfl, rfl⟩
  · exact ⟨sentTo_send_of_ne hsession _, rfl⟩
  · exact ⟨sentTo_send_of_ne (hne other hreg) _, rfl⟩
  · exact ⟨(sentTo_send_of_ne (hne other hreg) _).trans (sentTo_send_of_ne hsession _), rfl⟩

theorem gone_of_step (hs : Tidy s) (hgone : Gone i s)
    (hstep : (rendezvous config).step s e = some t) : Gone i t ∧ t.sentTo i = s.sentTo i := by
  have hpresent : ∀ session, session ∉ s.disconnected → session ≠ i := by
    rintro session hhere rfl
    exact hhere hgone.left
  cases step_cases hstep with
  | connected session observed _ =>
    exact hgone.keep hgone.left rfl rfl rfl rfl
  | departed session data _ _ =>
    unfold Rendezvous.onDisconnect
    split <;> exact hgone.keep (List.mem_cons_of_mem _ hgone.left) rfl rfl rfl rfl
  | gathered session data candidates punchPort now _ _ =>
    unfold Rendezvous.onGathering
    dsimp only
    split <;> exact hgone.keep hgone.left rfl rfl rfl rfl
  | asked session data target now hhere _ =>
    unfold Rendezvous.onConnectPeer
    dsimp only
    split
    · exact hgone.keep hgone.left rfl rfl rfl rfl
    · split
      · exact hgone.keep hgone.left rfl rfl rfl rfl
      · refine ⟨{ hgone with queued := fun ask hask => ?_ }, rfl⟩
        rcases List.mem_cons.1 hask with rfl | hask
        · exact hpresent session hhere
        · exact hgone.queued ask hask
  | swapped _ =>
    refine ⟨⟨hgone.left, hgone.unregistered, fun ask hask => ?_, hgone.queued⟩, rfl⟩
    cases hask
  | cleared _ _ _ name clear welcome connect hbatch =>
    have htaken := hgone.taken
    rw [hbatch] at htaken
    refine ⟨⟨hgone.left, fun name' hreg => ?_, hgone.queued, htaken⟩, rfl⟩
    exact hgone.unregistered name' (Keyed.getElem?_erase_some hreg).2
  | welcomed draws _ _ session welcome connect hbatch =>
    have hne : session ≠ i := by
      refine hpresent session (hs.waiting session (.inr ?_))
      rw [hbatch]
      exact List.mem_cons_self
    have hpop : Gone i { s with batch := ⟨[], welcome, connect⟩ } := by
      refine hgone.pop ?_
      rw [hbatch]
      exact List.Subset.refl _
    obtain ⟨hsent, hqueue⟩ :=
      sentTo_welcome config { s with batch := ⟨[], welcome, connect⟩ } hne draws
    refine ⟨?_, hsent⟩
    rcases welcome_cases config { s with batch := ⟨[], welcome, connect⟩ } session draws with
      hframe | ⟨name, hnamed⟩
    · exact hpop.frame hframe hqueue
    · exact hpop.name hne hnamed hqueue
  | tried _ punchId token session target connect hbatch =>
    have hne : session ≠ i := by
      refine hgone.taken (session, target) ?_
      rw [hbatch]
      exact List.mem_cons_self
    have hpop : Gone i { s with batch := ⟨[], [], connect⟩ } := by
      refine hgone.pop ?_
      rw [hbatch]
      exact List.subset_cons_self _ _
    obtain ⟨hsent, hqueue⟩ := sentTo_tryPair config { s with batch := ⟨[], [], connect⟩ } hne
      hgone.unregistered target punchId token
    exact ⟨hpop.frame frame_tryPair hqueue, hsent⟩
  | stopped => exact hgone.keep hgone.left rfl rfl rfl rfl

/-- What holds of a session that has left, along a run. -/
theorem gone_of_run (hs : Tidy s ∧ Roster s) (hgone : Gone i s)
    (hrun : GuardedRun (rendezvous config) (fun s e => settled s e = true) s es t) :
    Gone i t ∧ t.sentTo i = s.sentTo i := by
  have hinv : (Tidy t ∧ Roster t) ∧ Gone i t ∧ t.sentTo i = s.sentTo i := by
    refine hrun.invariant (I := fun u => (Tidy u ∧ Roster u) ∧ Gone i u ∧ u.sentTo i = s.sentTo i)
      ?_ ⟨hs, hgone, rfl⟩
    rintro u e v ⟨⟨hu, hroster⟩, hgone, hsent⟩ hsettled hstep
    obtain ⟨hgone', hsent'⟩ := gone_of_step hu hgone hstep
    exact ⟨⟨tidy_of_step hu hroster hsettled hstep, roster_of_step hroster hstep⟩, hgone',
      hsent'.trans hsent⟩
  exact hinv.2

/-- **Who has left is not registered.**  If clients leave only when they are not waiting for
their welcome, then whenever no ask and no name to clear is queued and the pairing thread has
nothing in hand, no registered session has left; and from there on who has left is neither
registered nor sent anything, in particular no offer. -/
theorem registry_hygiene {es : List RendezvousEvent}
    (hrun : GuardedRun (rendezvous config) (fun s e => settled s e = true) {} es s)
    (hconnect : s.connectPeerQueue = []) (hclear : s.clearQueue = []) (hbatch : s.batch = {}) :
    (∀ (name : Name) (i : Nat), s.registry[name]? = some i → i ∉ s.disconnected) ∧
    ∀ fs t, GuardedRun (rendezvous config) (fun s e => settled s e = true) s fs t →
      ∀ i ∈ s.disconnected,
        (∀ name : Name, t.registry[name]? ≠ some i) ∧ t.sentTo i = s.sentTo i := by
  have hs := tidy_of_run hrun
  have hregistered : ∀ (name : Name) (i : Nat), s.registry[name]? = some i →
      i ∉ s.disconnected := by
    intro name i hreg hi
    have hname := hs.1.leaving name i hreg hi
    rw [hclear, hbatch] at hname
    rcases hname with hname | hname <;> cases hname
  refine ⟨hregistered, fun fs t hlater i hi => ?_⟩
  have hgone : Gone i s := by
    refine ⟨hi, fun name hreg => hregistered name i hreg hi, ?_, ?_⟩
    · rw [hconnect]
      exact fun _ hask => by cases hask
    · rw [hbatch]
      exact fun _ hask => by cases hask
  obtain ⟨hgone', hsent⟩ := gone_of_run hs hgone hlater
  exact ⟨hgone'.unregistered, hsent⟩

/-- Where the clients of the runs below are. -/
def sampleObserved : InetAddress := .inet ⟨.ipv4 #v[192, 0, 2, 7], 4000⟩

/-- A client is named, leaves, and is cleared. -/
theorem registry_hygiene_departure :
    ∃ s, GuardedRun (rendezvous {}) (fun s e => settled s e = true) {}
        [.connect 0 sampleObserved, .swap, .work (fun _ => [65]) 0 none, .disconnect 0, .swap,
          .work (fun _ => []) 0 none] s ∧
      s.disconnected = [0] ∧ ∀ name : Name, s.registry[name]? ≠ some 0 := by
  apply GuardedRun.exists_run (P := fun s => s.connectPeerQueue = [] ∧ s.clearQueue = [] ∧
    s.batch = {} ∧ s.disconnected = [0]) (by decide +kernel)
  rintro s hrun ⟨hconnect, hclear, hbatch, hleft⟩
  obtain ⟨hregistered, -⟩ := registry_hygiene hrun hconnect hclear hbatch
  refine ⟨hleft, fun name hreg => hregistered name 0 hreg ?_⟩
  rw [hleft]
  exact List.mem_cons_self

/-- A client leaves before the pairing thread names it: nothing is queued to clear, so it is
registered after it has left, and stays. -/
theorem departed_client_registered :
    ∃ s, (rendezvous {}).exec {}
        [.connect 0 sampleObserved, .disconnect 0, .swap, .work (fun _ => [65]) 0 none] = some s ∧
      s.welcomeQueue = [] ∧ s.connectPeerQueue = [] ∧ s.clearQueue = [] ∧ s.batch = {} ∧
      s.registry[([65] : Name)]? = some 0 ∧ 0 ∈ s.disconnected :=
  Machine.exists_exec (by decide +kernel) fun _ _ => id

end Rendezvous
end P2p
end Znet

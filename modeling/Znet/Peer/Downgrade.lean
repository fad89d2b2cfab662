import Znet.Peer.Session

/-!
# An acceptor that insists on encryption

A session that accepts, with a policy that asks for encryption, against a peer
that sends anything at all, in any order.  `HandleDecrypt` refuses a plaintext
message once the keys are there; but it decides once for a message, and a message
carries any number of frames.

* `no_downgrade` — **the acceptor becomes ready only through a ready packet that
  was decrypted**, in every run of unbundled messages; in every run it drops plaintext from
  the moment it has keys and encrypts what it sends from its own ready packet on.
-/

namespace Znet
namespace Peer

open PeerSession

variable {Key : Type} (lib : Libraries Key)

/-! ## The invariant -/

/-- The state of an acceptor that insists on encryption. -/
structure Insists (s : PeerSession Key) : Prop where
  acceptor : s.isInitiator = false
  want : s.wantEncryption = true
  negotiated : s.negotiated = true → s.keyFilled = true
  enabled : s.enableEncryption = true → s.keyFilled = true
  sentReady : s.sentReady = true → s.enableEncryption = true
  encKey : ∀ key, s.encKey = some key → s.keyFilled = true ∧ key = s.txKey
  decKey : ∀ key, s.decKey = some key → s.keyFilled = true ∧ key = s.rxKey

/-- What every move of such a session does. -/
structure Onward (s s' : PeerSession Key) : Prop where
  insists : Insists s'
  keys : s.keyFilled = true → s'.keyFilled = true ∧ s'.txKey = s.txKey ∧ s'.rxKey = s.rxKey
  sentReady : s.sentReady = true → s'.sentReady = true
  readies : s.readies <+: s'.readies

/-- And what every move but one does: it leaves `is_ready_` as it is. -/
structure Unready (s s' : PeerSession Key) : Prop extends Onward s s' where
  isReady : s'.isReady = s.isReady

variable {s s' s'' : PeerSession Key} {origin : Option (List UInt8)}

theorem Onward.trans (h : Onward s s') (h' : Onward s' s'') :
    Onward s s'' where
  insists := h'.insists
  keys hkey := by
    obtain ⟨hkey', htx, hrx⟩ := h.keys hkey
    obtain ⟨hkey'', htx', hrx'⟩ := h'.keys hkey'
    exact ⟨hkey'', htx'.trans htx, hrx'.trans hrx⟩
  sentReady hsent := h'.sentReady (h.sentReady hsent)
  readies := h.readies.trans h'.readies

theorem Unready.trans (h : Unready s s') (h' : Unready s' s'') :
    Unready s s'' :=
  { h.toOnward.trans h'.toOnward with isReady := h'.isReady.trans h.isReady }

section

variable (hs : Insists s)
include hs

theorem Unready.refl : Unready s s :=
  ⟨⟨hs, fun hkey => ⟨hkey, rfl, rfl⟩, id, List.prefix_rfl⟩, rfl⟩

/-- A move outside the fields the invariant reads. -/
theorem Insists.same (h : s' = { s with
      isClosed := s'.isClosed, handler := s'.handler, outCompression := s'.outCompression,
      negotiatedCompression := s'.negotiatedCompression, invalidFrames := s'.invalidFrames,
      peerPkey := s'.peerPkey, sentHandshake := s'.sentHandshake,
      rxReplay := s'.rxReplay }) : Unready s s' := by
  rw [h]
  exact ⟨⟨{ hs with }, fun hkey => ⟨hkey, rfl, rfl⟩, id, List.prefix_rfl⟩, rfl⟩

/-! ## Sending -/

theorem Insists.sends (h : Sends s s') : Unready s s' := by
  obtain ⟨counters, nonces, sent, encKey, rfl, hkey⟩ := h
  refine ⟨⟨{ hs with encKey := fun key hsome => ?_ }, fun hfilled => ⟨hfilled, rfl, rfl⟩, id,
    List.prefix_rfl⟩, rfl⟩
  rcases hkey with rfl | ⟨henabled, rfl⟩
  · exact hs.encKey key hsome
  · cases hsome
    refine ⟨hs.enabled henabled, ?_⟩
    cases hold : s.encKey with
    | none => rfl
    | some old => exact (hs.encKey old hold).2

theorem Insists.sendHandshake : Unready s (s.sendHandshake lib) := by
  have hsent := hs.sends (sendImmediate_sends lib s (.handshake
    { pubKey := if s.isInitiator || s.wantEncryption then s.pubKey.bind lib.cloneKey else none
      encryption := s.wantEncryption
      compression := s.negotiatedCompression }))
  exact hsent.trans (hsent.insists.same rfl)

/-- A ready packet goes out only with keys, and so encrypted. -/
theorem Insists.sendReady (hkey : s.keyFilled = true) : Unready s (s.sendReady lib) := by
  have harm : Unready s s.arm :=
    ⟨⟨{ hs with enabled := fun _ => hkey, sentReady := fun _ => hkey },
      fun hkey => ⟨hkey, rfl, rfl⟩, id, List.prefix_rfl⟩, rfl⟩
  have hsends := sendImmediate_sends lib s.arm (.connectionReady kReadyMagic)
  have hsent := harm.insists.sends hsends
  have henabled : (s.arm.sendImmediate lib (.connectionReady kReadyMagic)).enableEncryption =
      true := by
    obtain ⟨_, _, _, _, heq, -⟩ := hsends
    rw [heq]
    exact hkey
  exact (harm.trans hsent).trans ⟨⟨{ hsent.insists with sentReady := fun _ => henabled },
    fun hkey => ⟨hkey, rfl, rfl⟩, fun _ => rfl, List.prefix_rfl⟩, rfl⟩

theorem Insists.answerHandshake (hkey : s.keyFilled = true) :
    Unready s (s.answerHandshake lib) := by
  unfold PeerSession.answerHandshake
  split
  · exact hs.sendHandshake lib
  · split
    · exact hs.sendReady lib hkey
    · exact .refl hs

/-! ## The handshake packet -/

/-- Without keys there is no keyed cipher yet. -/
theorem Insists.setKeys (hkey : s.keyFilled = false) (tx rx : List UInt8) :
    Unready s (s.setKeys tx rx) := by
  have hno : ∀ {p : Prop}, s.keyFilled = true → p := fun h => absurd h (by simp [hkey])
  exact ⟨⟨{ hs with
      encKey := fun key h => hno (hs.encKey key h).1
      decKey := fun key h => hno (hs.decKey key h).1 }, fun h => hno h, id, List.prefix_rfl⟩, rfl⟩

theorem Insists.fill : Unready s s.fill :=
  ⟨⟨⟨hs.acceptor, hs.want, fun _ => rfl, fun _ => rfl, hs.sentReady,
    fun key h => ⟨rfl, (hs.encKey key h).2⟩, fun key h => ⟨rfl, (hs.decKey key h).2⟩⟩,
    fun _ => ⟨rfl, rfl, rfl⟩, id, List.prefix_rfl⟩, rfl⟩

theorem Insists.exchangeKeys (hkey : s.keyFilled = false) (peer : Key) :
    Unready s (s.exchangeKeys lib peer) := by
  have hmeet : Unready s (s.meet peer) := hs.same rfl
  have hclose : ∀ {s' : PeerSession Key}, Unready s s' → Unready s s'.close :=
    fun h => h.trans (h.insists.same rfl)
  unfold PeerSession.exchangeKeys
  split
  · exact hclose hmeet
  · next secret _ =>
    split
    · exact hclose hmeet
    · have hderive : Unready s ((s.meet peer).deriveDirectionalKeys lib secret).2 := by
        unfold PeerSession.deriveDirectionalKeys
        split
        · exact hmeet.trans (hmeet.insists.setKeys hkey _ _)
        · exact hmeet
      generalize (s.meet peer).deriveDirectionalKeys lib secret = result at hderive
      obtain ⟨_ | _, s'⟩ := result
      · exact hclose hderive
      · have hfill := hderive.trans hderive.insists.fill
        exact hfill.trans (hfill.insists.answerHandshake lib rfl)

theorem Insists.onHandshakePacket (packet : HandshakePacket Key) :
    Unready s (s.onHandshakePacket lib packet) := by
  have hclose : Unready s s.close := hs.same rfl
  unfold PeerSession.onHandshakePacket
  rw [hs.acceptor, hs.want]
  simp only [Bool.false_eq_true, if_false, Bool.not_true]
  split
  · exact hclose
  · next hfresh =>
    have hkey : s.keyFilled = false := by
      simp only [Bool.or_eq_true, not_or, Bool.not_eq_true] at hfresh
      exact hfresh.2
    split
    · exact hclose
    · exact hs.exchangeKeys lib hkey _

/-! ## The ready packet -/

/-- The end of the handshake. -/
theorem Insists.finish : Onward s s.clear.ready := by
  have hclear : Unready s s.clear := hs.same rfl
  refine hclear.toOnward.trans ?_
  unfold PeerSession.ready
  split
  · exact (Unready.refl hclear.insists).toOnward
  · exact ⟨{ hclear.insists with }, fun hkey => ⟨hkey, rfl, rfl⟩, id, List.prefix_rfl⟩

/-- A ready packet is logged, and without keys it only closes the session. -/
theorem Insists.onAcknowledgePacket (origin : Option (List UInt8)) (magic : List UInt8) :
    Onward s (s.onAcknowledgePacket lib origin magic) ∧
      (s.keyFilled = false → s.onAcknowledgePacket lib origin magic = (s.logReady origin).close) ∧
      origin ∈ (s.onAcknowledgePacket lib origin magic).readies := by
  have hlog : Unready s (s.logReady origin) :=
    ⟨⟨{ hs with }, fun hkey => ⟨hkey, rfl, rfl⟩, id, List.prefix_append _ _⟩, rfl⟩
  have hlogged : origin ∈ (s.logReady origin).readies :=
    List.mem_append_right _ (List.mem_singleton_self _)
  have hclose : Unready (s.logReady origin) (s.logReady origin).close := hlog.insists.same rfl
  have hall : ∀ {s' : PeerSession Key}, Onward (s.logReady origin) s' →
      Onward s s' ∧ origin ∈ s'.readies :=
    fun h => ⟨hlog.toOnward.trans h, h.readies.subset hlogged⟩
  unfold PeerSession.onAcknowledgePacket
  split
  · exact ⟨(hall hclose.toOnward).1, fun _ => rfl, (hall hclose.toOnward).2⟩
  · next hnegotiated =>
    have hkey : s.keyFilled = true := hs.negotiated (by simpa using hnegotiated)
    have hno : ∀ {p : Prop}, s.keyFilled = false → p := fun h => absurd hkey (by simp [h])
    split
    · exact ⟨(hall hclose.toOnward).1, fun _ => rfl, (hall hclose.toOnward).2⟩
    · split
      · have hsent := hlog.insists.sendReady lib hkey
        have hdone := hall (hsent.toOnward.trans hsent.insists.finish)
        exact ⟨hdone.1, hno, hdone.2⟩
      · have hdone := hall hlog.insists.finish
        exact ⟨hdone.1, hno, hdone.2⟩

end

/-! ## One packet of a message -/

/-- The session is ready only through a ready packet that was decrypted. -/
def Proven (s : PeerSession Key) : Prop :=
  s.isReady = true → s.keyFilled = true ∧ some s.rxKey ∈ s.readies

theorem Unready.proven (h : Unready s s') (hs : Proven s) : Proven s' := by
  intro hready
  rw [h.isReady] at hready
  obtain ⟨hkey, hmem⟩ := hs hready
  obtain ⟨hkey', -, hrx⟩ := h.keys hkey
  exact ⟨hkey', hrx ▸ h.readies.subset hmem⟩

def ControlPacket.isReady : ControlPacket Key → Bool
  | .handshake _ => false
  | .connectionReady _ => true

theorem Insists.handle (hs : Insists s) (origin : Option (List UInt8))
    (packet : ControlPacket Key) :
    Onward s (s.handle lib origin packet) := by
  unfold PeerSession.handle
  split
  · cases packet with
    | handshake packet => exact (hs.onHandshakePacket lib packet).toOnward
    | connectionReady magic => exact (hs.onAcknowledgePacket lib origin magic).1
  · exact (Unready.refl hs).toOnward

/-- A packet proves nothing only if it is a ready packet in plaintext, and the
keys are already there. -/
theorem Proven.handle (hproven : Proven s) (hs : Insists s) {packet : ControlPacket Key}
    (h : origin = some s.rxKey ∨ s.keyFilled = false ∨ packet.isReady = false) :
    Proven (s.handle lib origin packet) := by
  unfold PeerSession.handle
  split
  · cases packet with
    | handshake packet => exact (hs.onHandshakePacket lib packet).proven hproven
    | connectionReady magic =>
      obtain ⟨honward, hunkeyed, hlogged⟩ := hs.onAcknowledgePacket lib origin magic
      show Proven (s.onAcknowledgePacket lib origin magic)
      intro hready
      by_cases hkey : s.keyFilled = true
      · obtain ⟨hkey', -, hrx⟩ := honward.keys hkey
        refine ⟨hkey', ?_⟩
        rcases h with rfl | hno | hno
        · rwa [hrx]
        · rw [hno] at hkey
          cases hkey
        · cases hno
      · rw [hunkeyed (by simpa using hkey)] at hready
        exact absurd (hproven hready).1 hkey
  · exact hproven

/-! ## One message -/

/-- All packets of a message. -/
def PeerSession.handleAll (s : PeerSession Key) (origin : Option (List UInt8))
    (packets : List (ControlPacket Key)) : PeerSession Key :=
  packets.foldl (fun (s : PeerSession Key) p => s.handle lib origin p) s

theorem Insists.handleAll (hs : Insists s) (origin : Option (List UInt8))
    (packets : List (ControlPacket Key)) : Onward s (s.handleAll lib origin packets) := by
  induction packets generalizing s with
  | nil => exact (Unready.refl hs).toOnward
  | cons packet packets ih =>
    have hone := hs.handle lib origin packet
    exact hone.trans (ih hone.insists)

/-- The packets of a decrypted message. -/
theorem Proven.handleAll_decrypted (hproven : Proven s) (hs : Insists s) (hkey : s.keyFilled = true)
    (horigin : origin = some s.rxKey) (packets : List (ControlPacket Key)) :
    Proven (s.handleAll lib origin packets) := by
  induction packets generalizing s with
  | nil => exact hproven
  | cons packet packets ih =>
    have hone := hs.handle lib origin packet
    obtain ⟨hkey', -, hrx⟩ := hone.keys hkey
    exact ih (hproven.handle lib hs (.inl horigin)) hone.insists hkey' (horigin.trans (by rw [hrx]))

/-- No ready packet stands behind a handshake packet. -/
def Apart (packets : List (ControlPacket Key)) : Prop :=
  packets.Pairwise fun p q => p.isReady = true ∨ q.isReady = false

instance (packets : List (ControlPacket Key)) : Decidable (Apart packets) :=
  inferInstanceAs (Decidable (List.Pairwise _ _))

/-- The packets of a plaintext message: those in front of the handshake packet
meet a session without keys, and none of those behind it is a ready packet. -/
theorem Proven.handleAll_plaintext (hproven : Proven s) (hs : Insists s)
    {packets : List (ControlPacket Key)} (hapart : Apart packets)
    (hkey : s.keyFilled = false ∨ ∀ p ∈ packets, p.isReady = false) :
    Proven (s.handleAll lib none packets) := by
  induction packets generalizing s with
  | nil => exact hproven
  | cons packet packets ih =>
    obtain ⟨hhead, htail⟩ := List.pairwise_cons.1 hapart
    have hone := hs.handle lib none packet
    have hnext : Proven (s.handle lib none packet) := by
      refine hproven.handle lib hs (.inr ?_)
      exact hkey.imp_right fun h => h packet List.mem_cons_self
    refine ih hnext hone.insists htail ?_
    cases packet with
    | handshake packet =>
      refine .inr fun q hq => ?_
      rcases hhead q hq with hready | hready
      · cases hready
      · exact hready
    | connectionReady magic =>
      rcases hkey with hkey | hnone
      · refine .inl ?_
        show (s.handle lib none (.connectionReady magic)).keyFilled = false
        unfold PeerSession.handle
        split
        · show (s.onAcknowledgePacket lib none magic).keyFilled = false
          rw [(hs.onAcknowledgePacket lib none magic).2.1 hkey]
          exact hkey
        · exact hkey
      · cases hnone _ List.mem_cons_self

/-! ## Decoding -/

/-- The mode byte of a message. -/
def mode (message : List UInt8) : Nat := ((Reading.readNumber 1).run (Buffer.ofData message)).1

/-- The packets of a plaintext message. -/
def plaintextPackets (message : List UInt8) : List (ControlPacket Key) :=
  match handleInDynamic lib ((Reading.readNumber 1).run (Buffer.ofData message)).2 with
  | none => []
  | some payload => (deserialize (controlSerializers lib) payload).dispatched.map Prod.snd

/-- A plaintext message that comes while there are no keys has no ready packet behind a handshake
packet. -/
def Unbundled (s : PeerSession Key) : Event → Prop
  | .receive message =>
    s.keyFilled = false → mode message = kModePlaintext → Apart (plaintextPackets lib message)
  | _ => True

instance (s : PeerSession Key) (e : Event) : Decidable (Unbundled lib s e) :=
  match e with
  | .receive _ => inferInstanceAs (Decidable (_ → _ → _))
  | .install | .send _ _ | .close => inferInstanceAs (Decidable True)

section

variable (hs : Insists s)

include hs

/-- Opening an authentic message keys the context, with the key of the direction. -/
theorem Insists.decryptIn (hkey : s.keyFilled = true) (b : Buffer) :
    Unready s (s.decryptIn lib b).2 ∧
      ∀ opened, (s.decryptIn lib b).1 = some opened → opened.origin = some s.rxKey := by
  have hrx : s.decKey.getD s.rxKey = s.rxKey := by
    cases hold : s.decKey with
    | none => rfl
    | some old => exact (hs.decKey old hold).2
  have hopen : ∀ stream window, Unready s (s.openWith s.rxKey stream window) := by
    intro stream window
    exact ⟨⟨{ hs with decKey := fun key hsome => ⟨hkey, (Option.some.inj hsome).symm⟩ },
      fun hkey => ⟨hkey, rfl, rfl⟩, id, List.prefix_rfl⟩, rfl⟩
  unfold PeerSession.decryptIn
  dsimp only
  rw [hrx]
  split
  · exact ⟨.refl hs, fun opened h => by cases h⟩
  · split
    · refine ⟨hopen _ _, fun opened h => ?_⟩
      cases h
      rfl
    · exact ⟨hopen _ _, fun opened h => by cases h⟩

/-- What `HandleDecrypt` hands on: a plaintext message, before there are keys, or
one that was decrypted. -/
theorem Insists.handleDecrypt (message : List UInt8) :
    Unready s (s.handleDecrypt lib (Buffer.ofData message)).2 ∧
      ∀ opened, (s.handleDecrypt lib (Buffer.ofData message)).1 = some opened →
        (s.keyFilled = true ∧ opened.origin = some s.rxKey) ∨
        ((s.handleDecrypt lib (Buffer.ofData message)).2.keyFilled = false ∧
          mode message = kModePlaintext ∧
          opened = ⟨none, ((Reading.readNumber 1).run (Buffer.ofData message)).2⟩) := by
  have hrefl : Unready s s := .refl hs
  unfold PeerSession.handleDecrypt mode
  generalize (Reading.readNumber 1).run (Buffer.ofData message) = read
  obtain ⟨m, b⟩ := read
  dsimp only
  split
  · next hplain =>
    split
    · exact ⟨hrefl, fun opened h => by cases h⟩
    · next hkey =>
      refine ⟨hrefl, fun opened h => .inr ⟨by simpa using hkey, hplain, ?_⟩⟩
      exact (Option.some.inj h).symm
  · split
    · exact ⟨hrefl, fun opened h => by cases h⟩
    · split
      · exact ⟨hrefl, fun opened h => by cases h⟩
      · split
        · exact ⟨hrefl, fun opened h => by cases h⟩
        · next hkey =>
          have hkey : s.keyFilled = true := by simpa using hkey
          split
          · exact ⟨hrefl, fun opened h => by cases h⟩
          · obtain ⟨honward, horigin⟩ := hs.decryptIn lib hkey b
            exact ⟨honward, fun opened h => .inl ⟨hkey, horigin opened h⟩⟩

theorem Insists.decode (message : List UInt8) : Unready s (s.decode lib (Buffer.ofData message)).2 ∧
      ∀ opened, (s.decode lib (Buffer.ofData message)).1 = some opened →
        (s.keyFilled = true ∧ opened.origin = some s.rxKey) ∨
        ((s.decode lib (Buffer.ofData message)).2.keyFilled = false ∧
          mode message = kModePlaintext ∧ opened.origin = none ∧
          (deserialize (controlSerializers lib) opened.payload).dispatched.map Prod.snd =
            plaintextPackets lib message) := by
  obtain ⟨honward, hopened⟩ := hs.handleDecrypt lib message
  unfold PeerSession.decode
  generalize s.handleDecrypt lib (Buffer.ofData message) = result at honward hopened
  obtain ⟨_ | opened, s'⟩ := result
  · exact ⟨honward, fun opened h => by cases h⟩
  · dsimp only at honward hopened ⊢
    split
    · exact ⟨honward, fun opened h => by cases h⟩
    · next payload hpayload =>
      refine ⟨honward, fun opened' h => ?_⟩
      cases h
      rcases hopened opened rfl with hdecrypted | ⟨hkey, hplain, heq⟩
      · exact .inl hdecrypted
      · refine .inr ⟨hkey, hplain, by rw [heq], ?_⟩
        rw [heq] at hpayload
        simp only [plaintextPackets, hpayload]

/-! ## One event -/

theorem Insists.dispatch (opened : Opened) : Onward s (s.dispatch lib opened) ∧
      (Proven (s.handleAll lib opened.origin
        ((deserialize (controlSerializers lib) opened.payload).dispatched.map Prod.snd)) →
        Proven (s.dispatch lib opened)) := by
  have hall := hs.handleAll lib opened.origin
    ((deserialize (controlSerializers lib) opened.payload).dispatched.map Prod.snd)
  unfold PeerSession.handleAll at hall ⊢
  rw [List.foldl_map] at hall ⊢
  unfold PeerSession.dispatch
  dsimp only
  generalize List.foldl _ s _ = s' at hall ⊢
  have hcount : Unready s' (s'.countInvalid
      (deserialize (controlSerializers lib) opened.payload).stats.invalidFrames) :=
    hall.insists.same rfl
  split
  · split
    · have hclosed : Unready _ (PeerSession.close _) := hcount.insists.same rfl
      have hclose := hcount.trans hclosed
      exact ⟨hall.trans hclose.toOnward, hclose.proven⟩
    · exact ⟨hall.trans hcount.toOnward, hcount.proven⟩
  · exact ⟨hall, id⟩

theorem Insists.receive (message : List UInt8) : Onward s (s.receive lib message) ∧
      (Unbundled lib s (.receive message) → Proven s → Proven (s.receive lib message)) := by
  unfold PeerSession.receive
  split
  · obtain ⟨hdecode, hopened⟩ := hs.decode lib message
    generalize s.decode lib (Buffer.ofData message) = result at hdecode hopened
    obtain ⟨_ | opened, s'⟩ := result
    · exact ⟨hdecode.toOnward, fun _ => hdecode.proven⟩
    · dsimp only at hdecode hopened ⊢
      split
      · obtain ⟨hdispatch, hproven⟩ := hdecode.insists.dispatch lib opened
        refine ⟨hdecode.toOnward.trans hdispatch, fun hunbundled hs' => hproven ?_⟩
        have hproven' := hdecode.proven hs'
        rcases hopened opened rfl with ⟨hkey, horigin⟩ | ⟨hkey, hplain, horigin, hpackets⟩
        · obtain ⟨hkey', -, hrx⟩ := hdecode.keys hkey
          exact hproven'.handleAll_decrypted lib hdecode.insists hkey' (by rw [horigin, hrx]) _
        · have hkeyless : s.keyFilled = false := by
            by_contra hfilled
            have := (hdecode.keys (by simpa using hfilled)).1
            rw [hkey] at this
            cases this
          rw [horigin, hpackets]
          exact hproven'.handleAll_plaintext lib hdecode.insists (hunbundled hkeyless hplain)
            (.inl hkey)
      · exact ⟨hdecode.toOnward, fun _ => hdecode.proven⟩
  · exact ⟨(Unready.refl hs).toOnward, fun _ => id⟩

theorem Insists.step (e : Event) :
    Onward s (s.step lib e) ∧ (Unbundled lib s e → Proven s → Proven (s.step lib e)) := by
  have hunready : ∀ {s' : PeerSession Key} {p : Prop}, Unready s s' →
      Onward s s' ∧ (p → Proven s → Proven s') :=
    fun h => ⟨h.toOnward, fun _ => h.proven⟩
  cases e with
  | receive message => exact hs.receive lib message
  | install =>
    have hinstall : Unready s s.install := by
      unfold PeerSession.install
      split
      · exact hs.same rfl
      · exact .refl hs
    exact hunready hinstall
  | send serialized stream =>
    have hsend : Unready s (s.sendPacket lib serialized stream) := by
      unfold PeerSession.sendPacket
      split
      · exact .refl hs
      · exact hs.sends (encodeAndSend_sends lib s _ stream)
    exact hunready hsend
  | close =>
    have hclose : Unready s s.close := hs.same rfl
    exact hunready hclose

/-! ## Runs -/

end

theorem insists_start (options : SessionOptions) (hpolicy : options.encryption = true)
    (pubKey : Option Key) : Insists (start lib false options pubKey) where
  acceptor := rfl
  want := hpolicy
  negotiated h := by cases h
  enabled h := by cases h
  sentReady h := by cases h
  encKey key h := by cases h
  decKey key h := by cases h

theorem onward_exec (hs : Insists s) {es : List Event} (h : (machine lib).exec s es = some s') :
    Onward s s' :=
  (machine lib).exec_invariant (I := fun s' => Onward s s')
    (fun s₁ e s₂ h₁ hstep => by
      cases hstep
      exact h₁.trans (h₁.insists.step lib e).1)
    h (Unready.refl hs).toOnward

/-- A message that leaves an acceptor which encrypts. -/
theorem Insists.handleOut_encrypted (hs : Insists s) (henabled : s.enableEncryption = true)
    {b out : Buffer} {stream : UInt8} (h : (s.handleOut lib b stream).1 = some out) :
    ∃ ciphertext tag,
      lib.encryptData s.txKey (buildNonce s.txSalt stream (s.counter stream)) kAad b.readableData =
        some (ciphertext, tag) ∧
      out.readableData =
        2 :: stream :: Bytes.be kCounterLen (s.counter stream) ++ ciphertext ++ tag := by
  have htx : s.encKey.getD s.txKey = s.txKey := by
    cases hold : s.encKey with
    | none => rfl
    | some old => exact (hs.encKey old hold).2
  rw [PeerSession.handleOut, if_pos henabled] at h
  split at h
  · cases h
  · obtain ⟨ciphertext, tag, hencrypt, hcarries⟩ := encryptOut_carries lib h
    rw [htx] at hencrypt
    exact ⟨ciphertext, tag, hencrypt, hcarries.readableData⟩

/-- With keys, a plaintext message is dropped. -/
theorem decode_plaintext (hkey : s.keyFilled = true) {message : List UInt8}
    (hplain : mode message = kModePlaintext) :
    s.decode lib (Buffer.ofData message) = (none, s) := by
  unfold mode at hplain
  unfold PeerSession.decode PeerSession.handleDecrypt
  generalize (Reading.readNumber 1).run (Buffer.ofData message) = read at hplain ⊢
  obtain ⟨m, b⟩ := read
  simp only at hplain
  simp [hplain, hkey]

/-- **No downgrade.**  Take an acceptor whose policy asks for encryption, and any
run of it, with any messages of the peer.

* If the plaintext messages that came before the keys carried no ready packet behind a
  handshake packet, and the session is ready, it has keys, and was handed a ready packet from
  a message that was decrypted under the derived receive key.

And whatever happens from there on:

* if it had keys by then, it drops every plaintext message;
* if it had sent its own ready packet by then, every message `HandleOut` produces
  is the encryption of its payload under the derived transmit key. -/
theorem no_downgrade (options : SessionOptions) (hpolicy : options.encryption = true)
    (pubKey : Option Key) {es : List Event} {s : PeerSession Key}
    (hrun : (machine lib).exec (start lib false options pubKey) es = some s) :
    (GuardedRun (machine lib) (Unbundled lib) (start lib false options pubKey) es s →
      s.isReady = true → s.keyFilled = true ∧ some s.rxKey ∈ s.readies) ∧
    ∀ (fs : List Event) (s' : PeerSession Key), (machine lib).exec s fs = some s' →
      (s.keyFilled = true → ∀ message, mode message = kModePlaintext →
        s'.decode lib (Buffer.ofData message) = (none, s')) ∧
      (s.sentReady = true → ∀ (b out : Buffer) (stream : UInt8),
        (s'.handleOut lib b stream).1 = some out →
        ∃ ciphertext tag,
          lib.encryptData s'.txKey (buildNonce s'.txSalt stream (s'.counter stream)) kAad
            b.readableData = some (ciphertext, tag) ∧
          out.readableData =
            2 :: stream :: Bytes.be kCounterLen (s'.counter stream) ++ ciphertext ++ tag) := by
  have hstart := insists_start lib options hpolicy pubKey
  refine ⟨fun hguarded => ?_, fun fs s' hexec => ?_⟩
  · have hinv := hguarded.invariant (I := fun s => Insists s ∧ Proven s) ?_
      ⟨hstart, fun h => by cases h⟩
    · exact hinv.2
    · rintro s e s' ⟨hs, hproven⟩ hunbundled hstep
      obtain rfl := Option.some.inj hstep
      obtain ⟨honward, hstill⟩ := hs.step lib e
      exact ⟨honward.insists, hstill hunbundled hproven⟩
  · have honward := onward_exec lib (onward_exec lib hstart hrun).insists hexec
    refine ⟨fun hkey message hplain => ?_, fun hsent b out stream hout => ?_⟩
    · exact decode_plaintext lib (honward.keys hkey).1 hplain
    · have henabled := honward.insists.sentReady (honward.sentReady hsent)
      exact honward.insists.handleOut_encrypted lib henabled hout

/-! ## The bundled message -/

/-- A cipher and a key exchange that change nothing. -/
def plainLibraries : Libraries Unit where
  serializePublicKey _ := [1]
  deserializePublicKey _ := some ()
  cloneKey := some
  computeSharedSecret _ _ := some [9]
  hkdf _ info n := some (List.replicate n (UInt8.ofNat info.length))
  hkdf_length h := by
    cases h
    exact List.length_replicate
  digest _ := some []
  encryptData _ _ _ plaintext := some (plaintext, List.replicate 16 0)
  decryptData _ _ _ ciphertext _ := some ciphertext
  useZstd := false
  compressBound := id
  compressZstd _ := none
  decompressZstd _ := none

/-- The bytes of a packet's frame. -/
def packetBytes (packet : ControlPacket Key) : List UInt8 :=
  ((serialize packet.packetId (fun b => .written (packet.write lib b)) 0).map
    Buffer.readableData).getD []

def sampleHandshake : List UInt8 :=
  packetBytes plainLibraries (.handshake { pubKey := some () })

def sampleReady : List UInt8 := packetBytes plainLibraries (.connectionReady kReadyMagic)

/-- An honest peer: its handshake packet in plaintext, and then an encrypted
ready packet. -/
def honestRun : List Event :=
  [.receive (0 :: 0 :: sampleHandshake),
    .receive (2 :: 0 :: Bytes.be 7 0 ++ 0 :: sampleReady ++ List.replicate 16 0)]

/-- The acceptor is ready at the end of an honest handshake, and has proof of it. -/
theorem no_downgrade_honest :
    ∃ s, GuardedRun (machine plainLibraries) (Unbundled plainLibraries)
        (start plainLibraries false {} (some ())) honestRun s ∧
      s.isReady = true ∧ s.keyFilled = true ∧ some s.rxKey ∈ s.readies :=
  GuardedRun.exists_run (P := fun s => s.isReady = true) (by decide +kernel) fun _ hrun hready =>
    ⟨hready, (no_downgrade plainLibraries {} rfl (some ()) hrun.exec).1 hrun hready⟩

/-- **One plaintext message with both packets makes the acceptor ready.**  The
message is let through because there are no keys yet; its handshake packet makes
them, and its ready packet is handled although it was not encrypted. -/
theorem ready_in_plaintext :
    let s := (start plainLibraries false {} (some ())).receive plainLibraries
      (0 :: 0 :: (sampleHandshake ++ sampleReady))
    s.isReady = true ∧ s.readies = [none] ∧ ¬ some s.rxKey ∈ s.readies := by
  decide +kernel

end Peer
end Znet

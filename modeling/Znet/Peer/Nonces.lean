import Znet.Peer.Session

/-!
# No nonce is used twice

`EncryptionLayer::HandleOut` gives every message a nonce of its own: the salt of
the direction, the stream, and the stream's counter.  The counter is taken before
the message is encrypted, so a call that fails has used its number up.

* `nonces_unique` — **no two calls that reach `EncryptData` use the same nonce**,
  in any run, and a stream without a counter left refuses.
-/

namespace Znet
namespace Peer

open Crypto (kMaxCounter)

variable {Key : Type} (lib : Libraries Key)

/-- One step of a session, or a call of `HandleOut` out of turn. -/
inductive Call where
  | handleOut (b : Buffer) (stream : UInt8)
  | event (e : Event)

def PeerSession.call (s : PeerSession Key) : Call → PeerSession Key
  | .handleOut b stream => (s.handleOut lib b stream).2
  | .event e => s.step lib e

/-! ## The counters -/

/-- A counter set on a grown vector is that stream's counter; the others stay. -/
theorem getD_set_grown (xs : List Nat) (stream other : UInt8) (v : Nat) :
    ((grown xs stream 0).set stream.toNat v).getD other.toNat 0 =
      if other = stream then v else xs.getD other.toNat 0 := by
  have hlen := length_grown xs stream 0
  rw [List.getD_eq_getElem?_getD, List.getElem?_set]
  by_cases h : other = stream
  · subst h
    simp [hlen]
  · have hne : stream.toNat ≠ other.toNat := fun heq => h (UInt8.toNat_inj.1 heq).symm
    rw [if_neg hne, if_neg h, ← List.getD_eq_getElem?_getD, getD_grown]

/-! ## Nonces -/

/-- The part of a nonce behind the salt. -/
def nonceTail (stream : UInt8) (counter : Nat) : List UInt8 :=
  stream :: Bytes.be kCounterLen counter

theorem tail_inj {stream stream' : UInt8} {c c' : Nat} (hc : c < 2 ^ 56) (hc' : c' < 2 ^ 56)
    (h : nonceTail stream c = nonceTail stream' c') : stream = stream' ∧ c = c' := by
  obtain ⟨hstream, hbe⟩ := List.cons.inj h
  exact ⟨hstream, Bytes.be_injOn (by simpa [kCounterLen] using hc)
    (by simpa [kCounterLen] using hc') hbe⟩

theorem drop_buildNonce {salt : List UInt8} (hsalt : salt.length = 4) (stream : UInt8) (c : Nat) :
    (buildNonce salt stream c).drop 4 = nonceTail stream c := by
  rw [buildNonce, ← hsalt]
  exact List.drop_left

/-- The nonces used so far, by stream, are those below the counters. -/
structure Counted (s : PeerSession Key) : Prop where
  used : ∀ nonce ∈ s.nonces, ∃ salt stream c, salt.length = 4 ∧ c < s.counter stream ∧
    nonce = buildNonce salt stream c
  below : ∀ stream, s.counter stream ≤ kMaxCounter
  nodup : (s.nonces.map (List.drop 4)).Nodup
  salt : s.txSalt.length = 4

/-- A call that is refused, or that takes the next counter of its stream. -/
theorem encryptOut_cases (s : PeerSession Key) (b : Buffer) (stream : UInt8) :
    (s.counter stream = kMaxCounter ∧ (s.encryptOut lib b stream).1 = none ∧
      (s.encryptOut lib b stream).2 = s.growCounters stream) ∨
    (s.counter stream ≠ kMaxCounter ∧
      ((s.encryptOut lib b stream).2 = s.takeCounter stream (s.counter stream) ∨
        ∃ key, (s.encryptOut lib b stream).2 =
          (s.takeCounter stream (s.counter stream)).keyCipher key)) := by
  unfold PeerSession.encryptOut
  dsimp only
  rw [next_counter]
  by_cases hmax : s.counter stream = kMaxCounter
  · rw [if_pos hmax]
    exact .inl ⟨hmax, rfl, rfl⟩
  · rw [if_neg hmax]
    refine .inr ⟨hmax, ?_⟩
    split
    · exact .inl rfl
    · exact .inr ⟨_, rfl⟩

/-- The next counter of a stream makes a nonce that was not used. -/
theorem Counted.takeCounter {s : PeerSession Key} (h : Counted s) {stream : UInt8}
    (hne : s.counter stream ≠ kMaxCounter) :
    Counted (s.takeCounter stream (s.counter stream)) := by
  have hlt : s.counter stream < kMaxCounter := lt_of_le_of_ne (h.below stream) hne
  have hcounter : ∀ other, (s.takeCounter stream (s.counter stream)).counter other =
      if other = stream then s.counter stream + 1 else s.counter other :=
    fun other => getD_set_grown _ _ _ _
  have hgrows : ∀ other, s.counter other ≤
      (s.takeCounter stream (s.counter stream)).counter other := by
    intro other
    rw [hcounter]
    split
    · next heq =>
      rw [heq]
      omega
    · exact le_rfl
  refine ⟨?_, ?_, ?_, h.salt⟩
  · intro nonce hmem
    rcases List.mem_append.1 hmem with hold | hnew
    · obtain ⟨salt, other, c, hsalt, hc, rfl⟩ := h.used nonce hold
      exact ⟨salt, other, c, hsalt, hc.trans_le (hgrows other), rfl⟩
    · rw [List.mem_singleton.1 hnew]
      refine ⟨s.txSalt, stream, s.counter stream, h.salt, ?_, rfl⟩
      rw [hcounter, if_pos rfl]
      omega
  · intro other
    rw [hcounter]
    split
    · omega
    · exact h.below other
  · -- a repeated pair would be below its own counter
    show ((s.nonces ++ [buildNonce s.txSalt stream (s.counter stream)]).map (List.drop 4)).Nodup
    rw [List.map_append, List.map_singleton, drop_buildNonce h.salt]
    refine List.nodup_append.2 ⟨h.nodup, List.nodup_singleton _, ?_⟩
    intro x hx y hy hxy
    rw [List.mem_singleton] at hy
    obtain ⟨nonce, hmem, rfl⟩ := List.mem_map.1 hx
    obtain ⟨salt, other, c, hsalt, hc, rfl⟩ := h.used nonce hmem
    rw [drop_buildNonce hsalt, hy] at hxy
    have hbelow := h.below other
    unfold kMaxCounter at hbelow hlt
    obtain ⟨rfl, rfl⟩ := tail_inj (by omega) (by omega) hxy
    exact lt_irrefl _ hc

/-- What the invariant reads is the same in two states. -/
theorem Counted.congr {s s' : PeerSession Key} (h : Counted s)
    (hcounter : ∀ stream, s'.counter stream = s.counter stream) (hnonces : s'.nonces = s.nonces)
    (hsalt : s'.txSalt.length = 4) : Counted s' := by
  refine ⟨?_, ?_, ?_, hsalt⟩
  · simpa only [hnonces, hcounter] using h.used
  · simpa only [hcounter] using h.below
  · simpa only [hnonces] using h.nodup

theorem Counted.handleOut {s : PeerSession Key} (h : Counted s) (b : Buffer) (stream : UInt8) :
    Counted (s.handleOut lib b stream).2 := by
  unfold PeerSession.handleOut
  split
  · exact h
  · split
    · rcases encryptOut_cases lib s b stream with ⟨-, -, heq⟩ | ⟨hne, heq | ⟨key, heq⟩⟩
      · rw [heq]
        exact h.congr (fun other => getD_grown _ _ _ _) rfl h.salt
      · rw [heq]
        exact h.takeCounter hne
      · rw [heq]
        exact (h.takeCounter hne).congr (fun _ => rfl) rfl h.salt
    · split <;> exact h

/-! ## What a session does to its counters -/

/-- Calls of `HandleOut`, and moves that leave the counters and the nonces alone
and the salt at its length. -/
inductive Ciphering : PeerSession Key → PeerSession Key → Prop where
  | quiet {s s' : PeerSession Key} (counters : s'.txCounters = s.txCounters)
      (nonces : s'.nonces = s.nonces) (salt : s.txSalt.length = 4 → s'.txSalt.length = 4) :
      Ciphering s s'
  | handleOut (s : PeerSession Key) (b : Buffer) (stream : UInt8) :
      Ciphering s (s.handleOut lib b stream).2
  | trans {s s' s'' : PeerSession Key} (first : Ciphering s s') (second : Ciphering s' s'') :
      Ciphering s s''

namespace Ciphering

variable {lib}

theorem counted {s s' : PeerSession Key} (h : Ciphering lib s s') (hs : Counted s) :
    Counted s' := by
  induction h with
  | quiet counters nonces salt =>
    exact hs.congr (fun stream => congrArg (List.getD · stream.toNat 0) counters) nonces
      (salt hs.salt)
  | handleOut s b stream => exact hs.handleOut lib b stream
  | trans first second ih₁ ih₂ => exact ih₂ (ih₁ hs)

/-- A move that touches none of the three. -/
theorem same {s s' : PeerSession Key} (counters : s'.txCounters = s.txCounters)
    (nonces : s'.nonces = s.nonces) (salt : s'.txSalt = s.txSalt) : Ciphering lib s s' :=
  .quiet counters nonces fun h => by rw [salt]; exact h

theorem refl (s : PeerSession Key) : Ciphering lib s s := same rfl rfl rfl

variable (lib)

variable (s : PeerSession Key) (origin : Option (List UInt8)) (packet : ControlPacket Key)
  (b : Buffer)

theorem encode (stream : UInt8) : Ciphering lib s (s.encode lib b stream).2 := by
  unfold PeerSession.encode
  dsimp only
  split
  · exact refl s
  · exact handleOut s _ stream

theorem encodeAndSend (serialized : Option Buffer) (stream : UInt8) :
    Ciphering lib s (s.encodeAndSend lib serialized stream) := by
  unfold PeerSession.encodeAndSend
  split
  · exact refl s
  · cases serialized with
    | none => exact refl s
    | some b =>
      have hencode := encode lib s b stream
      dsimp only
      generalize s.encode lib b stream = result at hencode
      obtain ⟨_ | message, s'⟩ := result
      · exact hencode
      · exact hencode.trans (same rfl rfl rfl)

theorem sendImmediate : Ciphering lib s (s.sendImmediate lib packet) := by
  unfold PeerSession.sendImmediate
  split
  · exact refl s
  · exact encodeAndSend lib s _ 0

theorem sendHandshake : Ciphering lib s (s.sendHandshake lib) :=
  (sendImmediate lib s _).trans (same rfl rfl rfl)

theorem sendReady : Ciphering lib s (s.sendReady lib) :=
  (same rfl rfl rfl : Ciphering lib s s.arm).trans
    ((sendImmediate lib _ _).trans (same rfl rfl rfl))

theorem answerHandshake : Ciphering lib s (s.answerHandshake lib) := by
  unfold PeerSession.answerHandshake
  split
  · exact sendHandshake lib s
  · split
    · exact sendReady lib s
    · exact refl s

theorem deriveDirectionalKeys (secret : List UInt8) :
    Ciphering lib s (s.deriveDirectionalKeys lib secret).2 := by
  unfold PeerSession.deriveDirectionalKeys
  split
  · next tx rx htx hrx =>
    refine quiet rfl rfl fun _ => ?_
    show (tx.drop 32).length = 4
    rw [List.length_drop, lib.hkdf_length htx]
  · exact refl s

theorem exchangeKeys (peer : Key) : Ciphering lib s (s.exchangeKeys lib peer) := by
  have hpeer : Ciphering lib s (s.meet peer) := same rfl rfl rfl
  unfold PeerSession.exchangeKeys
  split
  · exact hpeer.trans (same rfl rfl rfl)
  · next secret _ =>
    split
    · exact hpeer.trans (same rfl rfl rfl)
    · have hderive := deriveDirectionalKeys lib (s.meet peer) secret
      split
      · next s' heq =>
        rw [heq] at hderive
        exact hpeer.trans (hderive.trans (same rfl rfl rfl))
      · next s' heq =>
        rw [heq] at hderive
        have hfill : Ciphering lib s' s'.fill := same rfl rfl rfl
        exact hpeer.trans (hderive.trans (hfill.trans (answerHandshake lib _)))

theorem onHandshakePacket (packet : HandshakePacket Key) :
    Ciphering lib s (s.onHandshakePacket lib packet) := by
  have hadopt : Ciphering lib s (s.adopt packet.compression) := same rfl rfl rfl
  have hsettle : ∀ s : PeerSession Key, Ciphering lib s s.settle := fun _ => same rfl rfl rfl
  unfold PeerSession.onHandshakePacket
  split
  · exact same rfl rfl rfl
  · split
    · split
      · split
        · exact hadopt.trans ((hsettle _).trans (sendReady lib _))
        · exact hadopt.trans (hsettle _)
      · split
        · exact same rfl rfl rfl
        · exact hadopt.trans (exchangeKeys lib _ _)
    · split
      · exact (hsettle s).trans (answerHandshake lib _)
      · split
        · exact same rfl rfl rfl
        · exact exchangeKeys lib s _

theorem ready : Ciphering lib s s.ready := by
  unfold PeerSession.ready
  split
  · exact refl s
  · exact same rfl rfl rfl

theorem onAcknowledgePacket
    (magic : List UInt8) : Ciphering lib s (s.onAcknowledgePacket lib origin magic) := by
  have hlog : Ciphering lib s (s.logReady origin) := same rfl rfl rfl
  have hclear : ∀ s : PeerSession Key, Ciphering lib s s.clear := fun _ => same rfl rfl rfl
  unfold PeerSession.onAcknowledgePacket
  split
  · exact same rfl rfl rfl
  · split
    · exact same rfl rfl rfl
    · split
      · exact hlog.trans ((sendReady lib _).trans ((hclear _).trans (ready lib _)))
      · exact hlog.trans ((hclear _).trans (ready lib _))

theorem handle : Ciphering lib s (s.handle lib origin packet) := by
  unfold PeerSession.handle
  split
  · cases packet with
    | handshake packet => exact onHandshakePacket lib s packet
    | connectionReady magic => exact onAcknowledgePacket lib s origin magic
  · exact refl s

theorem dispatch (opened : PeerSession.Opened) : Ciphering lib s (s.dispatch lib opened) := by
  have hfold : Ciphering lib s
      ((deserialize (controlSerializers lib) opened.payload).dispatched.foldl
      (fun (s : PeerSession Key) p => s.handle lib opened.origin p.2) s) :=
    List.foldlRecOn (motive := fun s' => Ciphering lib s s') _ _ (refl s)
      fun s' h p _ => h.trans (handle lib s' opened.origin p.2)
  unfold PeerSession.dispatch
  dsimp only
  split
  · split <;> exact hfold.trans (same rfl rfl rfl)
  · exact hfold

theorem decode : Ciphering lib s (s.decode lib b).2 := by
  have hdecrypt : ∀ b : Buffer, Ciphering lib s (s.decryptIn lib b).2 := by
    intro b
    unfold PeerSession.decryptIn
    dsimp only
    split
    · exact refl s
    · split <;> exact same rfl rfl rfl
  have hin : Ciphering lib s (s.handleDecrypt lib b).2 := by
    unfold PeerSession.handleDecrypt
    repeat' split
    all_goals first | exact refl s | exact hdecrypt _
  unfold PeerSession.decode
  generalize s.handleDecrypt lib b = result at hin
  obtain ⟨_ | opened, s'⟩ := result
  · exact hin
  · dsimp only
    split <;> exact hin

/-- Every step of a session is of that kind. -/
theorem call (c : Call) : Ciphering lib s (s.call lib c) := by
  cases c with
  | handleOut b stream => exact handleOut s b stream
  | event e =>
    cases e with
    | receive message =>
      show Ciphering lib s (s.receive lib message)
      unfold PeerSession.receive
      split
      · have hdecode := decode lib s (Buffer.ofData message)
        generalize s.decode lib (Buffer.ofData message) = result at hdecode
        obtain ⟨_ | opened, s'⟩ := result
        · exact hdecode
        · dsimp only
          split
          · exact hdecode.trans (dispatch lib s' opened)
          · exact hdecode
      · exact refl s
    | install =>
      show Ciphering lib s s.install
      unfold PeerSession.install
      split
      · exact same rfl rfl rfl
      · exact refl s
    | send serialized stream =>
      show Ciphering lib s (s.sendPacket lib serialized stream)
      unfold PeerSession.sendPacket
      split
      · exact refl s
      · exact encodeAndSend lib s _ stream
    | close => exact same rfl rfl rfl

end Ciphering

/-! ## Runs -/

variable (isInitiator : Bool) (options : SessionOptions) (pubKey : Option Key)

theorem counted_start : Counted (PeerSession.start lib isInitiator options pubKey) := by
  have hfresh : ∀ s : PeerSession Key, s.txCounters = [] → s.nonces = [] → s.txSalt.length = 4 →
      Counted s := by
    intro s hcounters hnonces hsalt
    refine ⟨?_, ?_, ?_, hsalt⟩
    · simp [hnonces]
    · simp [PeerSession.counter, hcounters]
    · simp [hnonces]
  unfold PeerSession.start
  dsimp only
  split
  · exact (Ciphering.sendHandshake lib _).counted (hfresh _ rfl rfl rfl)
  · exact hfresh _ rfl rfl rfl

theorem counted_run (calls : List Call) :
    Counted (calls.foldl (PeerSession.call lib)
      (PeerSession.start lib isInitiator options pubKey)) :=
  List.foldlRecOn (motive := Counted) _ _ (counted_start lib isInitiator options pubKey)
    fun s h c _ => (Ciphering.call lib s c).counted h

/-- **Nonces are unique.**  In any run of a session, with any calls of `HandleOut`
on any streams among its events:

* no two calls that reached `EncryptData` were given the same nonce, nor the
  same stream and counter, and each nonce has 12 bytes;
* `BuildNonce` is injective on streams and counters that fit;
* an encrypting call on a stream whose counter has reached its end returns
  nothing, uses no nonce, and leaves the counter there. -/
theorem nonces_unique (isInitiator : Bool) (options : SessionOptions) (pubKey : Option Key)
    (calls : List Call) :
    let s := calls.foldl (PeerSession.call lib) (PeerSession.start lib isInitiator options pubKey)
    (s.nonces.Nodup ∧ (s.nonces.map (List.drop 4)).Nodup ∧ ∀ nonce ∈ s.nonces, nonce.length = 12) ∧
    (∀ (salt : List UInt8) (stream stream' : UInt8) (c c' : Nat), c < 2 ^ 56 → c' < 2 ^ 56 →
      buildNonce salt stream c = buildNonce salt stream' c' → stream = stream' ∧ c = c') ∧
    ∀ (b : Buffer) (stream : UInt8), s.enableEncryption = true → s.counter stream = kMaxCounter →
      (s.handleOut lib b stream).1 = none ∧
      (s.handleOut lib b stream).2.nonces = s.nonces ∧
      (s.handleOut lib b stream).2.counter stream = kMaxCounter := by
  intro s
  have h : Counted s := counted_run lib isInitiator options pubKey calls
  refine ⟨⟨List.Nodup.of_map _ h.nodup, h.nodup, ?_⟩, ?_, ?_⟩
  · intro nonce hmem
    obtain ⟨salt, stream, c, hsalt, -, rfl⟩ := h.used nonce hmem
    simp [buildNonce, hsalt, kCounterLen]
  · intro salt stream stream' c c' hc hc' heq
    exact tail_inj hc hc' (List.append_cancel_left heq)
  · intro b stream henabled hmax
    rw [PeerSession.handleOut, if_pos henabled]
    split
    · exact ⟨rfl, rfl, hmax⟩
    · rcases encryptOut_cases lib s b stream with ⟨-, hnone, heq⟩ | ⟨hne, -⟩
      · have hnonces : (s.growCounters stream).nonces = s.nonces := rfl
        refine ⟨hnone, by rw [heq, hnonces], ?_⟩
        rw [heq]
        exact (getD_grown _ _ _ _).trans hmax
      · exact absurd hmax hne

end Peer
end Znet

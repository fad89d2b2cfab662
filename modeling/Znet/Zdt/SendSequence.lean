import Znet.Zdt.SenderRuns

/-!
# No reliable sequence number without a message

`pack_message` takes a message's sequence number before it looks at the message's size.  A
reliable message that would need more than 255 fragments is then dropped: its number is
spent, nothing is sent or tracked under it, and the receiver waits for it for good.

* `sequence_accounted` — **in every run whose reliable messages need at most 255 fragments**
  every reliable sequence number below `rel_send` is accounted for.
-/

namespace Znet
namespace Zdt
namespace Transport

/-- Every record sent so far. -/
def sentRecords (t : Transport) : List PendingRecord := t.wire.flatMap Datagram.records

/-- The record is tracked, or the peer has acknowledged it. -/
def Known (t : Transport) (k : MsgKey) : Prop := t.unacked[k]? ≠ none ∨ k ∈ t.acked

/-- The key of a fragment of a reliable message. -/
def fragKey (c : BitVec 8) (seq i : Nat) : MsgKey :=
  { channel := c, reliable := true, fragIndex := BitVec.ofNat 8 i, messageSeq := seq }

/-- Each of the message's records is among `records`, and is tracked or acknowledged. -/
def Accounted (records : List PendingRecord) (t : Transport) (c : BitVec 8) (seq : Nat) : Prop :=
  ∃ n, 0 < n ∧ ∀ i < n, Known t (fragKey c seq i) ∧
    ∃ p ∈ records, p.key = fragKey c seq i ∧ p.record.fragCount.toNat = n

variable {t t' : Transport} {config : Config} {s : Packing}

theorem Accounted.mono {records records' : List PendingRecord} {c : BitVec 8} {seq : Nat}
    (h : Accounted records t c seq) (hrecords : ∀ p ∈ records, p ∈ records')
    (hknown : ∀ k, Known t k → Known t' k) : Accounted records' t' c seq := by
  obtain ⟨n, hn, hall⟩ := h
  refine ⟨n, hn, fun i hi => ?_⟩
  obtain ⟨hk, p, hp, hkey⟩ := hall i hi
  exact ⟨hknown _ hk, p, hrecords p hp, hkey⟩

/-! ## What the other changes leave -/

/-- Records are sent and tracked, nothing is forgotten, and the queues and the sequence
numbers stay as they are. -/
structure Grown (t t' : Transport) : Prop where
  config : t'.config = t.config
  channels : t'.channels = t.channels
  outbound : t'.outbound = t.outbound
  staged : t'.staged = t.staged
  records : ∀ p ∈ t.sentRecords, p ∈ t'.sentRecords
  known : ∀ k, Known t k → Known t' k

theorem Grown.refl (t : Transport) : Grown t t :=
  ⟨rfl, rfl, rfl, rfl, fun _ h => h, fun _ h => h⟩

theorem Grown.trans {t'' : Transport} (h : Grown t t') (h' : Grown t' t'') : Grown t t'' where
  config := h'.config.trans h.config
  channels := h'.channels.trans h.channels
  outbound := h'.outbound.trans h.outbound
  staged := h'.staged.trans h.staged
  records p hp := h'.records p (h.records p hp)
  known k hk := h'.known k (h.known k hk)

theorem grown_close (t : Transport) : Grown t t.close := by
  unfold close
  split
  · exact .refl t
  · exact ⟨rfl, rfl, rfl, rfl, fun p hp => by simpa [sentRecords] using hp, fun _ h => h⟩

theorem grown_retireSentPacket (t : Transport) (seq : WireSeq) :
    Grown t (t.retireSentPacket seq) := by
  unfold retireSentPacket
  split
  · exact .refl t
  · exact ⟨rfl, rfl, rfl, rfl, fun _ h => h, fun _ h => h⟩

theorem sendBatch_fst (t : Transport) (now : TimePoint) (flags : BitVec 8)
    (batch : List PendingRecord) :
    Grown t (t.sendBatch now flags batch).1 ∧
      ∀ p ∈ batch, p ∈ (t.sendBatch now flags batch).1.sentRecords := by
  have hretire := grown_retireSentPacket
    { t with nextPacketSeq := followingSeq t.nextPacketSeq } t.nextPacketSeq
  have hrecords : ∀ p, p ∈ (t.sendBatch now flags batch).1.sentRecords ↔
      p ∈ (retireSentPacket { t with nextPacketSeq := followingSeq t.nextPacketSeq }
        t.nextPacketSeq).sentRecords ∨ p ∈ batch := by
    intro p
    simp [sendBatch, sentRecords]
  exact ⟨{ hretire with records := fun p hp => (hrecords p).2 (.inl (hretire.records p hp)) },
    fun p hp => (hrecords p).2 (.inr hp)⟩

theorem known_insert {key k : MsgKey} (msg : OutReliable) (h : Known t k ∨ k = key) :
    Known { t with unacked := t.unacked.insert key msg } k := by
  unfold Known
  simp only [Keyed.getElem?_insert_eq]
  by_cases hk : k = key
  · exact .inl (by simp [hk])
  · rw [if_neg hk]
    exact h.resolve_right hk

theorem trackReliable_spec (t : Transport) (pace : Pace) (pending : PendingRecord) (offset : Nat)
    (log : TransmissionLog) :
    Grown t (t.trackReliable pace pending offset log) ∧
      Known (t.trackReliable pace pending offset log) pending.key :=
  ⟨⟨rfl, rfl, rfl, rfl, fun _ h => h, fun _ hk => known_insert _ (.inl hk)⟩,
    known_insert _ (.inr rfl)⟩

theorem grown_settle (t : Transport) (key : MsgKey) :
    Grown t { t with unacked := t.unacked.erase key, acked := t.acked ++ [key] } := by
  refine ⟨rfl, rfl, rfl, rfl, fun _ h => h, fun k hk => ?_⟩
  -- what leaves `unacked_` here is acknowledged
  by_cases heq : k = key
  · exact .inr (by simp [heq])
  · refine hk.imp (fun htracked => ?_) fun hacked => List.mem_append_left _ hacked
    rwa [Keyed.getElem?_erase_eq, if_neg heq]

theorem grown_tended (t : Transport) : Tended (fun _ => True) (Grown t) where
  same h hsame := h.trans ⟨hsame.config, hsame.channels, hsame.outbound, hsame.staged,
    fun p hp => by rwa [sentRecords, hsame.wire], fun k hk => by
      rwa [Known, hsame.unacked, hsame.acked]⟩
  close h := h.trans (grown_close _)
  sendBatch now flags batch _ h := h.trans (sendBatch_fst _ now flags batch).1
  trackReliable pace pending offset log _ _ h :=
    h.trans (trackReliable_spec _ pace pending offset log).1
  update _ _ h := h.trans ⟨rfl, rfl, rfl, rfl, fun _ hp => hp, fun _ hk => known_insert _ (.inl hk)⟩
  resent _ _ := trivial
  retireSentPacket seq h := h.trans (grown_retireSentPacket _ seq)
  settle key h := h.trans (grown_settle _ key)

/-! ## Packing one message -/

/-- The records sent so far, with those in the datagram being packed. -/
def Packing.records (s : Packing) : List PendingRecord := s.t.sentRecords ++ s.batch

variable (pace : Pace) (queued : QueuedOut) (c : BitVec 8)

/-- Flushing the batch puts its records on the wire. -/
theorem flushBatch_spec (s : Packing) :
    Grown s.t (flushBatch pace s).t ∧ (flushBatch pace s).batch = [] ∧
      ∀ p ∈ s.records, p ∈ (flushBatch pace s).t.sentRecords := by
  unfold flushBatch
  split
  · next hempty =>
    have hnil : s.batch = [] := List.isEmpty_iff.1 hempty
    exact ⟨.refl _, hnil, fun p hp => by simpa [Packing.records, hnil] using hp⟩
  · obtain ⟨hgrown, hbatch⟩ := sendBatch_fst s.t pace.now 0 s.batch
    have hlog : Grown (s.t.sendBatch pace.now 0 s.batch).1 (s.batch.foldl (fun t p =>
        if p.reliable then t.logPacket p.key (s.t.sendBatch pace.now 0 s.batch).2 else t)
        (s.t.sendBatch pace.now 0 s.batch).1) :=
      List.foldlRecOn (motive := Grown (s.t.sendBatch pace.now 0 s.batch).1) _ _ (.refl _)
        fun τ hτ p _ => by
          split
          · exact (grown_tended _).logPacket _ _ hτ
          · exact hτ
    refine ⟨hgrown.trans hlog, rfl, fun p hp => hlog.records p ?_⟩
    rcases List.mem_append.1 hp with hp | hp
    · exact hgrown.records p hp
    · exact hbatch p hp

/-- One fragment is sent, and tracked when it is reliable. -/
theorem sendFragment_spec (seq count i : Nat) (t : Transport) :
    Grown t (sendFragment pace queued c seq count t i) ∧
      (queued.reliable = true → Known (sendFragment pace queued c seq count t i) (fragKey c seq i) ∧
        ∃ p ∈ (sendFragment pace queued c seq count t i).sentRecords,
          p.key = fragKey c seq i ∧ p.record.fragCount = BitVec.ofNat 8 count) := by
  refine ⟨(grown_tended t).sendFragment pace queued c seq count i trivial (.refl t), fun hrel => ?_⟩
  unfold sendFragment
  dsimp only
  rw [if_pos hrel]
  have hkey : (fragmentRecord t.config queued c seq count i).key = fragKey c seq i := by
    simp [fragmentRecord, makeRecord, fragKey, hrel]
  obtain ⟨-, hsent⟩ := sendBatch_fst t pace.now 0 [fragmentRecord t.config queued c seq count i]
  obtain ⟨hgrown, hknown⟩ := trackReliable_spec
    (t.sendBatch pace.now 0 [fragmentRecord t.config queued c seq count i]).1 pace
    (fragmentRecord t.config queued c seq count i) (i * fragCapacity t.config)
    (makeLog (t.sendBatch pace.now 0 [fragmentRecord t.config queued c seq count i]).2)
  rw [hkey] at hknown
  exact ⟨hknown, _, hgrown.records _ (hsent _ List.mem_cons_self), hkey, rfl⟩

/-- All fragments of a message. -/
theorem sendFragments_spec (seq count n : Nat) (t : Transport) :
    Grown t ((List.range n).foldl (sendFragment pace queued c seq count) t) ∧
      (queued.reliable = true → ∀ i < n,
        Known ((List.range n).foldl (sendFragment pace queued c seq count) t) (fragKey c seq i) ∧
        ∃ p ∈ ((List.range n).foldl (sendFragment pace queued c seq count) t).sentRecords,
          p.key = fragKey c seq i ∧ p.record.fragCount = BitVec.ofNat 8 count) := by
  induction n with
  | zero => exact ⟨.refl t, fun _ i hi => absurd hi (Nat.not_lt_zero i)⟩
  | succ n ih =>
    rw [List.range_succ, List.foldl_append, List.foldl_cons, List.foldl_nil]
    obtain ⟨hgrown, hlast⟩ := sendFragment_spec pace queued c seq count n
      ((List.range n).foldl (sendFragment pace queued c seq count) t)
    refine ⟨ih.1.trans hgrown, fun hrel i hi => ?_⟩
    rcases Nat.lt_succ_iff_lt_or_eq.1 hi with hi | rfl
    · obtain ⟨hknown, p, hp, hkey⟩ := ih.2 hrel i hi
      exact ⟨hgrown.known _ hknown, p, hgrown.records p hp, hkey⟩
    · exact hlast hrel

/-- A message `pack_message` does not drop. -/
def Sendable (config : Config) (queued : QueuedOut) : Prop :=
  queued.reliable = true → fragmentCount config queued.payload.length ≤ 255

theorem fragmentCount_pos {total : Nat} (h : unfragCapacity config < total) :
    0 < fragmentCount config total := by
  have hcapacity : 0 < fragCapacity config := by
    simp only [fragCapacity, packMtu, kZDTHeaderReserve, kZDTHeaderSize, kZDTCidSize,
      kZDTAckBlocksReserved, kZDTAckBlockSize, kZDTFragRecordHeaderSize]
    omega
  unfold fragmentCount
  exact Nat.div_pos (by omega) hcapacity

/-- **Packing one message**, once its sequence number is taken: nothing is forgotten, and a
reliable message that is not dropped is accounted for. -/
theorem packMessage_spec (s : Packing) (queued : QueuedOut) (c : BitVec 8)
    (hsend : Sendable s.t.config queued) :
    Grown (s.t.takeSeq c queued.reliable).1 (packMessage pace s queued c).t ∧
      (∀ p ∈ s.records, p ∈ (packMessage pace s queued c).records) ∧
      (queued.reliable = true → Accounted (packMessage pace s queued c).records
        (packMessage pace s queued c).t c (s.t.channels c).relSend) := by
  have hseq : queued.reliable = true →
      (s.t.takeSeq c queued.reliable).2 = (s.t.channels c).relSend := by
    intro hrel
    simp [takeSeq, hrel]
  obtain ⟨hflush, hempty, hflushed⟩ := flushBatch_spec pace
    { s with t := (s.t.takeSeq c queued.reliable).1 }
  refine packMessage_of (P := fun s' => Grown (s.t.takeSeq c queued.reliable).1 s'.t ∧
    (∀ p ∈ s.records, p ∈ s'.records) ∧ (queued.reliable = true →
      Accounted s'.records s'.t c (s.t.channels c).relSend)) pace queued c rfl rfl
    (fun _ b hb => ?_) fun hbig n hn => ?_
  · -- the message shares a datagram; the batch is flushed first when it has no room
    obtain ⟨hgrown, hrecords⟩ :
        Grown (s.t.takeSeq c queued.reliable).1 b.t ∧ ∀ p ∈ s.records, p ∈ b.records := by
      rcases hb with rfl | ⟨rfl, -⟩
      · exact ⟨hflush, fun p hp => List.mem_append_left _ (hflushed p hp)⟩
      · exact ⟨.refl _, fun _ hp => hp⟩
    have htrack := trackReliable_spec b.t pace
      (wholeRecord queued c (s.t.takeSeq c queued.reliable).2) 0 {}
    refine ⟨?_, fun p hp => ?_, fun hrel => ⟨1, Nat.one_pos, fun i hi => ?_⟩⟩
    · dsimp only
      split
      · exact hgrown.trans htrack.1
      · exact hgrown
    · have hp := hrecords p hp
      simp only [Packing.records, List.mem_append] at hp ⊢
      rcases hp with hp | hp
      · refine .inl ?_
        split
        · exact htrack.1.records p hp
        · exact hp
      · exact .inr (.inl hp)
    · obtain rfl : i = 0 := by omega
      have hkey : (wholeRecord queued c (s.t.takeSeq c queued.reliable).2).key =
          fragKey c (s.t.channels c).relSend 0 := by
        simp [wholeRecord, makeRecord, fragKey, hrel, takeSeq]
      dsimp only
      rw [if_pos hrel]
      exact ⟨hkey ▸ htrack.2, _, List.mem_append_right _ (List.mem_append_right _
        List.mem_cons_self), hkey, rfl⟩
  · obtain ⟨hgrown, hall⟩ := sendFragments_spec pace queued c (s.t.takeSeq c queued.reliable).2
      (fragmentCount s.t.config queued.payload.length) n
      (flushBatch pace { s with t := (s.t.takeSeq c queued.reliable).1 }).t
    refine ⟨hflush.trans hgrown,
      fun p hp => List.mem_append_left _ (hgrown.records p (hflushed p hp)), fun hrel => ?_⟩
    have hfew := hsend hrel
    rw [if_neg (Nat.not_lt.2 hfew)] at hn
    rw [← hseq hrel]
    refine ⟨n, hn ▸ fragmentCount_pos (Nat.not_le.1 hbig), fun i hi => ?_⟩
    obtain ⟨hknown, p, hp, hkey, hcount⟩ := hall hrel i hi
    refine ⟨hknown, p, List.mem_append_left _ hp, hkey, ?_⟩
    rw [hcount, BitVec.toNat_ofNat, Nat.mod_eq_of_lt (by omega), hn]

/-! ## The invariant -/

/-- Every reliable number taken is accounted for, and what is queued will be. -/
structure Sequenced (s : Packing) : Prop where
  accounted : ∀ c seq, seq < (s.t.channels c).relSend → Accounted s.records s.t c seq
  outbound : ∀ queued ∈ s.t.outbound, Sendable s.t.config queued
  staged : ∀ lane ∈ s.t.staged, ∀ queued ∈ lane.messages, Sendable s.t.config queued

theorem Sequenced.grown {s' : Packing} (h : Sequenced s) (hgrown : Grown s.t s'.t)
    (hrecords : ∀ p ∈ s.records, p ∈ s'.records) : Sequenced s' where
  accounted c seq hseq :=
    (h.accounted c seq (hgrown.channels ▸ hseq)).mono hrecords hgrown.known
  outbound := by
    rw [hgrown.outbound, hgrown.config]
    exact h.outbound
  staged := by
    rw [hgrown.staged, hgrown.config]
    exact h.staged

theorem relSend_takeSeq (t : Transport) (c c' : BitVec 8) (reliable : Bool) :
    ((t.takeSeq c reliable).1.channels c').relSend =
      (t.channels c').relSend + if c' = c ∧ reliable = true then 1 else 0 := by
  by_cases hc : c' = c
  · subst hc
    cases reliable <;> simp [takeSeq]
  · simp [takeSeq, hc]

/-- **One message.** -/
theorem Sequenced.packMessage (h : Sequenced s) (pace : Pace) {queued : QueuedOut}
    (hsend : Sendable s.t.config queued) (c : BitVec 8) :
    Sequenced (Transport.packMessage pace s queued c) := by
  obtain ⟨hgrown, hrecords, hnew⟩ := packMessage_spec pace s queued c hsend
  refine ⟨fun c' seq hseq => ?_, ?_, ?_⟩
  · rw [hgrown.channels, relSend_takeSeq] at hseq
    by_cases hold : seq < (s.t.channels c').relSend
    · exact (h.accounted c' seq hold).mono hrecords hgrown.known
    · split at hseq
      · next heq =>
        obtain ⟨rfl, hrel⟩ := heq
        obtain rfl : seq = (s.t.channels c').relSend := by omega
        exact hnew hrel
      · exact absurd hseq (by omega)
  · rw [hgrown.outbound, hgrown.config]
    exact h.outbound
  · rw [hgrown.staged, hgrown.config]
    exact h.staged

/-! ## Flushing -/

/-- **Flushing** packs what is queued. -/
theorem sequenced_flushes : Flushes Sequenced where
  stage h :=
    have hwaits := Waits.stageOutbound { h with }
    { hwaits with accounted := h.accounted }
  rotate h := { h with }
  pack {s i lane _ rest} pace h hlane hmessages := by
    obtain ⟨hqueued, hwaits⟩ := Waits.serve { h with } hlane hmessages
    exact Sequenced.packMessage (s := { s with t := { s.t with
      staged := s.t.staged.set i { lane with messages := rest }
      stagedCount := s.t.stagedCount - 1 } }) { hwaits with accounted := h.accounted } pace
      hqueued _
  flush {s} pace h := by
    obtain ⟨hgrown, -, hrecords⟩ := flushBatch_spec pace s
    exact h.grown hgrown fun p hp => List.mem_append_left _ (hrecords p hp)

/-! ## Whole runs -/

/-- The application sends no reliable message that needs more than 255 fragments. -/
def SendsFit (t : Transport) : SenderEvent → Prop
  | .send queued => Sendable t.config queued
  | _ => True

instance (t : Transport) (e : SenderEvent) : Decidable (SendsFit t e) := by
  cases e with
  | send queued => exact inferInstanceAs (Decidable (_ → _))
  | _ => exact inferInstanceAs (Decidable True)

/-- A function that takes nothing from the queues. -/
theorem Sequenced.tended (h : Sequenced { t := t }) (hgrown : Grown t t') :
    Sequenced { t := t' } :=
  h.grown hgrown fun p hp => by
    simp only [Packing.records, List.append_nil] at hp ⊢
    exact hgrown.records p hp

/-- **One event.** -/
theorem Sequenced.handle (h : Sequenced { t := t }) {e : SenderEvent} (hok : SendsFit t e) :
    Sequenced { t := t.handle e } := by
  have htended := grown_tended t
  unfold Transport.handle
  split
  · exact h
  · cases e with
    | send queued =>
      simp only [Transport.send]
      split
      · exact h
      · split
        · exact h
        · have hwaits := Waits.accept { h with } hok
          exact { hwaits with accounted := h.accounted }
    | flush pace => exact sequenced_flushes.flushOutbound pace h
    | acks pace header => exact h.tended (htended.processAcks pace header (.refl t))
    | retransmit pace => exact h.tended (htended.resends.retransmitUnacked pace (.refl t))
    | probe pace => exact h.tended (htended.resends.maybeTailProbe pace (.refl t))
    | prune now => exact h.tended (htended.pruneSentPackets now (.refl t))
    | control now flags => exact h.tended (htended.sendBatch now flags [] (by simp) (.refl t))
    | close => exact h.tended (grown_close t)

theorem sequenced_run {es : List SenderEvent}
    (hrun : GuardedRun sender SendsFit { config := config } es t) : Sequenced { t := t } := by
  refine hrun.invariant (I := fun t => Sequenced { t := t }) (fun s e s' h hok hnext => ?_) ?_
  · obtain rfl : s.handle e = s' := Option.some.inj hnext
    exact h.handle hok
  · exact ⟨fun c seq hseq => absurd hseq (Nat.not_lt_zero seq), by simp, by simp⟩

/-- **No number without a message.**  In every run whose reliable messages need at most 255
fragments: every reliable sequence number below `rel_send` belongs to a message of one
record or more that have all been sent, one of them is still tracked or all of them were
acknowledged. -/
theorem sequence_accounted (config : Config) (es : List SenderEvent) (t : Transport)
    (hrun : GuardedRun sender SendsFit { config := config } es t) (c : BitVec 8) (seq : Nat)
    (hseq : seq < (t.channels c).relSend) :
    ∃ n, 0 < n ∧
      (∀ i < n, ∃ p ∈ t.sentRecords, p.key = fragKey c seq i ∧ p.record.fragCount.toNat = n) ∧
      ((∃ i < n, t.unacked[fragKey c seq i]? ≠ none) ∨ ∀ i < n, fragKey c seq i ∈ t.acked) := by
  obtain ⟨n, hn, hall⟩ := (sequenced_run hrun).accounted c seq hseq
  refine ⟨n, hn, fun i hi => ?_, ?_⟩
  · obtain ⟨-, p, hp, hkey⟩ := hall i hi
    exact ⟨p, by simpa [Packing.records] using hp, hkey⟩
  · by_cases htracked : ∃ i < n, t.unacked[fragKey c seq i]? ≠ none
    · exact .inl htracked
    · refine .inr fun i hi => (hall i hi).1.resolve_left fun h => htracked ⟨i, hi, h⟩

/-- A message of one record and one of two fragments, in three datagrams, of which the first two are
acknowledged. -/
def acknowledgedInPart : List SenderEvent :=
  [.send { payload := [1] }, .send { payload := List.replicate 20 0 }, .flush calm,
    .acks calm { ack := 2, blocks := [⟨2, 0⟩] }]

theorem sequence_accounted_in_part :
    ∃ t, GuardedRun sender SendsFit { config := { mtu := 40 } } acknowledgedInPart t ∧
      t.acked = [fragKey 0 1 0, fragKey 0 0 0] ∧ t.unacked.keys = [fragKey 0 1 1] ∧
      ∃ n, 0 < n ∧
        (∀ i < n, ∃ p ∈ t.sentRecords, p.key = fragKey 0 1 i ∧ p.record.fragCount.toNat = n) ∧
        ((∃ i < n, t.unacked[fragKey 0 1 i]? ≠ none) ∨ ∀ i < n, fragKey 0 1 i ∈ t.acked) := by
  apply GuardedRun.exists_run (P := fun t => t.acked = [fragKey 0 1 0, fragKey 0 0 0] ∧
    t.unacked.keys = [fragKey 0 1 1] ∧ 1 < (t.channels 0).relSend) (by decide +kernel)
  rintro t hrun ⟨hacked, hkeys, hseq⟩
  exact ⟨hacked, hkeys, sequence_accounted _ _ t hrun 0 1 hseq⟩

/-- **A number without a message.**  At the smallest datagrams a message of 256 bytes needs 256
fragments: its number is taken, and nothing is sent or tracked. -/
theorem oversized_message_leaves_hole :
    ((sender.exec { config := { mtu := 31 } }
      [.send { payload := List.replicate 256 0 }, .flush calm]).map fun t =>
        ((t.channels 0).relSend, t.unacked.size, t.acked, t.wire.length)) = some (1, 0, [], 0) := by
  decide +kernel

end Transport
end Zdt
end Znet

import Znet.Lib.Tally
import Znet.Zdt.Endpoint

/-!
# Datagrams in flight

`in_flight_datagrams_` is what the congestion window is compared with: the number of datagrams that
carried reliable records and are still tracked in `sent_packets_`.  An entry goes when it is
acknowledged or reported lost, when a message it carried is acknowledged through another datagram,
when it is too old, and when its number comes round again.

* `in_flight_accounted` — **in every run** the count is right, packet number 0 is left to the FIN of
  `Close`, and each entry lists exactly the reliable records of its datagram.
-/

namespace Znet
namespace Zdt

/-- What an entry adds to `in_flight_datagrams_`. -/
def SentInfo.carrying (info : SentInfo) : Nat := if 0 < info.keys.length then 1 else 0

namespace Transport

open Tally

/-! ## The records of a datagram -/

/-- The keys of the reliable records among them. -/
def reliableKeys (records : List PendingRecord) : List MsgKey :=
  (records.filter PendingRecord.reliable).map PendingRecord.key

theorem batchKeys_cons (pending : PendingRecord) (records : List PendingRecord) (info : SentInfo) :
    batchKeys (pending :: records) info =
      batchKeys records (if pending.reliable then info.add pending.key else info) := rfl

theorem keys_batchKeys_append (records : List PendingRecord) (info : SentInfo)
    (hroom : info.keys.length + records.length ≤ kMaxKeys) :
    (batchKeys records info).keys = info.keys ++ reliableKeys records := by
  induction records generalizing info with
  | nil => simp [batchKeys, reliableKeys]
  | cons pending records ih =>
    rw [List.length_cons] at hroom
    rw [batchKeys_cons]
    cases hrel : pending.reliable with
    | false =>
      rw [if_neg Bool.false_ne_true, ih info (by omega)]
      simp [reliableKeys, hrel]
    | true =>
      have hadd : (info.add pending.key).keys = info.keys ++ [pending.key] := by
        unfold SentInfo.add
        rw [if_pos (by omega)]
      rw [if_pos rfl, ih, hadd, List.append_assoc]
      · simp [reliableKeys, hrel]
      · rw [hadd, List.length_append, List.length_singleton]
        omega

/-- `SentInfo::Add` drops nothing of a batch that is no larger than it can list. -/
theorem keys_batchKeys {records : List PendingRecord} (hsize : records.length ≤ kMaxKeys)
    (now : TimePoint) : (batchKeys records { sendTime := now }).keys = reliableKeys records := by
  rw [keys_batchKeys_append records { sendTime := now } (by simpa using hsize), List.nil_append]

/-- The last datagram sent under a number. -/
def lastUnder (wire : List Datagram) (seq : WireSeq) : Option Datagram :=
  (wire.filter fun d => d.header.packetSeq == seq).getLast?

theorem lastUnder_concat (wire : List Datagram) (d : Datagram) (seq : WireSeq) :
    lastUnder (wire ++ [d]) seq =
      if d.header.packetSeq = seq then some d else lastUnder wire seq := by
  unfold lastUnder
  rw [List.filter_append]
  by_cases h : d.header.packetSeq = seq
  · simp [h]
  · simp [h]

/-! ## The invariant -/

/-- The datagram `Close` writes by hand. -/
def finDatagram (config : Config) : Datagram where
  header :=
    { flags := kFlagOnline ||| kFlagFin ||| (if config.migrationEnabled then kFlagHasCid else 0)
      cid := if config.migrationEnabled then config.localGuid else 0 }
  records := []

/-- What is tracked is what was sent, and counted. -/
structure Tracks (c : Config) (t : Transport) : Prop where
  config : t.config = c
  next : t.nextPacketSeq ≠ 0
  flight : t.inFlightDatagrams = total SentInfo.carrying t.sentPackets
  entry : ∀ (seq : WireSeq) (info : SentInfo), t.sentPackets[seq]? = some info →
    seq ≠ 0 ∧ ∃ d, lastUnder t.wire seq = some d ∧ info.keys = reliableKeys d.records
  small : ∀ d ∈ t.wire, d.records.length ≤ kMaxKeys
  unnumbered : (t.wire.filter fun d => d.header.packetSeq == 0) =
    if t.isClosed then [finDatagram c] else []

section Tracks

variable {c : Config} {t : Transport}

/-- Nothing the invariant reads has changed. -/
theorem Tracks.same (h : Tracks c t) {t' : Transport} (hconfig : t'.config = t.config)
    (hnext : t'.nextPacketSeq ≠ 0) (hclosed : t'.isClosed = t.isClosed)
    (hsent : t'.sentPackets = t.sentPackets) (hflight : t'.inFlightDatagrams = t.inFlightDatagrams)
    (hwire : t'.wire = t.wire) : Tracks c t' := by
  refine ⟨hconfig.trans h.config, hnext, ?_, ?_, ?_, ?_⟩
  · rw [hflight, hsent]
    exact h.flight
  · rw [hsent, hwire]
    exact h.entry
  · rw [hwire]
    exact h.small
  · rw [hwire, hclosed]
    exact h.unnumbered

/-- **An entry is retired.** -/
theorem Tracks.retireSentPacket (h : Tracks c t) (seq : WireSeq) :
    Tracks c (t.retireSentPacket seq) := by
  unfold Transport.retireSentPacket
  cases hinfo : t.sentPackets[seq]? with
  | none => exact h
  | some info =>
    have hflight := h.flight
    rw [total_of_getElem? hinfo] at hflight
    refine { h with flight := ?_, entry := ?_ }
    · -- an entry with keys was counted, so the guard never hides anything
      dsimp only
      unfold SentInfo.carrying at hflight
      split at hflight
      · rw [if_pos ⟨‹_›, by omega⟩]
        unfold SentInfo.carrying
        omega
      · rw [if_neg fun hboth => absurd hboth.1 ‹_›]
        unfold SentInfo.carrying
        omega
    · intro seq' info' hinfo'
      dsimp only at hinfo'
      rw [Keyed.getElem?_erase_eq] at hinfo'
      split at hinfo'
      · cases hinfo'
      · exact h.entry seq' info' hinfo'

/-- The number of the header `SendBatch` writes. -/
theorem packetSeq_batchHeader (t : Transport) (flags : BitVec 8) (batch : List PendingRecord) :
    (t.batchHeader flags batch).packetSeq = t.nextPacketSeq := by
  unfold batchHeader
  rw [ZDTAckHistory.fill_packetSeq]

/-- **A datagram is sent.** -/
theorem Tracks.sendBatch (h : Tracks c t) (now : TimePoint) (flags : BitVec 8)
    {batch : List PendingRecord} (hbatch : batch.length ≤ kMaxKeys) :
    Tracks c (t.sendBatch now flags batch).1 := by
  -- the number may still be tracked from its last time round
  have hmoved : Tracks c { t with nextPacketSeq := followingSeq t.nextPacketSeq } :=
    h.same rfl (followingSeq_ne_zero _) rfl rfl rfl rfl
  have hretired := hmoved.retireSentPacket t.nextPacketSeq
  have hfree : (Transport.retireSentPacket { t with nextPacketSeq := followingSeq t.nextPacketSeq }
      t.nextPacketSeq).sentPackets[t.nextPacketSeq]? = none := by
    rw [sentPackets_retireSentPacket, if_pos rfl]
  have hseq := packetSeq_batchHeader t flags batch
  unfold Transport.sendBatch
  dsimp only
  generalize Transport.retireSentPacket { t with nextPacketSeq := followingSeq t.nextPacketSeq }
    t.nextPacketSeq = r at hretired hfree ⊢
  have hkeys := keys_batchKeys hbatch now
  generalize batchKeys batch { sendTime := now } = info at hkeys ⊢
  refine ⟨hretired.config, hretired.next, ?_, ?_, ?_, ?_⟩
  · dsimp only
    rw [total_insert, total_erase_of_none hfree, ← hretired.flight]
    unfold SentInfo.carrying
    split <;> omega
  · intro seq' info' hinfo'
    dsimp only at hinfo' ⊢
    rw [Keyed.getElem?_insert_eq] at hinfo'
    rw [lastUnder_concat, hseq]
    split at hinfo'
    · next hsame =>
      obtain rfl := Option.some.inj hinfo'
      rw [if_pos hsame.symm]
      exact ⟨hsame ▸ h.next, _, rfl, hkeys⟩
    · next hother =>
      rw [if_neg (Ne.symm hother)]
      exact hretired.entry seq' info' hinfo'
  · exact List.forall_mem_append.2 ⟨hretired.small, List.forall_mem_singleton.2 hbatch⟩
  · dsimp only
    have hskip : ((t.batchHeader flags batch).packetSeq == 0) = false := by
      rw [hseq]
      exact beq_false_of_ne h.next
    rw [List.filter_append, List.filter_singleton, hskip, ← hretired.unnumbered]
    exact List.append_nil _

/-- **The FIN**, which nothing is tracked under. -/
theorem Tracks.close (h : Tracks c t) : Tracks c t.close := by
  unfold Transport.close
  split
  · exact h
  next hopen =>
  refine ⟨h.config, h.next, h.flight, ?_, ?_, ?_⟩
  · intro seq info hinfo
    obtain ⟨hne, d, hd, hkeys⟩ := h.entry seq info hinfo
    refine ⟨hne, d, ?_, hkeys⟩
    dsimp only
    rw [lastUnder_concat, if_neg (Ne.symm hne)]
    exact hd
  · exact List.forall_mem_append.2 ⟨h.small, List.forall_mem_singleton.2 (Nat.zero_le _)⟩
  · dsimp only
    rw [List.filter_append, h.unnumbered, if_neg hopen, h.config]
    rfl

theorem tracks_resends : Resends (Tracks c) where
  same h hsame := h.same hsame.config (hsame.nextPacketSeq ▸ h.next) hsame.isClosed
    hsame.sentPackets hsame.inFlightDatagrams hsame.wire
  update _ _ h := h.same rfl h.next rfl rfl rfl rfl
  retireSentPacket seq h := h.retireSentPacket seq
  settle _ h := h.same rfl h.next rfl rfl rfl rfl
  close h := h.close
  resend now h _ := h.sendBatch now 0 (by simp [kMaxKeys])

/-! ## Packing -/

/-- While a datagram is packed it holds no more records than can be listed. -/
structure Loaded (c : Config) (s : Packing) : Prop where
  tracks : Tracks c s.t
  batch : s.batch.length ≤ kMaxKeys

theorem Loaded.empty (h : Tracks c t) : Loaded c { t := t } := ⟨h, Nat.zero_le _⟩

variable {s : Packing}

theorem Loaded.flushBatch (h : Loaded c s) (pace : Pace) : Loaded c (flushBatch pace s) := by
  refine ⟨tracks_resends.flushBatch pace (fun _ => h.tracks) fun _ => ?_, ?_⟩
  · exact h.tracks.sendBatch pace.now 0 h.batch
  · rw [batch_flushBatch]
    exact Nat.zero_le _

theorem Tracks.trackReliable (h : Tracks c t) (pace : Pace) (pending : PendingRecord) (offset : Nat)
    (log : TransmissionLog) : Tracks c (t.trackReliable pace pending offset log) :=
  h.same rfl h.next rfl rfl rfl rfl

theorem Tracks.sendFragment (h : Tracks c t) (pace : Pace) (queued : QueuedOut) (channel : BitVec 8)
    (seq count i : Nat) : Tracks c (sendFragment pace queued channel seq count t i) := by
  have hsent := h.sendBatch pace.now 0
    (show [fragmentRecord t.config queued channel seq count i].length ≤ kMaxKeys by simp [kMaxKeys])
  unfold Transport.sendFragment
  dsimp only
  split
  · exact hsent.trackReliable _ _ _ _
  · exact hsent

/-- **One message.** -/
theorem Loaded.packMessage (h : Loaded c s) (pace : Pace) (queued : QueuedOut)
    (channel : BitVec 8) :
    Loaded c (packMessage pace s queued channel) := by
  have hseq : Loaded c { s with t := (s.t.takeSeq channel queued.reliable).1 } :=
    ⟨h.tracks.same rfl h.tracks.next rfl rfl rfl rfl, h.batch⟩
  have hflushed := hseq.flushBatch pace
  have hempty := batch_flushBatch pace { s with t := (s.t.takeSeq channel queued.reliable).1 }
  refine packMessage_of pace queued channel rfl rfl (fun _ s' hs' => ?_) fun _ n _ => ?_
  · -- a full batch is sent before the record is put behind it
    obtain ⟨htracks, hroom⟩ : Tracks c s'.t ∧ s'.batch.length < kMaxKeys := by
      rcases hs' with rfl | ⟨rfl, hroom⟩
      · refine ⟨hflushed.tracks, ?_⟩
        rw [hempty]
        decide
      · exact ⟨hseq.tracks, Nat.lt_of_not_le (not_or.1 hroom).2⟩
    constructor
    · dsimp only
      split
      · exact htracks.trackReliable _ _ _ _
      · exact htracks
    · rw [List.length_append, List.length_singleton]
      exact hroom
  · refine ⟨List.foldlRecOn (motive := Tracks c) _ _ hflushed.tracks ?_, hflushed.batch⟩
    intro t ht i _
    exact ht.sendFragment pace queued channel _ _ i

end Tracks

/-- **Every change** of the send path. -/
theorem tracks_upholds (c : Config) : Upholds (fun _ => True) (fun _ => True) (Loaded c) where
  resends :=
    { same := fun h hsame => .empty (tracks_resends.same h.tracks hsame)
      update := fun hmsg hsame h => .empty (tracks_resends.update hmsg hsame h.tracks)
      retireSentPacket := fun seq h => .empty (h.tracks.retireSentPacket seq)
      settle := fun key h => .empty (tracks_resends.settle key h.tracks)
      close := fun h => .empty h.tracks.close
      resend := fun now h hmsg => .empty (tracks_resends.resend now h.tracks hmsg) }
  flushes :=
    { stage := fun h => ⟨h.tracks.same rfl h.tracks.next rfl rfl rfl rfl, h.batch⟩
      rotate := fun h => ⟨h.tracks.same rfl h.tracks.next rfl rfl rfl rfl, h.batch⟩
      pack := by
        intro s i lane queued rest pace h _ _
        apply Loaded.packMessage
        exact ⟨h.tracks.same rfl h.tracks.next rfl rfl rfl rfl, h.batch⟩
      flush := fun pace h => .empty (h.flushBatch pace).tracks }
  accept _ h := .empty (h.tracks.same rfl h.tracks.next rfl rfl rfl rfl)
  control now _ _ h := .empty (h.tracks.sendBatch now _ (Nat.zero_le _))

/-! ## Whole runs -/

theorem tracks_run {config : Config} {es : List SenderEvent} {t : Transport}
    (hrun : sender.exec { config := config } es = some t) : Tracks config t := by
  have hstart : Loaded config { t := { config := config } } := by
    refine .empty ⟨rfl, show (1 : WireSeq) ≠ 0 by decide, ?_, ?_, by simp, rfl⟩
    · rw [total_empty]
    · intro seq info hinfo
      simp at hinfo
  refine (sender.exec_invariant (I := fun t => Loaded config { t := t }) ?_ hrun hstart).tracks
  intro s e s' hs hstep
  rw [← Option.some.inj hstep]
  exact (tracks_upholds config).handle (fun _ _ _ => trivial) (fun _ _ _ => trivial) hs

theorem total_carrying (m : Std.ExtTreeMap WireSeq SentInfo) :
    total SentInfo.carrying m = m.toList.countP fun entry => decide (0 < entry.2.keys.length) := by
  unfold total SentInfo.carrying
  induction m.toList with
  | nil => rfl
  | cons entry rest ih =>
    rw [List.map_cons, List.sum_cons, ih, List.countP_cons, Nat.add_comm]
    simp

/-- **The datagrams in flight.**  After every run of a sender, whatever was queued, sent, resent,
probed, acknowledged, reported lost and pruned in it, and however often packet numbers came round:

* `in_flight_datagrams_` is the number of tracked datagrams that list reliable records;
* the only datagram with packet number 0 is the FIN of `Close`, if the transport was closed;
* an entry of `sent_packets_` lists exactly the reliable records of the last datagram sent under its
  number;
* for every datagram ever sent, what `SendBatch` filed is all of its reliable records. -/
theorem in_flight_accounted (config : Config) (es : List SenderEvent) (t : Transport)
    (hrun : sender.exec { config := config } es = some t) :
    t.inFlightDatagrams =
        (t.sentPackets.toList.countP fun entry => decide (0 < entry.2.keys.length)) ∧
      (t.wire.filter fun d => d.header.packetSeq == 0) =
        (if t.isClosed then [finDatagram config] else []) ∧
      (∀ (seq : WireSeq) (info : SentInfo), t.sentPackets[seq]? = some info →
        ∃ d, lastUnder t.wire seq = some d ∧ info.keys = reliableKeys d.records) ∧
      ∀ d ∈ t.wire, ∀ now, (batchKeys d.records { sendTime := now }).keys =
        reliableKeys d.records := by
  have h := tracks_run hrun
  refine ⟨?_, ?_, ?_, ?_⟩
  · rw [h.flight, total_carrying]
  · exact h.unnumbered
  · intro seq info hinfo
    exact (h.entry seq info hinfo).2
  · intro d hd now
    exact keys_batchKeys (h.small d hd) now

/-- Two messages in one datagram, a bare acknowledgement, and the peer's report on the first. -/
def reportedRun : List SenderEvent :=
  [.send { payload := [1] }, .send { payload := [2], reliable := false },
    .flush calm, .control 1 0, .send { payload := [3] }, .flush { calm with now := 2 },
    .acks { calm with now := 3 } { packetSeq := 7, ack := 1, blocks := [⟨1, 0⟩] }]

theorem in_flight_accounted_reported :
    ∃ t, sender.exec { config := {} } reportedRun = some t ∧ t.inFlightDatagrams = 1 ∧
      t.inFlightDatagrams =
        (t.sentPackets.toList.countP fun entry => decide (0 < entry.2.keys.length)) := by
  apply Machine.exists_exec (P := fun t : Transport => t.inFlightDatagrams = 1) (by decide +kernel)
  intro t hrun hone
  exact ⟨hone, (in_flight_accounted {} reportedRun t hrun).1⟩

end Transport
end Zdt
end Znet

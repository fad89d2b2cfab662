import Znet.Zdt.SenderRuns

/-!
# Does a header retire everything it reports?

A header is complete for a sender when, after `ProcessAcks`, no record is left in `unacked_`
that was carried by a datagram the header reports as received and the sender still tracked
(`Complete`).  It is not always: a record that was sent again takes its first datagram out
of `sent_packets_` when the second one is acknowledged first, and with it the other records
of that datagram (`probe_orphans_neighbour`).

* `acks_complete_iff` — a reachable sender is complete for every header **if and only if**
  it is separate for every header.
-/

namespace Znet
namespace Zdt
namespace Transport

/-! ## The order of the walk -/

/-- The blocks a header has room for. -/
def Fits (header : ZDTHeader) : Prop := header.blocks.length ≤ kZDTMaxAckBlocks

theorem nodup_reported (header : ZDTHeader) : ((reported header).map Prod.fst).Nodup := by
  have hblocks : ∀ r ∈ header.blocks.map (fun b => (b.numAck.toNat, b.numNack.toNat)),
      r.1 ≤ 255 ∧ r.2 ≤ 255 := by
    intro r hr
    obtain ⟨b, -, rfl⟩ := List.mem_map.1 hr
    have h₁ := b.numAck.isLt
    have h₂ := b.numNack.isLt
    exact ⟨by simp only; omega, by simp only; omega⟩
  have hlen := RunLength.length_decodeRuns_le kZDTAckHistoryBits 255 _ hblocks 0
  have hpos := RunLength.map_fst_decodeRuns kZDTAckHistoryBits
    (header.blocks.map fun b => (b.numAck.toNat, b.numNack.toNat)) 0
  rw [← ackWalk] at hlen hpos
  have hmap : (reported header).map Prod.fst =
      ((ackWalk header).map Prod.fst).map fun n => header.ack - BitVec.ofNat 16 n := by
    simp [reported, Function.comp_def]
  rw [hmap, hpos]
  refine List.Nodup.map_on (fun a ha b hb heq => ?_) List.nodup_range'
  rw [List.mem_range'_1] at ha hb
  have hnat := congrArg BitVec.toNat heq
  simp only [BitVec.toNat_sub, BitVec.toNat_ofNat] at hnat
  simp only [kZDTAckHistoryBits] at hlen
  have hack := header.ack.isLt
  omega

/-- Every initial part of what a header reports is what another header reports. -/
theorem exists_reported_eq {header : ZDTHeader} (hfits : Fits header)
    {pre post : List (WireSeq × Bool)} (h : reported header = pre ++ post) :
    ∃ header', Fits header' ∧ reported header' = pre := by
  obtain ⟨runs, hruns, hlen, hle⟩ := RunLength.exists_decodeRuns_eq_take kZDTAckHistoryBits
    (header.blocks.map fun b => (b.numAck.toNat, b.numNack.toNat)) pre.length 0
  have hback : (runs.map fun r => (⟨BitVec.ofNat 8 r.1, BitVec.ofNat 8 r.2⟩ : ZDTAckBlock)).map
      (fun b => (b.numAck.toNat, b.numNack.toNat)) = runs := by
    rw [List.map_map]
    refine (List.map_congr_left fun r hr => ?_).trans (List.map_id runs)
    obtain ⟨r₀, hr₀, h₁, h₂⟩ := hle r hr
    obtain ⟨b, -, rfl⟩ := List.mem_map.1 hr₀
    have hb₁ := b.numAck.isLt
    have hb₂ := b.numNack.isLt
    simp only at h₁ h₂
    simp only [Function.comp, BitVec.toNat_ofNat, id]
    rw [Nat.mod_eq_of_lt (by omega), Nat.mod_eq_of_lt (by omega)]
  refine ⟨{ header with blocks := runs.map fun r => ⟨BitVec.ofNat 8 r.1, BitVec.ofNat 8 r.2⟩ },
    ?_, ?_⟩
  · simpa [Fits] using hlen.trans (by simpa [Fits] using hfits)
  · show (ackWalk _).map _ = pre
    rw [ackWalk, hback, hruns, List.map_take]
    show (reported header).take pre.length = pre
    rw [h, List.take_left]

/-! ## Complete headers -/

/-- A record of a tracked datagram that the entries report as received. -/
def CarriedIn (σ : Transport) (entries : List (WireSeq × Bool)) (k : MsgKey) : Prop :=
  ∃ r : WireSeq, (r, true) ∈ entries ∧ ∃ info : SentInfo,
    σ.sentPackets[r]? = some info ∧ k ∈ info.keys

/-- After the walk none of the records it reports is left. -/
def Complete (σ : Transport) (entries : List (WireSeq × Bool)) : Prop :=
  ∀ k, CarriedIn σ entries k → (σ.walk entries).unacked[k]? = none

/-- When a datagram `q` is met whose number is in the log of an unacknowledged record carried
by datagrams met before, then so are all the unacknowledged records of `q`. -/
def Separate (σ : Transport) (entries : List (WireSeq × Bool)) : Prop :=
  ∀ (pre post : List (WireSeq × Bool)) (q : WireSeq) (info : SentInfo),
    entries = pre ++ (q, true) :: post → σ.sentPackets[q]? = some info →
    (∃ (k : MsgKey) (msg : OutReliable), CarriedIn σ pre k ∧ σ.unacked[k]? = some msg ∧
      q ∈ msg.packets.entries) →
    ∀ k ∈ info.keys, σ.unacked[k]? ≠ none → CarriedIn σ pre k

variable {k : MsgKey} {τ σ : Transport} {q : WireSeq} {entries : List (WireSeq × Bool)}

/-- Acknowledging a tracked datagram retires its records. -/
theorem unacked_foldl_retireMessage (r : WireSeq) (keys : List MsgKey) (τ : Transport)
    (h : k ∈ keys ∨ τ.unacked[k]? = none) :
    (keys.foldl (Transport.retireMessage r) τ).unacked[k]? = none := by
  induction keys generalizing τ with
  | nil => exact h.resolve_left List.not_mem_nil
  | cons key keys ih =>
    refine ih _ ?_
    have herase : (Transport.retireMessage r τ key).unacked[k]? =
        if k = key then none else τ.unacked[k]? := by
      cases hkey : τ.unacked[key]? with
      | none =>
        rw [retireMessage_of_none r hkey]
        split
        · next heq => rw [heq, hkey]
        · rfl
      | some msg =>
        rw [retireMessage_of_some r hkey]
        exact Keyed.getElem?_erase_eq
    rw [herase]
    rcases h with hmem | hnone
    · rcases List.mem_cons.1 hmem with rfl | hmem
      · exact .inr (if_pos rfl)
      · exact .inl hmem
    · exact .inr (by rw [hnone, ite_self])

theorem unacked_visit {info : SentInfo} (hzero : q ≠ 0) (hinfo : τ.sentPackets[q]? = some info)
    (hk : k ∈ info.keys) :
    (τ.visit (q, true)).unacked[k]? = none := by
  rw [visit, if_pos rfl, ackPacket, if_neg hzero, hinfo]
  show (Transport.retireSentPacket _ q).unacked[k]? = none
  rw [unacked_retireSentPacket]
  exact unacked_foldl_retireMessage q info.keys τ (.inl hk)

/-- A datagram that is not tracked changes nothing. -/
theorem visit_of_none (h : τ.sentPackets[q]? = none) :
    τ.visit (q, true) = τ := by
  rw [visit, if_pos rfl, ackPacket]
  split
  · rfl
  · rw [h]

theorem walk_append_singleton (σ : Transport) (pre : List (WireSeq × Bool))
    (entry : WireSeq × Bool) : σ.walk (pre ++ [entry]) = (σ.walk pre).visit entry := by
  rw [walk, List.foldl_append]
  rfl

/-- **Enough.**  By induction along the walk: a datagram that is no longer tracked when it is
met was retired through the log of a record met before, so all its records were. -/
theorem Separate.complete (hσ : Numbered σ) (hnodup : (entries.map Prod.fst).Nodup)
    (h : Separate σ entries) : Complete σ entries := by
  suffices hpre : ∀ pre post, entries = pre ++ post → Complete σ pre from
    hpre entries [] (by simp)
  intro pre
  induction pre using List.reverseRecOn with
  | nil =>
    rintro post - k ⟨r, hr, -⟩
    cases hr
  | append_singleton pre entry ih =>
    intro post heq k hk
    have heq' : entries = pre ++ entry :: post := by rw [heq]; simp
    have hdone := ih (entry :: post) heq'
    have hwalked := walked_walk σ pre
    have hstill : ∀ k : MsgKey, (σ.walk pre).unacked[k]? = none →
        ((σ.walk pre).visit entry).unacked[k]? = none :=
      fun k hnone => ((Walked.refl (σ.walk pre)).visit entry).unacked_none hnone
    rw [walk_append_singleton]
    obtain ⟨r, hr, info, hinfo, hkey⟩ := hk
    rcases List.mem_append.1 hr with hr | hr
    · exact hstill k (hdone k ⟨r, hr, info, hinfo, hkey⟩)
    · obtain rfl : (r, true) = entry := by simpa using hr
      have hzero : r ≠ 0 := by
        rintro rfl
        rw [hσ.sentinel] at hinfo
        cases hinfo
      cases hsent : (σ.walk pre).sentPackets[r]? with
      | some info' =>
        obtain rfl : info' = info := Option.some.inj ((hwalked.sent r info' hsent).symm.trans hinfo)
        exact unacked_visit hzero hsent hkey
      | none =>
        refine hstill k ?_
        cases hunacked : σ.unacked[k]? with
        | none => exact hwalked.unacked_none hunacked
        | some msg =>
          rcases hwalked.gone r info hinfo hsent with hmet | ⟨k', msg', hk', hgone, hlog⟩
          · rw [heq', List.map_append, List.map_cons] at hnodup
            exact absurd rfl ((List.nodup_append.1 hnodup).2.2 r hmet r List.mem_cons_self)
          · exact hdone k (h pre post r info heq' hinfo
              ⟨k', msg', hwalked.carried k' msg' hk' hgone, hk', hlog⟩ k hkey
              (by rw [hunacked]; simp))

/-- **Needed.**  If every initial part of a walk is complete, the record whose log names `q`
is retired before `q` is met, and `q` with it; so what is left of `q` was met before. -/
theorem separate_of_complete (h : ∀ pre post, entries = pre ++ post → Complete σ pre) :
    Separate σ entries := by
  rintro pre post q info heq hinfo ⟨k', msg', hcarried, hk', hlog⟩ k hkey hunacked
  have hwalked := walked_walk σ pre
  have hgone := h pre _ heq k' hcarried
  have hnone := hwalked.logged k' msg' hk' hgone q hlog (by simp)
  have hfull := h (pre ++ [(q, true)]) post (by rw [heq]; simp) k
    ⟨q, by simp, info, hinfo, hkey⟩
  rw [walk_append_singleton, visit_of_none hnone] at hfull
  obtain ⟨msg, hmsg⟩ := Option.ne_none_iff_exists'.1 hunacked
  exact hwalked.carried k msg hmsg hfull

/-- **When a header retires everything it reports.**  For every reachable sender: after
`ProcessAcks` no record is left that a reported and tracked datagram carried, whatever the
header, if and only if every header meets the records of a datagram no later than a record
whose log names it. -/
theorem acks_complete_iff {σ : Transport} (hσ : Reachable σ) (pace : Pace) :
    (∀ header, Fits header → ∀ k, CarriedIn σ (reported header) k →
      (σ.processAcks pace header).unacked[k]? = none) ↔
    ∀ header, Fits header → Separate σ (reported header) := by
  constructor
  · intro h header hfits
    refine separate_of_complete fun pre post heq k hk => ?_
    obtain ⟨header', hfits', rfl⟩ := exists_reported_eq hfits heq
    rw [← unacked_processAcks σ pace header']
    exact h header' hfits' k hk
  · intro h header hfits k hk
    rw [unacked_processAcks]
    exact (h header hfits).complete hσ.numbered (nodup_reported header) k hk

/-! ## A probe that orphans a record -/

/-- A round trip of 200 ms and an open window. -/
def paceAt (now : TimePoint) : Pace := { calm with now }

/-- Two small messages leave in one datagram, and the probe sends the second one again. -/
def probedSender : List SenderEvent :=
  [.send { payload := [1] }, .send { payload := [2] }, .flush (paceAt 0), .probe (paceAt 100)]

/-- It is not separate: a header that reports both datagrams leaves a record. -/
theorem acks_complete_iff_probed :
    ∃ σ, sender.exec {} probedSender = some σ ∧
      ¬ ∀ header, Fits header → Separate σ (reported header) := by
  apply Machine.exists_exec (P := fun σ : Transport =>
    ((σ.sentPackets[(1 : WireSeq)]?).any fun info => info.keys.contains { reliable := true }) =
      true ∧
      (σ.processAcks (paceAt 120) { ack := 2, blocks := [⟨2, 0⟩] }).unacked.contains
        { reliable := true } = true) (by decide +kernel)
  rintro σ hrun ⟨hcarried, hleft⟩ hseparate
  obtain ⟨info, hinfo, hkey⟩ := (Option.any_eq_true _ _).1 hcarried
  have hnone := (acks_complete_iff ⟨{}, _, hrun⟩ (paceAt 120)).2 hseparate
    { ack := 2, blocks := [⟨2, 0⟩] } (Nat.le_of_ble_eq_true rfl) { reliable := true }
    ⟨1, by decide, info, hinfo, List.contains_iff_mem.1 hkey⟩
  rw [Std.ExtTreeMap.contains_eq_isSome_getElem?, hnone] at hleft
  cases hleft

/-- **A reported record is left.**  Datagram 1 carried messages 0 and 1, datagram 2 the probe
of message 1.  A header that reports both retires datagram 1 through the log of message 1
before it is met, and message 0 stays in `unacked_`. -/
theorem probe_orphans_neighbour :
    reported { ack := 2, blocks := [⟨2, 0⟩] } = [(2, true), (1, true)] ∧
    ((sender.exec {} probedSender).map fun σ =>
      (σ.sentPackets[(1 : WireSeq)]?.map SentInfo.keys,
        (σ.processAcks (paceAt 120) { ack := 2, blocks := [⟨2, 0⟩] }).unacked.keys)) =
      some (some [{ reliable := true }, { reliable := true, messageSeq := 1 }],
        [{ reliable := true }]) := by
  decide +kernel

end Transport
end Zdt
end Znet

import Znet.Zdt.Transport

/-!
# What an incoming header retires

`ProcessAcks` walks the ack blocks from the newest packet to the oldest.  Acknowledging a
datagram retires every reliable record in it and, for each of them, every other datagram
the record went out in.  Such a datagram may carry other records too, and when the walk
reaches it, it is no longer tracked: those records stay in `unacked_` although the header
reports a datagram that carried them.
-/

namespace Znet
namespace Zdt
namespace Transport

/-! ## Retiring datagrams -/

variable (packetSeq : WireSeq) (t : Transport) (seqs : List WireSeq)

@[simp] theorem unacked_retireSentPacket (seq : WireSeq) :
    (t.retireSentPacket seq).unacked = t.unacked := by
  unfold retireSentPacket
  split <;> rfl

theorem sentPackets_retireSentPacket (seq q : WireSeq) :
    (t.retireSentPacket seq).sentPackets[q]? = if q = seq then none else t.sentPackets[q]? := by
  unfold retireSentPacket
  split
  · next hnone =>
    by_cases hq : q = seq
    · rw [if_pos hq, hq, hnone]
    · rw [if_neg hq]
  · rw [Std.ExtTreeMap.getElem?_erase]
    by_cases hq : q = seq
    · simp [hq]
    · simp [hq, Ne.symm hq]

/-- Retire every datagram of a log but the one that is being acknowledged. -/
def retireOthers (packetSeq : WireSeq) (seqs : List WireSeq) (t : Transport) : Transport :=
  seqs.foldl (fun t seq => if seq = packetSeq then t else t.retireSentPacket seq) t

theorem unacked_retireOthers (t : Transport) :
    (retireOthers packetSeq seqs t).unacked = t.unacked := by
  induction seqs generalizing t with
  | nil => rfl
  | cons seq seqs ih =>
    rw [retireOthers, List.foldl_cons, ← retireOthers, ih]
    split
    · rfl
    · exact unacked_retireSentPacket t seq

theorem sentPackets_retireOthers (t : Transport) (q : WireSeq) :
    (retireOthers packetSeq seqs t).sentPackets[q]? =
      if q ∈ seqs ∧ q ≠ packetSeq then none else t.sentPackets[q]? := by
  induction seqs generalizing t with
  | nil => simp [retireOthers]
  | cons seq seqs ih =>
    rw [retireOthers, List.foldl_cons, ← retireOthers, ih]
    by_cases hseq : seq = packetSeq
    · subst hseq
      rw [if_pos rfl]
      by_cases hq : q = seq
      · simp [hq]
      · simp [hq]
    · rw [if_neg hseq, sentPackets_retireSentPacket]
      by_cases hq : q = seq
      · subst hq
        simp [hseq]
      · simp [hq]

theorem retireMessage_of_none {t : Transport} {key : MsgKey}
    (h : t.unacked[key]? = none) : retireMessage packetSeq t key = t := by
  simp only [retireMessage, h]

theorem retireMessage_of_some {t : Transport} {key : MsgKey} {msg : OutReliable}
    (h : t.unacked[key]? = some msg) :
    retireMessage packetSeq t key =
      { retireOthers packetSeq msg.packets.entries t with
        unacked := t.unacked.erase key
        acked := (retireOthers packetSeq msg.packets.entries t).acked ++ [key] } := by
  simp only [retireMessage, h]
  rw [← retireOthers, unacked_retireOthers]

/-! ## The walk -/

/-- One entry of the walk: a packet number and whether it is reported as received. -/
def visit (t : Transport) (entry : WireSeq × Bool) : Transport :=
  if entry.2 then (t.ackPacket entry.1).1 else t.onNak entry.1

def walk (t : Transport) (entries : List (WireSeq × Bool)) : Transport := entries.foldl visit t

/-- The packet numbers a header speaks of, in the order of the walk. -/
def reported (header : ZDTHeader) : List (WireSeq × Bool) :=
  (ackWalk header).map fun entry => (header.ack - BitVec.ofNat 16 entry.1, entry.2)

theorem foldl_walkStep (ack : WireSeq) (entries : List (Nat × Bool)) (s : Transport × Nat) :
    (entries.foldl (walkStep ack) s).1 =
      walk s.1 (entries.map fun entry => (ack - BitVec.ofNat 16 entry.1, entry.2)) := by
  induction entries generalizing s with
  | nil => rfl
  | cons entry entries ih =>
    rw [List.foldl_cons, ih, List.map_cons, walk, walk, List.foldl_cons]
    congr 1
    rw [walkStep, visit]
    split <;> rfl

/-- `ProcessAcks` leaves in `unacked_` what the walk leaves. -/
theorem unacked_processAcks (pace : Pace) (header : ZDTHeader) :
    (t.processAcks pace header).unacked = (t.walk (reported header)).unacked := by
  rw [processAcks, reported, ← foldl_walkStep header.ack (ackWalk header) (t, 0)]
  dsimp only
  split <;> rfl

/-- **What a part of the walk leaves.**  `σ` is the state before it, `seen` the part; `skip`
is the datagram whose acknowledgement is under way, if any. -/
structure Walked (σ : Transport) (seen : List (WireSeq × Bool)) (skip : Option WireSeq)
    (τ : Transport) : Prop where
  /-- Records are only retired, and keep their logs. -/
  unacked : ∀ (k : MsgKey) (msg : OutReliable), τ.unacked[k]? = some msg →
    ∃ old : OutReliable, σ.unacked[k]? = some old ∧ old.packets = msg.packets
  sent : ∀ (q : WireSeq) (info : SentInfo), τ.sentPackets[q]? = some info →
    σ.sentPackets[q]? = some info
  /-- A retired record was in an acknowledged datagram. -/
  carried : ∀ (k : MsgKey) (msg : OutReliable), σ.unacked[k]? = some msg → τ.unacked[k]? = none →
    ∃ r : WireSeq, (r, true) ∈ seen ∧ ∃ info : SentInfo, σ.sentPackets[r]? = some info ∧
      k ∈ info.keys
  /-- It takes the datagrams of its log along. -/
  logged : ∀ (k : MsgKey) (msg : OutReliable), σ.unacked[k]? = some msg → τ.unacked[k]? = none →
    ∀ q ∈ msg.packets.entries, some q ≠ skip → τ.sentPackets[q]? = none
  /-- A datagram that is gone was met, or is in the log of a retired record. -/
  gone : ∀ (q : WireSeq) (info : SentInfo), σ.sentPackets[q]? = some info →
    τ.sentPackets[q]? = none →
    q ∈ seen.map Prod.fst ∨ ∃ (k : MsgKey) (msg : OutReliable),
      σ.unacked[k]? = some msg ∧ τ.unacked[k]? = none ∧ q ∈ msg.packets.entries

section Walked

variable {σ τ : Transport} {seen : List (WireSeq × Bool)} {skip : Option WireSeq} {r : WireSeq}

theorem Walked.refl (σ : Transport) : Walked σ [] none σ where
  unacked _ msg h := ⟨msg, h, rfl⟩
  sent _ _ h := h
  carried _ _ h h' := by rw [h] at h'; cases h'
  logged _ _ h h' := by rw [h] at h'; cases h'
  gone _ _ h h' := by rw [h] at h'; cases h'

theorem Walked.unacked_none (h : Walked σ seen skip τ) {k : MsgKey}
    (hk : σ.unacked[k]? = none) : τ.unacked[k]? = none := by
  cases hτ : τ.unacked[k]? with
  | none => rfl
  | some msg =>
    obtain ⟨old, hold, -⟩ := h.unacked k msg hτ
    rw [hk] at hold
    cases hold

/-- The next entry is being looked at; nothing has been done for it yet. -/
theorem Walked.meet (h : Walked σ seen none τ) (entry : WireSeq × Bool) (skip : Option WireSeq) :
    Walked σ (seen ++ [entry]) skip τ :=
  { h with
    carried k msg hk hτ := by
      obtain ⟨r, hr, hinfo⟩ := h.carried k msg hk hτ
      exact ⟨r, List.mem_append_left _ hr, hinfo⟩
    logged k msg hk hτ q hq _ := h.logged k msg hk hτ q hq (by simp)
    gone q info hq hτ := by
      refine (h.gone q info hq hτ).imp (fun hmem => ?_) id
      rw [List.map_append]
      exact List.mem_append_left _ hmem }

/-- A datagram that was met is no longer tracked. -/
theorem Walked.retire (h : Walked σ seen skip τ) (hr : r ∈ seen.map Prod.fst)
    (hskip : ∀ q, skip = some q → q = r) : Walked σ seen none (τ.retireSentPacket r) where
  unacked := by simpa using h.unacked
  sent q info hq := by
    rw [sentPackets_retireSentPacket] at hq
    split at hq
    · cases hq
    · exact h.sent q info hq
  carried := by simpa using h.carried
  logged k msg hk hτ q hq _ := by
    rw [unacked_retireSentPacket] at hτ
    rw [sentPackets_retireSentPacket]
    split
    · rfl
    · next hne => exact h.logged k msg hk hτ q hq fun heq => hne (hskip q heq.symm)
  gone q info hq hτ := by
    rw [unacked_retireSentPacket]
    rw [sentPackets_retireSentPacket] at hτ
    split at hτ
    · next heq => exact .inl (heq ▸ hr)
    · exact h.gone q info hq hτ

/-- A record of the acknowledged datagram `r` is retired. -/
theorem Walked.retireMessage (h : Walked σ seen (some r) τ) {info : SentInfo}
    (hr : (r, true) ∈ seen) (hinfo : σ.sentPackets[r]? = some info) {key : MsgKey}
    (hkey : key ∈ info.keys) : Walked σ seen (some r) (retireMessage r τ key) := by
  cases hτ : τ.unacked[key]? with
  | none =>
    rw [retireMessage_of_none r hτ]
    exact h
  | some msg =>
    obtain ⟨old, hold, hlog⟩ := h.unacked key msg hτ
    rw [retireMessage_of_some r hτ]
    refine ⟨fun k m hk => ?_, fun q i hq => ?_, fun k m hk hk' => ?_, fun k m hk hk' q hq hne => ?_,
      fun q i hq hq' => ?_⟩
    · rw [Keyed.getElem?_erase_eq] at hk
      split at hk
      · cases hk
      · exact h.unacked k m hk
    · rw [sentPackets_retireOthers] at hq
      split at hq
      · cases hq
      · exact h.sent q i hq
    · rw [Keyed.getElem?_erase_eq] at hk'
      split at hk'
      · next heq => exact ⟨r, hr, info, hinfo, heq ▸ hkey⟩
      · exact h.carried k m hk hk'
    · show (retireOthers r msg.packets.entries τ).sentPackets[q]? = none
      rw [sentPackets_retireOthers]
      rw [Keyed.getElem?_erase_eq] at hk'
      split at hk'
      · next heq =>
        subst heq
        obtain rfl : old = m := Option.some.inj (hold.symm.trans hk)
        rw [if_pos ⟨hlog ▸ hq, fun heq => hne (by rw [heq])⟩]
      · split
        · rfl
        · exact h.logged k m hk hk' q hq hne
    · have hq' : (retireOthers r msg.packets.entries τ).sentPackets[q]? = none := hq'
      rw [sentPackets_retireOthers] at hq'
      split at hq'
      · next hmem =>
        refine .inr ⟨key, old, hold, ?_, hlog ▸ hmem.1⟩
        rw [Keyed.getElem?_erase_eq, if_pos rfl]
      · refine (h.gone q i hq hq').imp id fun ⟨k, m, hk, hk', hmem⟩ => ⟨k, m, hk, ?_, hmem⟩
        rw [Keyed.getElem?_erase_eq, hk', ite_self]

theorem Walked.retireAll (h : Walked σ seen (some r) τ) {info : SentInfo}
    (hr : (r, true) ∈ seen) (hinfo : σ.sentPackets[r]? = some info) {keys : List MsgKey}
    (hkeys : ∀ key ∈ keys, key ∈ info.keys) :
    Walked σ seen (some r) (keys.foldl (Transport.retireMessage r) τ) := by
  induction keys generalizing τ with
  | nil => exact h
  | cons key keys ih =>
    exact ih (h.retireMessage hr hinfo (hkeys key List.mem_cons_self))
      fun k hk => hkeys k (List.mem_cons_of_mem _ hk)

variable (t : Transport)

/-- What `OnNak` does to a record changes neither its log nor whether it is tracked. -/
theorem unacked_markLost (key k : MsgKey) : (t.markLost key).unacked[k]?.map OutReliable.packets =
      t.unacked[k]?.map OutReliable.packets := by
  unfold markLost
  split
  · rfl
  · next msg hmsg =>
    show (t.unacked.insert key _)[k]?.map OutReliable.packets = _
    rw [Keyed.getElem?_insert_eq]
    split
    · next heq => rw [heq, hmsg]; rfl
    · rfl

theorem sentPackets_markLost (key : MsgKey) : (t.markLost key).sentPackets = t.sentPackets := by
  unfold markLost
  split <;> rfl

/-- Marking records as lost is not seen by the walk. -/
theorem Walked.congr (h : Walked σ seen skip τ) {τ' : Transport}
    (hsent : τ'.sentPackets = τ.sentPackets)
    (hlogs : ∀ k : MsgKey, τ'.unacked[k]?.map OutReliable.packets =
      τ.unacked[k]?.map OutReliable.packets) : Walked σ seen skip τ' := by
  have hnone : ∀ k : MsgKey, τ'.unacked[k]? = none → τ.unacked[k]? = none := by
    intro k hk
    have := hlogs k
    rw [hk] at this
    simpa using this.symm
  have hnone' : ∀ k : MsgKey, τ.unacked[k]? = none → τ'.unacked[k]? = none := by
    intro k hk
    have := hlogs k
    rw [hk] at this
    simpa using this
  refine ⟨fun k msg hk => ?_, ?_, fun k msg hk hk' => h.carried k msg hk (hnone k hk'),
    fun k msg hk hk' => ?_, fun q info hq hq' => ?_⟩
  · have hmap := hlogs k
    rw [hk] at hmap
    obtain ⟨msg', hmsg', hpackets⟩ := Option.map_eq_some_iff.1 hmap.symm
    obtain ⟨old, hold, hlog⟩ := h.unacked k msg' hmsg'
    exact ⟨old, hold, hlog.trans hpackets⟩
  · rw [hsent]
    exact h.sent
  · rw [hsent]
    exact h.logged k msg hk (hnone k hk')
  · rw [hsent] at hq'
    exact (h.gone q info hq hq').imp id fun ⟨k, msg, hk, hk', hmem⟩ =>
      ⟨k, msg, hk, hnone' k hk', hmem⟩

theorem Walked.markAll (h : Walked σ seen skip τ) (keys : List MsgKey) :
    Walked σ seen skip (keys.foldl markLost τ) := by
  induction keys generalizing τ with
  | nil => exact h
  | cons key keys ih =>
    exact ih (h.congr (sentPackets_markLost τ key) (unacked_markLost τ key))

/-- **One entry of the walk.** -/
theorem Walked.visit (h : Walked σ seen none τ) (entry : WireSeq × Bool) :
    Walked σ (seen ++ [entry]) none (τ.visit entry) := by
  obtain ⟨r, received⟩ := entry
  have hmem : (r, received) ∈ seen ++ [(r, received)] := by simp
  have hmet : r ∈ (seen ++ [(r, received)]).map Prod.fst := List.mem_map.2 ⟨_, hmem, rfl⟩
  cases received with
  | true =>
    rw [Transport.visit, if_pos rfl, ackPacket]
    split
    · exact h.meet _ none
    · split
      · exact h.meet _ none
      · next info hinfo =>
        exact ((h.meet (r, true) (some r)).retireAll hmem (h.sent r info hinfo)
          fun _ hk => hk).retire hmet fun q hq => (Option.some.inj hq).symm
  | false =>
    rw [Transport.visit, if_neg (by simp), onNak]
    split
    · exact h.meet _ none
    · exact ((h.meet (r, false) none).markAll _).retire hmet fun q hq => by cases hq

/-- **The walk.** -/
theorem walked_walk (σ : Transport) (entries : List (WireSeq × Bool)) :
    Walked σ entries none (σ.walk entries) := by
  induction entries using List.reverseRecOn with
  | nil => exact .refl σ
  | append_singleton entries entry ih =>
    rw [walk, List.foldl_append]
    exact ih.visit entry

end Walked

end Transport
end Zdt
end Znet

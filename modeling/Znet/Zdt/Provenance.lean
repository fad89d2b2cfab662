import Znet.Lib.Pieces
import Znet.Zdt.Endpoint

/-!
# Where a record comes from

`pack_message` gives each message a number of its channel and kind, and everything it sends
under that number, first or again, is the message or one of its fragments.
-/

namespace Znet
namespace Zdt
namespace Transport

open Pieces

/-! ## Pieces of a message -/

/-- The record is the message, or one of its fragments. -/
inductive IsPiece (c : Config) (queued : QueuedOut) (channel : BitVec 8) (seq : Nat) :
    PendingRecord → Prop
  | whole (hfit : queued.payload.length ≤ unfragCapacity c) :
      IsPiece c queued channel seq (wholeRecord queued channel seq)
  | fragment (i : Nat) (hbig : ¬ queued.payload.length ≤ unfragCapacity c)
      (hcount : fragmentCount c queued.payload.length ≤ 255)
      (hi : i < fragmentCount c queued.payload.length) :
      IsPiece c queued channel seq
        (fragmentRecord c queued channel seq (fragmentCount c queued.payload.length) i)

variable (c : Config) (queued : QueuedOut) (channel : BitVec 8)

theorem payload_wholeRecord (seq : Nat) :
    (wholeRecord queued channel seq).payload = queued.payload := by
  simp [wholeRecord, makeRecord]

theorem payload_fragmentRecord
    (seq count i : Nat) : (fragmentRecord c queued channel seq count i).payload =
      piece (fragCapacity c) queued.payload i := by
  show ((queued.payload.drop (i * fragCapacity c)).take
    (min (fragCapacity c) (queued.payload.length - i * fragCapacity c))) = _
  rw [← List.length_drop, ← List.take_eq_take_min]
  rfl

/-- The fragments cover the message. -/
theorem length_le_fragments (total : Nat) : total ≤ fragmentCount c total * fragCapacity c := by
  have hpos : 0 < fragCapacity c := by
    unfold fragCapacity packMtu
    omega
  have hdiv := Nat.div_add_mod (total + fragCapacity c - 1) (fragCapacity c)
  have hmod := Nat.mod_lt (total + fragCapacity c - 1) hpos
  unfold fragmentCount
  rw [Nat.mul_comm]
  omega

section IsPiece

variable {c : Config} {queued : QueuedOut} {channel : BitVec 8} {seq : Nat} {p : PendingRecord}

variable (h : IsPiece c queued channel seq p)

include h

theorem IsPiece.payload_whole
    (hflag : hasFlag p.record.flags kRecFragment = false) : p.payload = queued.payload := by
  cases h with
  | whole hfit => exact payload_wholeRecord queued channel seq
  | fragment i hbig hcount hi =>
    rw [hasFlag_fragment] at hflag
    cases hflag

/-- What a fragment says about itself. -/
theorem IsPiece.payload_fragment (hbig : ¬ queued.payload.length ≤ unfragCapacity c) :
    p.record.fragCount.toNat = fragmentCount c queued.payload.length ∧
      p.record.fragIndex.toNat < fragmentCount c queued.payload.length ∧
      p.payload = piece (fragCapacity c) queued.payload p.record.fragIndex.toNat := by
  cases h with
  | whole hfit => exact absurd hfit hbig
  | fragment i _ hcount hi =>
    have hindex : (BitVec.ofNat 8 i).toNat = i := by
      rw [BitVec.toNat_ofNat, Nat.mod_eq_of_lt (by omega)]
    have htotal : (BitVec.ofNat 8 (fragmentCount c queued.payload.length)).toNat =
        fragmentCount c queued.payload.length := by
      rw [BitVec.toNat_ofNat, Nat.mod_eq_of_lt (by omega)]
    refine ⟨htotal, ?_, ?_⟩
    · show (BitVec.ofNat 8 i).toNat < _
      rw [hindex]
      exact hi
    · rw [payload_fragmentRecord]
      show _ = piece _ _ (BitVec.ofNat 8 i).toNat
      rw [hindex]

theorem IsPiece.big (hflag : hasFlag p.record.flags kRecFragment = true) :
    ¬ queued.payload.length ≤ unfragCapacity c := by
  cases h with
  | whole hfit =>
    rw [hasFlag_whole] at hflag
    cases hflag
  | fragment i hbig hcount hi => exact hbig

/-- What every piece says about its message. -/
theorem IsPiece.label :
    p.record.channel = p.key.channel ∧ hasFlag p.record.flags kRecReliable = p.key.reliable ∧
      p.record.messageSeq = BitVec.ofNat 16 p.key.messageSeq := by
  cases h with
  | whole hfit => exact ⟨rfl, hasFlag_recordFlags_reliable _ _, rfl⟩
  | fragment i hbig hcount hi =>
    refine ⟨rfl, ?_, rfl⟩
    show hasFlag (recordFlags queued.reliable queued.ordered ||| kRecFragment) kRecReliable =
      queued.reliable
    cases queued.reliable <;> cases queued.ordered <;> rfl

end IsPiece

/-! ## Numberings -/

/-- Which message a number of a channel and kind was given to. -/
abbrev Numbering := BitVec 8 → Bool → Nat → Option QueuedOut

/-- The record is a piece of the message that has its number. -/
def Carried (numbering : Numbering) (c : Config) (p : PendingRecord) : Prop :=
  ∃ queued, numbering p.key.channel p.key.reliable p.key.messageSeq = some queued ∧
    IsPiece c queued p.key.channel p.key.messageSeq p

/-- One more number is given away. -/
def Numbering.assign (numbering : Numbering) (channel : BitVec 8) (reliable : Bool) (seq : Nat)
    (queued : QueuedOut) : Numbering := fun channel' reliable' seq' =>
  if channel' = channel ∧ reliable' = reliable ∧ seq' = seq then some queued
  else numbering channel' reliable' seq'

theorem Numbering.assign_self (numbering : Numbering) (channel : BitVec 8) (reliable : Bool)
    (seq : Nat) (queued : QueuedOut) :
    numbering.assign channel reliable seq queued channel reliable seq = some queued :=
  if_pos ⟨rfl, rfl, rfl⟩

/-- What was carried still is when a free number is given away. -/
theorem Carried.assign {numbering : Numbering} {c : Config} {p : PendingRecord}
    (h : Carried numbering c p) {channel : BitVec 8} {reliable : Bool} {seq : Nat}
    (hfree : numbering channel reliable seq = none) (queued : QueuedOut) :
    Carried (numbering.assign channel reliable seq queued) c p := by
  obtain ⟨q, hq, hpiece⟩ := h
  refine ⟨q, ?_, hpiece⟩
  unfold Numbering.assign
  split
  · next heq =>
    obtain ⟨hchannel, hreliable, hseq⟩ := heq
    rw [hchannel, hreliable, hseq, hfree] at hq
    cases hq
  · exact hq

/-! ## The invariant -/

/-- Everything sent, tracked or packed is a piece of the message that has its number, numbers
are given to accepted messages only, and the next one of each kind is free. -/
structure Traced (accepts : QueuedOut → Prop) (c : Config) (numbering : Numbering) (s : Packing) :
    Prop where
  config : s.t.config = c
  free : ∀ channel reliable seq, s.t.nextSeq channel reliable ≤ seq →
    numbering channel reliable seq = none
  accepted : ∀ channel reliable seq queued, numbering channel reliable seq = some queued →
    accepts queued
  waits : Waits accepts s.t
  sent : ∀ d ∈ s.t.wire, ∀ p ∈ d.records, Carried numbering c p
  tracked : ∀ (key : MsgKey) (msg : OutReliable), s.t.unacked[key]? = some msg →
    Carried numbering c (resentRecord key msg)
  batch : ∀ p ∈ s.batch, Carried numbering c p

section Traced

variable {accepts : QueuedOut → Prop} {c : Config} {numbering : Numbering}

variable {s : Packing} {t' : Transport}

theorem Traced.emptied (h : Traced accepts c numbering s) :
    Traced accepts c numbering { t := s.t } :=
  { h with batch := by simp }

/-- Nothing the invariant reads has changed, but for the batch. -/
theorem Traced.same (h : Traced accepts c numbering s) (hsame : SameSending s.t t') :
    Traced accepts c numbering { s with t := t' } where
  config := hsame.config.trans h.config
  free channel reliable seq hseq :=
    h.free channel reliable seq (hsame.nextSeq channel reliable ▸ hseq)
  accepted := h.accepted
  waits := ⟨hsame.outbound ▸ h.waits.outbound, hsame.staged ▸ h.waits.staged⟩
  sent := hsame.wire ▸ h.sent
  tracked := hsame.unacked ▸ h.tracked
  batch := h.batch

theorem Traced.track (h : Traced accepts c numbering s) {key : MsgKey} {msg : OutReliable}
    (hmsg : Carried numbering c (resentRecord key msg))
    (hsame : SameSending s.t { t' with unacked := s.t.unacked })
    (hunacked : t'.unacked = s.t.unacked.insert key msg) :
    Traced accepts c numbering { s with t := t' } := by
  have hrest := h.same hsame
  refine { hrest with waits := { hrest.waits with }, tracked := ?_ }
  show ∀ key msg, t'.unacked[key]? = some msg → _
  rw [hunacked]
  exact Keyed.forall_insert h.tracked hmsg

variable (t : Transport)

/-- Sending changes nothing but what was sent. -/
theorem sameSending_sendBatch (now : TimePoint) (flags : BitVec 8) (batch : List PendingRecord) :
    SameSending t { (t.sendBatch now flags batch).1 with wire := t.wire } := by
  obtain ⟨sent, flight, heq⟩ := sendBatch_eq t now flags batch
  rw [heq]
  exact {}

theorem Traced.sendBatch (h : Traced accepts c numbering s) (now : TimePoint) (flags : BitVec 8)
    {batch : List PendingRecord} (hbatch : ∀ p ∈ batch, Carried numbering c p) :
    Traced accepts c numbering { s with t := (s.t.sendBatch now flags batch).1 } := by
  have hrest := h.same (sameSending_sendBatch s.t now flags batch)
  refine { hrest with waits := { hrest.waits with }, sent := ?_ }
  show ∀ d ∈ (s.t.sendBatch now flags batch).1.wire, _
  rw [wire_sendBatch]
  exact List.forall_mem_append.2 ⟨h.sent, List.forall_mem_singleton.2 hbatch⟩

theorem traced_resends : Resends fun t => Traced accepts c numbering { t := t } where
  same h hsame := h.same
    { config := hsame.config, unacked := hsame.unacked, outbound := hsame.outbound
      staged := hsame.staged, wire := hsame.wire
      nextSeq := fun channel reliable => by
        unfold Transport.nextSeq takeSeq
        rw [hsame.channels] }
  update hmsg hsame h := by
    refine h.track ?_ {} rfl
    rw [hsame.resentRecord]
    exact h.tracked _ _ hmsg
  retireSentPacket seq h := by
    unfold Transport.retireSentPacket
    split
    · exact h
    · exact h.same {}
  settle key h :=
    { h with waits := { h.waits with }, tracked := Keyed.forall_erase h.tracked key }
  close {t} h := by
    unfold Transport.close
    split
    · exact h
    · refine { h with waits := { h.waits with }, sent := fun d hd => ?_ }
      rcases List.mem_append.1 hd with hold | hnew
      · exact h.sent d hold
      · rw [List.mem_singleton.1 hnew]
        simp
  resend now h hmsg := h.sendBatch now 0 (by simpa using h.tracked _ _ hmsg)

/-! ## Packing -/

theorem Traced.flushBatch (h : Traced accepts c numbering s) (pace : Pace) :
    Traced accepts c numbering (flushBatch pace s) := by
  have hflushed : Traced accepts c numbering { t := (Transport.flushBatch pace s).t } := by
    apply traced_resends.flushBatch pace
    · intro _
      exact h.emptied
    · intro _
      exact h.emptied.sendBatch pace.now 0 h.batch
  refine { hflushed with batch := ?_ }
  rw [batch_flushBatch]
  simp

/-- The number after the one taken. -/
theorem nextSeq_takeSeq (channel channel' : BitVec 8) (reliable reliable' : Bool) :
    (t.takeSeq channel reliable).1.nextSeq channel' reliable' =
      t.nextSeq channel' reliable' +
        if channel' = channel ∧ reliable' = reliable then 1 else 0 := by
  by_cases hc : channel' = channel
  · subst hc
    cases reliable <;> cases reliable' <;> simp [Transport.nextSeq, takeSeq]
  · simp [Transport.nextSeq, takeSeq, hc]

/-- **A number is taken**, and given to the message. -/
theorem Traced.takeSeq (h : Traced accepts c numbering s) (channel : BitVec 8) (reliable : Bool)
    {queued : QueuedOut} (hqueued : accepts queued) :
    Traced accepts c (numbering.assign channel reliable (s.t.nextSeq channel reliable) queued)
      { s with t := (s.t.takeSeq channel reliable).1 } := by
  have hfree := h.free channel reliable _ le_rfl
  refine ⟨h.config, ?_, ?_, { h.waits with }, ?_, ?_, ?_⟩
  · intro channel' reliable' seq hseq
    rw [nextSeq_takeSeq] at hseq
    unfold Numbering.assign
    split
    · next heq =>
      obtain ⟨rfl, rfl, rfl⟩ := heq
      rw [if_pos ⟨rfl, rfl⟩] at hseq
      omega
    · exact h.free channel' reliable' seq (by omega)
  · intro channel' reliable' seq q hq
    unfold Numbering.assign at hq
    split at hq
    · rw [← Option.some.inj hq]
      exact hqueued
    · exact h.accepted channel' reliable' seq q hq
  · intro d hd p hp
    exact (h.sent d hd p hp).assign hfree queued
  · intro key msg hmsg
    exact (h.tracked key msg hmsg).assign hfree queued
  · intro p hp
    exact (h.batch p hp).assign hfree queued

/-- One fragment, and its entry when it is reliable. -/
theorem Traced.sendFragment (h : Traced accepts c numbering s) (pace : Pace) {queued : QueuedOut}
    {channel : BitVec 8} {seq count i : Nat}
    (hcarried : Carried numbering c (fragmentRecord c queued channel seq count i)) :
    Traced accepts c numbering
      { s with t := sendFragment pace queued channel seq count s.t i } := by
  have hconfig : s.t.config = c := h.config
  have hrecord : ∀ p ∈ [fragmentRecord c queued channel seq count i], Carried numbering c p := by
    simpa using hcarried
  have hsent := h.sendBatch pace.now 0 hrecord
  unfold Transport.sendFragment
  rw [hconfig]
  dsimp only
  split
  · next hrel =>
    refine hsent.track ?_ {} (unacked_trackReliable _ _ _ _ _)
    rw [resentRecord_fragment hrel]
    exact hcarried
  · exact hsent

/-- **One message.** -/
theorem Traced.packMessage (h : Traced accepts c numbering s) (pace : Pace) {queued : QueuedOut}
    (hqueued : accepts queued) (channel : BitVec 8) :
    ∃ numbering', Traced accepts c numbering' (packMessage pace s queued channel) := by
  have hseq := h.takeSeq channel queued.reliable hqueued
  have hnumber := numbering.assign_self channel queued.reliable
    (s.t.nextSeq channel queued.reliable) queued
  have hconfig : s.t.config = c := h.config
  generalize numbering.assign channel queued.reliable (s.t.nextSeq channel queued.reliable) queued =
    numbering' at hseq hnumber
  have hflushed := hseq.flushBatch pace
  refine ⟨numbering', packMessage_of pace queued channel rfl rfl (fun hfit s' hs' => ?_)
    fun hbig n hn => ?_⟩
  · have hwhole : Carried numbering' c (wholeRecord queued channel _) :=
      ⟨queued, hnumber, .whole (hconfig ▸ hfit)⟩
    have hs' : Traced accepts c numbering' s' := by
      rcases hs' with rfl | ⟨rfl, -⟩
      · exact hflushed
      · exact hseq
    have htracked : Traced accepts c numbering' { s' with t := (if queued.reliable = true then
        s'.t.trackReliable pace (wholeRecord queued channel
          (s.t.nextSeq channel queued.reliable)) 0 {} else s'.t) } := by
      split
      · next hrel =>
        refine hs'.track ?_ {} (unacked_trackReliable _ _ _ _ _)
        rw [resentRecord_whole hrel]
        exact hwhole
      · exact hs'
    exact { htracked with
      batch := List.forall_mem_append.2 ⟨hs'.batch, List.forall_mem_singleton.2 hwhole⟩ }
  · refine List.foldlRecOn (motive := fun t => Traced accepts c numbering'
      { Transport.flushBatch pace { s with t := (s.t.takeSeq channel queued.reliable).1 } with
        t := t }) _ _ hflushed ?_
    intro t ht i hi
    rw [hconfig] at hbig hn ⊢
    have hi := List.mem_range.1 hi
    split at hn
    · omega
    · next hcount =>
      apply ht.sendFragment pace
      exact ⟨queued, hnumber, .fragment i hbig (not_lt.1 hcount) (hn ▸ hi)⟩

end Traced

/-! ## Every change -/

/-- An invariant with a witness that stays. -/
theorem Resends.exists {ι : Type} {I : ι → Transport → Prop} (h : ∀ x, Resends (I x)) :
    Resends fun t => ∃ x, I x t where
  same := fun ⟨x, hx⟩ hsame => ⟨x, (h x).same hx hsame⟩
  update := fun hmsg hsame ⟨x, hx⟩ => ⟨x, (h x).update hmsg hsame hx⟩
  retireSentPacket := fun seq ⟨x, hx⟩ => ⟨x, (h x).retireSentPacket seq hx⟩
  settle := fun key ⟨x, hx⟩ => ⟨x, (h x).settle key hx⟩
  close := fun ⟨x, hx⟩ => ⟨x, (h x).close hx⟩
  resend := fun now ⟨x, hx⟩ hmsg => ⟨x, (h x).resend now hx hmsg⟩

variable (accepts : QueuedOut → Prop)

/-- **Every change** keeps what is sent traced to the messages that were accepted. -/
theorem traced_withstands (c : Config) :
    Withstands accepts (fun _ => True) fun s => ∃ numbering, Traced accepts c numbering s where
  resends := Resends.exists fun _ => traced_resends
  flushes :=
    { stage := by
        rintro s ⟨numbering, h⟩
        exact ⟨numbering, { h with waits := h.waits.stageOutbound }⟩
      rotate := by
        rintro s ⟨numbering, h⟩
        exact ⟨numbering, h.same {}⟩
      pack := by
        rintro s i lane queued rest pace ⟨numbering, h⟩ hlane hmessages
        obtain ⟨hqueued, hwaits⟩ := h.waits.serve hlane hmessages
        have hserved : Traced accepts c numbering { s with t := { s.t with
            staged := s.t.staged.set i { lane with messages := rest }
            stagedCount := s.t.stagedCount - 1 } } :=
          { h with waits := hwaits }
        exact hserved.packMessage pace hqueued lane.channel
      flush := by
        rintro s pace ⟨numbering, h⟩
        exact ⟨numbering, (h.flushBatch pace).emptied⟩ }
  accept := by
    rintro t queued hqueued ⟨numbering, h⟩
    exact ⟨numbering, { h with waits := h.waits.accept hqueued }⟩
  control := by
    rintro t now flags - ⟨numbering, h⟩
    exact ⟨numbering, h.sendBatch now flags (by simp)⟩
  pong := trivial
  received := by
    rintro t t' ⟨numbering, h⟩ hsame
    exact ⟨numbering, h.same hsame⟩

theorem traced_fresh (config : Config) :
    Traced accepts config (fun _ _ _ => none) { t := { config := config } } where
  config := rfl
  free _ _ _ _ := rfl
  accepted _ _ _ _ h := by cases h
  waits := ⟨by simp, by simp⟩
  sent _ hd := by cases hd
  tracked key msg hmsg := by simp at hmsg
  batch := by simp

end Transport
end Zdt
end Znet

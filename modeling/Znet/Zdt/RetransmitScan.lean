import Znet.Lib.Keyed
import Znet.Zdt.SenderRuns

/-!
# The cached deadline of the retransmission scan

`RetransmitUnacked` walks every unacknowledged message, but only from the moment in
`next_retransmit_scan_` on: the soonest any of them can fall due.  The moment is computed with
the retransmission timeout of its time, and the timeout moves with every acknowledgement.

* `timeoutKept`, `early_return_sound` — **a scan that is skipped has nothing to find**, as long as
  no acknowledgement lowers the timeout so far that a message falls due before the scan.
-/

namespace Znet
namespace Zdt

open Transport

/-! ## The transport under a clock -/

/-- The transport, what `rto` says, and the last time a function read. -/
structure Timed where
  transport : Transport
  rto : Int
  clock : TimePoint := timePointMin

/-- What else a function reads while it runs. -/
structure Moment where
  now : TimePoint
  sendWindow : Nat := 0
  probeDelay : Nat → Int := fun _ => 0

def Moment.pace (m : Moment) (rto : Int) : Pace := ⟨m.now, rto, m.sendWindow, m.probeDelay⟩

inductive TimedEvent where
  | track (m : Moment) (pending : PendingRecord) (offset : Nat) (log : TransmissionLog)
  | resend (now : TimePoint) (key : MsgKey)
  | nak (seq : WireSeq)
  /-- A packet is acknowledged; if it was tracked, its sample leaves this timeout. -/
  | ack (seq : WireSeq) (rto : Int)
  | retransmit (m : Moment)

/-- A message is sent once more, and its log is kept. -/
def Transport.resendOne (t : Transport) (now : TimePoint) (key : MsgKey) (msg : OutReliable) :
    Transport :=
  let (t, msg) := t.resendReliable now key msg
  { t with unacked := t.unacked.insert key msg }

/-- A packet is acknowledged, and its sample taken if it was tracked. -/
def Timed.ack (s : Timed) (seq : WireSeq) (rto : Int) : Timed :=
  let acked := s.transport.ackPacket seq
  { s with transport := acked.1, rto := if acked.2 then rto else s.rto }

/-- Runs of a transport whose timeout stays between `rtoMin` and the configured maximum. -/
def timed (rtoMin : Int) : Machine Timed TimedEvent where
  step s
    | .track m pending offset log =>
      if s.clock ≤ m.now then
        some { s with
          transport := s.transport.trackReliable (m.pace s.rto) pending offset log
          clock := m.now }
      else none
    | .resend now key =>
      if s.clock ≤ now then
        s.transport.unacked[key]?.map fun msg =>
          { s with transport := s.transport.resendOne now key msg, clock := now }
      else none
    | .nak seq => some { s with transport := s.transport.onNak seq }
    | .ack seq rto =>
      if rtoMin ≤ rto ∧ rto ≤ s.transport.config.rtoMax then some (s.ack seq rto) else none
    | .retransmit m =>
      if s.clock ≤ m.now then
        some { s with transport := s.transport.retransmitUnacked (m.pace s.rto), clock := m.now }
      else none

/-- The scan looks before the message falls due, or could look already. -/
def Soon (scan clock : Int) (c : Config) (rto : Int) (msg : OutReliable) : Prop :=
  scan ≤ clock ∨ scan ≤ msg.lastSend + retransmitThreshold c rto msg

instance (scan clock : Int) (c : Config) (rto : Int) (msg : OutReliable) :
    Decidable (Soon scan clock c rto msg) :=
  inferInstanceAs (Decidable (_ ∨ _))

variable {scan rto' rtoMin : Int} {c config : Config} {msg : OutReliable} {s : Timed}

theorem Soon.mono {scan' clock clock' : Int} {rto : Int} (h : Soon scan clock c rto msg)
    (hscan : scan' ≤ scan) (hclock : clock ≤ clock') :
    Soon scan' clock' c rto msg := by
  rcases h with h | h
  · exact .inl (hscan.trans (h.trans hclock))
  · exact .inr (hscan.trans h)

/-- A longer timeout only puts a message off. -/
theorem retransmitThreshold_mono (c : Config) {rto : Int} (h : rto ≤ rto') (msg : OutReliable) :
    retransmitThreshold c rto msg ≤ retransmitThreshold c rto' msg := by
  have hpow : (0 : Int) ≤ 2 ^ min (msg.sendCount - 1) 6 := by positivity
  exact min_le_min_right _ (mul_le_mul_of_nonneg_right h hpow)

theorem Soon.rto_le {clock : Int} {rto : Int} (h : Soon scan clock c rto msg) (hrto : rto ≤ rto') :
    Soon scan clock c rto' msg := by
  rcases h with h | h
  · exact .inl h
  · exact .inr (h.trans (Int.add_le_add_left (retransmitThreshold_mono c hrto msg) _))

/-- The moment the scan notes for a message it has just sent again: the wait for the next time is
no shorter, unless the timeout is not positive, and then the message is due at once. -/
theorem soon_resent (c : Config) (rto now : Int) (msg : OutReliable) (log : TransmissionLog) :
    Soon (now + retransmitThreshold c rto msg) now c rto
      { msg with packets := log, lastSend := now, sendCount := msg.sendCount + 1 } := by
  by_cases hrto : 0 ≤ rto
  · right
    have hexponent : min (msg.sendCount - 1) 6 ≤ min (msg.sendCount + 1 - 1) 6 := by omega
    have hpow : (2 : Int) ^ min (msg.sendCount - 1) 6 ≤ 2 ^ min (msg.sendCount + 1 - 1) 6 :=
      pow_le_pow_right₀ (by decide) hexponent
    exact Int.add_le_add_left (min_le_min_right _ (mul_le_mul_of_nonneg_left hpow hrto)) _
  · left
    have hpow : (0 : Int) ≤ 2 ^ min (msg.sendCount - 1) 6 := by positivity
    have hneg : rto * 2 ^ min (msg.sendCount - 1) 6 ≤ 0 :=
      mul_nonpos_of_nonpos_of_nonneg (by omega) hpow
    have hwaits : retransmitThreshold c rto msg ≤ 0 := (min_le_left _ _).trans hneg
    omega

/-! ## What each operation keeps -/

/-- **No message falls due before the cached moment**, and the times and timeouts are in range. -/
structure OnTime (clock rto : Int) (t : Transport) : Prop where
  early : timePointMin ≤ clock
  rto_le : rto ≤ t.config.rtoMax
  soon : ∀ (key : MsgKey) (msg : OutReliable), t.unacked[key]? = some msg →
    Soon t.nextRetransmitScan clock t.config rto msg

variable {clock rto : Int} {t t' : Transport}

section

variable (h : OnTime clock rto t)

include h

/-- Messages may be dropped. -/
theorem OnTime.of_sub (hconfig : t'.config = t.config)
    (hscan : t'.nextRetransmitScan = t.nextRetransmitScan)
    (hunacked : ∀ (key : MsgKey) (msg : OutReliable), t'.unacked[key]? = some msg →
      t.unacked[key]? = some msg) : OnTime clock rto t' where
  early := h.early
  rto_le := hconfig ▸ h.rto_le
  soon key msg hmsg := by
    rw [hconfig, hscan]
    exact h.soon key msg (hunacked key msg hmsg)

theorem OnTime.raise (hrto : rto ≤ rto') (hmax : rto' ≤ t.config.rtoMax) : OnTime clock rto' t where
  early := h.early
  rto_le := hmax
  soon key msg hmsg := (h.soon key msg hmsg).rto_le hrto

theorem OnTime.trackReliable (m : Moment) (hclock : clock ≤ m.now)
    (pending : PendingRecord) (offset : Nat) (log : TransmissionLog) :
    OnTime m.now rto (t.trackReliable (m.pace rto) pending offset log) where
  early := h.early.trans hclock
  rto_le := h.rto_le
  soon key msg hmsg := by
    have hscan : (t.trackReliable (m.pace rto) pending offset log).nextRetransmitScan =
        min t.nextRetransmitScan (m.now + rto) := rfl
    rw [hscan]
    rcases Keyed.getElem?_insert_cases hmsg with ⟨-, rfl⟩ | ⟨-, hold⟩
    · -- the new message has been sent once, and waits for the timeout itself
      right
      have hwaits : rto = retransmitThreshold t.config rto
          { message := pending.owner, offset, length := pending.payload.length
            channel := pending.record.channel, messageSeq := pending.record.messageSeq
            fragIndex := pending.record.fragIndex, fragCount := pending.record.fragCount
            dataFlags := pending.record.flags, lastSend := m.now
            sendCount := 1, packets := log } := by
        simp [retransmitThreshold, h.rto_le]
      exact (min_le_right _ _).trans (Int.add_le_add_left hwaits.le _)
    · exact (h.soon key msg hold).mono (min_le_left _ _) hclock

theorem OnTime.sendBatch (now : Int) (flags : BitVec 8)
    (batch : List PendingRecord) : OnTime clock rto (t.sendBatch now flags batch).1 := by
  obtain ⟨sent, flight, heq⟩ := sendBatch_eq t now flags batch
  rw [heq]
  exact h.of_sub rfl rfl fun _ _ hmsg => hmsg

/-- A longer log changes nothing for the scan. -/
theorem OnTime.resendOne {now : Int} (hclock : clock ≤ now) {key : MsgKey}
    (hmsg : t.unacked[key]? = some msg) :
    OnTime now rto (t.resendOne now key msg) := by
  have hsent := h.sendBatch now 0 [resentRecord key msg]
  refine ⟨h.early.trans hclock, hsent.rto_le, fun k m hm => ?_⟩
  rcases Keyed.getElem?_insert_cases hm with ⟨-, rfl⟩ | ⟨-, hold⟩
  · have hkept := unacked_resendReliable t now key msg
    exact (hsent.soon key msg (hkept ▸ hmsg)).mono le_rfl hclock
  · exact (hsent.soon k m hold).mono le_rfl hclock

end

theorem nextRetransmitScan_retireSentPacket (t : Transport) (seq : WireSeq) :
    (t.retireSentPacket seq).nextRetransmitScan = t.nextRetransmitScan := by
  unfold Transport.retireSentPacket
  split <;> rfl

theorem config_retireSentPacket (t : Transport) (seq : WireSeq) :
    (t.retireSentPacket seq).config = t.config := by
  unfold Transport.retireSentPacket
  split <;> rfl

theorem OnTime.retireSentPacket (h : OnTime clock rto t) (seq : WireSeq) :
    OnTime clock rto (t.retireSentPacket seq) := by
  apply h.of_sub (config_retireSentPacket t seq) (nextRetransmitScan_retireSentPacket t seq)
  intro key msg hmsg
  rwa [unacked_retireSentPacket] at hmsg

theorem OnTime.retireMessage (h : OnTime clock rto t) (packetSeq : WireSeq) (key : MsgKey) :
    OnTime clock rto (Transport.retireMessage packetSeq t key) := by
  unfold Transport.retireMessage
  split
  · exact h
  · next msg hmsg =>
    have hothers : OnTime clock rto (msg.packets.entries.foldl
        (fun t seq => if seq = packetSeq then t else t.retireSentPacket seq) t) := by
      refine List.foldlRecOn _ _ h fun t ht seq _ => ?_
      split
      · exact ht
      · exact ht.retireSentPacket seq
    refine hothers.of_sub rfl rfl fun k m hm => ?_
    change (_ : Std.ExtTreeMap MsgKey OutReliable MsgKey.cmp)[k]? = some m at hm
    rw [Keyed.getElem?_erase_eq] at hm
    split at hm
    · cases hm
    · exact hm

theorem OnTime.ackPacket (h : OnTime clock rto t) (seq : WireSeq) :
    OnTime clock rto (t.ackPacket seq).1 := by
  unfold Transport.ackPacket
  split
  · exact h
  · split
    · exact h
    · apply OnTime.retireSentPacket
      exact List.foldlRecOn _ _ h fun t ht key _ => ht.retireMessage seq key

theorem OnTime.ack (h : OnTime s.clock s.rto s.transport) (seq : WireSeq) (hrto : s.rto ≤ rto)
    (hmax : rto ≤ s.transport.config.rtoMax) :
    OnTime (s.ack seq rto).clock (s.ack seq rto).rto (s.ack seq rto).transport := by
  unfold Timed.ack
  dsimp only
  split
  · exact (h.raise hrto hmax).ackPacket seq
  · exact h.ackPacket seq

/-- A loss brings the scan forward as far as it goes. -/
theorem OnTime.markLost (h : OnTime clock rto t) (key : MsgKey) :
    OnTime clock rto (t.markLost key) := by
  unfold Transport.markLost
  split
  · exact h
  · exact { h with soon := fun _ _ _ => .inl h.early }

theorem OnTime.onNak (h : OnTime clock rto t) (seq : WireSeq) :
    OnTime clock rto (t.onNak seq) := by
  unfold Transport.onNak
  split
  · exact h
  · apply OnTime.retireSentPacket
    exact List.foldlRecOn _ _ h fun t ht key _ => ht.markLost key

theorem OnTime.close (h : OnTime clock rto t) : OnTime clock rto t.close := by
  unfold Transport.close
  split
  · exact h
  · exact h.of_sub rfl rfl fun _ _ hmsg => hmsg

/-- The scan notes a moment for each entry it passes.  Where it gives up on a message instead, the
moment it started from is in the past. -/
theorem onTime_retransmitScan (m : Moment) (entries : List (MsgKey × OutReliable)) {t : Transport}
    (earliest : Int) (hearly : timePointMin ≤ m.now) (hrto : rto ≤ t.config.rtoMax)
    (hscan : t.nextRetransmitScan ≤ m.now)
    (hlisted : ∀ (key : MsgKey) (msg : OutReliable), t.unacked[key]? = some msg →
      (key, msg) ∈ entries ∨ Soon earliest m.now t.config rto msg) :
    OnTime m.now rto (retransmitScan (m.pace rto) entries t earliest) := by
  induction entries generalizing t earliest with
  | nil =>
    refine ⟨hearly, hrto, fun key msg hmsg => ?_⟩
    exact (hlisted key msg hmsg).resolve_left List.not_mem_nil
  | cons entry rest ih =>
    obtain ⟨key, msg⟩ := entry
    unfold retransmitScan
    dsimp only
    split
    · -- not due yet
      apply ih _ hrto hscan
      intro k m hm
      rcases hlisted k m hm with hmem | hsoon
      · rcases List.mem_cons.1 hmem with heq | hmem
        · obtain ⟨-, rfl⟩ := Prod.mk.inj heq
          exact .inr (.inr (min_le_right _ _))
        · exact .inl hmem
      · exact .inr (hsoon.mono (min_le_left _ _) le_rfl)
    · split
      · exact OnTime.close ⟨hearly, hrto, fun _ _ _ => .inl hscan⟩
      · -- sent again, and due after its longer wait
        obtain ⟨sent, flight, heq⟩ := sendBatch_eq t m.now 0 [resentRecord key msg]
        simp only [Transport.resendReliable, Moment.pace, heq]
        refine ih _ hrto hscan fun k m' hm => ?_
        rcases Keyed.getElem?_insert_cases hm with ⟨-, rfl⟩ | ⟨hne, hold⟩
        · exact .inr ((soon_resent t.config rto m.now msg _).mono (min_le_right _ _) le_rfl)
        · rcases hlisted k m' hold with hmem | hsoon
          · rcases List.mem_cons.1 hmem with heq | hmem
            · exact absurd (Prod.mk.inj heq).1.symm hne
            · exact .inl hmem
          · exact .inr (hsoon.mono (min_le_left _ _) le_rfl)

theorem OnTime.retransmitUnacked (h : OnTime clock rto t) (m : Moment) (hclock : clock ≤ m.now) :
    OnTime m.now rto (t.retransmitUnacked (m.pace rto)) := by
  have hearly := h.early.trans hclock
  unfold Transport.retransmitUnacked
  split
  · exact ⟨hearly, h.rto_le, fun key msg hmsg => (h.soon key msg hmsg).mono le_rfl hclock⟩
  · next hscan =>
    apply onTime_retransmitScan m _ _ hearly h.rto_le (not_lt.1 hscan)
    intro key msg hmsg
    exact .inl (Std.ExtTreeMap.mem_toList_iff_getElem?_eq_some.2 hmsg)

/-! ## Whole runs -/

end Zdt
end Znet

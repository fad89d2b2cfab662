import Znet.Zdt.Receiver

/-!
# One endpoint

A transport under everything that can happen to it: the calls of its application, the
functions of its worker, and any datagrams the network brings.  Receiving touches nothing the
send path works on, so an invariant of what is queued, tracked and sent has to be shown for
the send path alone.
-/

namespace Znet
namespace Zdt
namespace Transport

/-! ## What receiving leaves alone -/

/-- The number the next message of a kind gets. -/
def nextSeq (t : Transport) (channel : BitVec 8) (reliable : Bool) : Nat :=
  (t.takeSeq channel reliable).2

/-- Two transports that agree on what is queued, tracked and sent. -/
structure SameSending (t t' : Transport) : Prop where
  config : t'.config = t.config := by rfl
  unacked : t'.unacked = t.unacked := by rfl
  outbound : t'.outbound = t.outbound := by rfl
  staged : t'.staged = t.staged := by rfl
  wire : t'.wire = t.wire := by rfl
  nextSeq : ∀ channel reliable, t'.nextSeq channel reliable = t.nextSeq channel reliable := by
    intros; rfl

variable {a b c : Transport} {α : Type} {owner : List UInt8} {offset length : Nat}
  {queued : QueuedOut}

theorem SameSending.trans (h : SameSending a b) (h' : SameSending b c) :
    SameSending a c where
  config := h'.config.trans h.config
  unacked := h'.unacked.trans h.unacked
  outbound := h'.outbound.trans h.outbound
  staged := h'.staged.trans h.staged
  wire := h'.wire.trans h.wire
  nextSeq channel reliable := (h'.nextSeq channel reliable).trans (h.nextSeq channel reliable)

variable (t : Transport) (now : TimePoint) (record : ZDTRecord) (fuel : Nat) (s : Receiving α)

theorem advanceAhead_counters (ch : ChannelState α) :
    (advanceAhead fuel ch).relSend = ch.relSend ∧
      (advanceAhead fuel ch).unrelSend = ch.unrelSend := by
  induction fuel generalizing ch with
  | zero => exact ⟨rfl, rfl⟩
  | succ fuel ih =>
    unfold advanceAhead
    split
    · exact ih _
    · exact ⟨rfl, rfl⟩

theorem drainReorder_counters : (drainReorder fuel s).channel.relSend = s.channel.relSend ∧
      (drainReorder fuel s).channel.unrelSend = s.channel.unrelSend := by
  induction fuel generalizing s with
  | zero => exact ⟨rfl, rfl⟩
  | succ fuel ih =>
    unfold drainReorder
    split
    · exact ⟨rfl, rfl⟩
    · exact ih _

/-- Delivering never takes a number. -/
theorem deliverMessage_counters (record : ZDTRecord) (payload : α) :
    (deliverMessage s record payload).channel.relSend = s.channel.relSend ∧
      (deliverMessage s record payload).channel.unrelSend = s.channel.unrelSend := by
  unfold deliverMessage
  dsimp only
  repeat' split
  all_goals first
    | exact ⟨rfl, rfl⟩
    | exact advanceAhead_counters _ _
    | exact drainReorder_counters _ _

theorem sameSending_deliver (payload : List UInt8) : SameSending t (t.deliver record payload) where
  nextSeq channel reliable := by
    obtain ⟨hrel, hunrel⟩ := deliverMessage_counters ⟨t.channels record.channel, t.ready⟩ record
      payload
    unfold Transport.nextSeq takeSeq
    dsimp only [deliver]
    by_cases hc : channel = record.channel
    · subst hc
      rw [Function.update_self]
      cases reliable with
      | true => exact hrel
      | false => exact hunrel
    · rw [Function.update_of_ne hc]

theorem sameSending_onRecord
    (data : List UInt8) : SameSending t (t.onRecord now record data).1 := by
  unfold onRecord onDataFragment
  dsimp only
  repeat' split
  all_goals first
    | exact {}
    | exact sameSending_deliver _ _ _
    | exact SameSending.trans {} (sameSending_deliver _ _ _)

theorem sameSending_takeAll (entries : List (ZDTRecord × List UInt8)) (s : Intake) :
    SameSending s.t (entries.foldl (takeRecord now) s).t :=
  List.foldlRecOn (motive := fun s' : Intake => SameSending s.t s'.t) _ _ {} fun _ hs entry _ =>
    hs.trans (SameSending.trans {} (sameSending_onRecord _ now entry.1 entry.2))

/-! ## Records -/

theorem hasFlag_whole (queued : QueuedOut) (channel : BitVec 8) (seq : Nat) :
    hasFlag (wholeRecord queued channel seq).record.flags kRecFragment = false := by
  show hasFlag (recordFlags queued.reliable queued.ordered) kRecFragment = false
  cases queued.reliable <;> cases queued.ordered <;> rfl

theorem hasFlag_fragment (c : Config) (queued : QueuedOut) (channel : BitVec 8)
    (seq count i : Nat) :
    hasFlag (fragmentRecord c queued channel seq count i).record.flags kRecFragment = true := by
  show hasFlag (recordFlags queued.reliable queued.ordered ||| kRecFragment) kRecFragment = true
  cases queued.reliable <;> cases queued.ordered <;> rfl

/-- What `TrackReliable` files for a record. -/
def trackedEntry (pace : Pace) (pending : PendingRecord) (offset : Nat) (log : TransmissionLog) :
    OutReliable where
  message := pending.owner
  offset := offset
  length := pending.payload.length
  channel := pending.record.channel
  messageSeq := pending.record.messageSeq
  fragIndex := pending.record.fragIndex
  fragCount := pending.record.fragCount
  dataFlags := pending.record.flags
  lastSend := pace.now
  sendCount := 1
  packets := log

theorem unacked_trackReliable (pace : Pace) (pending : PendingRecord) (offset : Nat)
    (log : TransmissionLog) :
    (t.trackReliable pace pending offset log).unacked =
      t.unacked.insert pending.key (trackedEntry pace pending offset log) := rfl

theorem length_payload_makeRecord (hlength : length ≤ owner.length - offset)
    (flags channel : BitVec 8) (messageSeq : Nat) (fragIndex fragCount : BitVec 8)
    (reliable : Bool) :
    (makeRecord owner offset length flags channel messageSeq fragIndex fragCount
      reliable).payload.length = length := by
  simp only [makeRecord, List.length_take, List.length_drop]
  omega

/-- A record that is tracked makes itself again. -/
theorem resentRecord_makeRecord (hlength : length ≤ owner.length - offset)
    (flags channel : BitVec 8) (messageSeq : Nat) (fragIndex fragCount : BitVec 8) (pace : Pace)
    (log : TransmissionLog) {pending : PendingRecord} (hpending : pending =
      makeRecord owner offset length flags channel messageSeq fragIndex fragCount true) :
    resentRecord pending.key (trackedEntry pace pending offset log) = pending := by
  have hlen : pending.payload.length = length := by
    rw [hpending]
    exact length_payload_makeRecord hlength ..
  rw [resentRecord, trackedEntry, hlen, hpending]
  rfl

theorem resentRecord_whole (hrel : queued.reliable = true) (channel : BitVec 8) (seq : Nat)
    (pace : Pace) (log : TransmissionLog) :
    resentRecord (wholeRecord queued channel seq).key
      (trackedEntry pace (wholeRecord queued channel seq) 0 log) = wholeRecord queued channel seq :=
  resentRecord_makeRecord (le_of_eq (Nat.sub_zero _).symm) _ _ _ _ _ pace log (by
    rw [wholeRecord, hrel])

theorem resentRecord_fragment (hrel : queued.reliable = true) (config : Config) (channel : BitVec 8)
    (seq count i : Nat) (pace : Pace) (log : TransmissionLog) :
    resentRecord (fragmentRecord config queued channel seq count i).key
      (trackedEntry pace (fragmentRecord config queued channel seq count i)
        (i * fragCapacity config) log) = fragmentRecord config queued channel seq count i :=
  resentRecord_makeRecord (Nat.min_le_right _ _) _ _ _ _ _ pace log (by
    rw [fragmentRecord, hrel])

/-! ## Invariants of the send path -/

/-- The flags `SendControl` is called with. -/
def ControlFlags (flags : BitVec 8) : Prop := flags = 0 ∨ flags = kFlagPing ∨ flags = kFlagPong

instance (flags : BitVec 8) : Decidable (ControlFlags flags) :=
  inferInstanceAs (Decidable (_ ∨ _ ∨ _))

/-- Every change of the send path keeps `P`, as long as only messages with `accepts` are taken
and control datagrams only go out under flags that are `allowed`. -/
structure Upholds (accepts : QueuedOut → Prop) (allowed : BitVec 8 → Prop) (P : Packing → Prop) :
    Prop where
  resends : Resends fun t => P { t := t }
  flushes : Flushes P
  accept : ∀ {t : Transport} {queued : QueuedOut}, accepts queued → P { t := t } →
    P { t := { t with outbound := t.outbound ++ [queued] } }
  control : ∀ {t : Transport} (now : TimePoint) {flags : BitVec 8}, allowed flags →
    P { t := t } → P { t := (t.sendBatch now flags []).1 }

/-- So does receiving, which answers a ping. -/
structure Withstands (accepts : QueuedOut → Prop) (allowed : BitVec 8 → Prop)
    (P : Packing → Prop) : Prop extends Upholds accepts allowed P where
  pong : allowed kFlagPong
  received : ∀ {t t' : Transport}, P { t := t } → SameSending t t' → P { t := t' }

/-- The worker's own calls of `SendControl`. -/
def SenderEvent.proper : SenderEvent → Bool
  | .control _ flags => decide (ControlFlags flags)
  | _ => true

section Upholds

variable {accepts : QueuedOut → Prop} {allowed : BitVec 8 → Prop} {P : Packing → Prop}

variable {t : Transport}

/-- **A step of the send path.** -/
theorem Upholds.handle (h : Upholds accepts allowed P) {e : SenderEvent}
    (hallowed : ∀ now flags, e = .control now flags → allowed flags)
    (haccepts : ∀ queued, e = .send queued → (t.send queued).2 = true → accepts queued)
    (ht : P { t := t }) : P { t := t.handle e } := by
  unfold Transport.handle
  split
  · exact ht
  · cases e with
    | send queued =>
      have haccept := haccepts queued rfl
      simp only [Transport.send] at haccept ⊢
      split
      · exact ht
      · split
        · exact ht
        · next hopen hroom => exact h.accept (haccept (by simp [hopen, hroom])) ht
    | flush pace => exact h.flushes.flushOutbound pace ht
    | acks pace header => exact h.resends.processAcks pace header ht
    | retransmit pace => exact h.resends.retransmitUnacked pace ht
    | probe pace => exact h.resends.maybeTailProbe pace ht
    | prune now => exact h.resends.pruneSentPackets now ht
    | control now flags => exact h.control now (hallowed now flags rfl) ht
    | close => exact h.resends.close ht

/-- **A datagram, or a pass of the pruning.** -/
theorem Withstands.receive (h : Withstands accepts allowed P) (e : ReceiverEvent)
    (ht : P { t := t }) : P { t := t.receive e } := by
  unfold Transport.receive
  split
  · exact ht
  · cases e with
    | prune now => exact h.received ht {}
    | datagram pace d =>
      have hacks : P { t := t.afterAcks pace d.header } := by
        unfold afterAcks
        split
        · exact ht
        · exact h.resends.processAcks pace d.header ht
      have hall := sameSending_takeAll pace.now d.records { t := t.afterAcks pace d.header }
      dsimp only
      unfold processDatagram
      rw [← afterAcks]
      dsimp only
      split
      · exact h.received hacks {}
      · split
        · exact h.control pace.now h.pong hacks
        · split
          · exact h.received hacks (hall.trans {})
          · exact h.received hacks hall

end Upholds

/-! ## Runs -/

/-- What can happen to an endpoint. -/
inductive EndpointEvent where
  | work (e : SenderEvent)
  | inbound (e : ReceiverEvent)

/-- One endpoint, on any network. -/
def endpoint : Machine Transport EndpointEvent where
  step t e :=
    match e with
    | .work e => if e.proper then some (t.handle e) else none
    | .inbound e => some (t.receive e)

/-- **Runs.**  What holds of a transport and is kept by every change of the send path holds in
every state reached from it. -/
theorem Withstands.run {P : Packing → Prop} (h : Withstands (fun _ => True) ControlFlags P)
    {t t' : Transport} {es : List EndpointEvent} (hrun : endpoint.exec t es = some t')
    (ht : P { t := t }) :
    P { t := t' } := by
  refine endpoint.exec_invariant (I := fun t => P { t := t }) (fun s e s' hs hstep => ?_) hrun ht
  cases e with
  | work e =>
    simp only [endpoint, Option.ite_none_right_eq_some] at hstep
    obtain ⟨hproper, hstep⟩ := hstep
    rw [← Option.some.inj hstep]
    refine h.handle (fun now flags he => ?_) (fun _ _ _ => trivial) hs
    rw [he] at hproper
    exact of_decide_eq_true hproper
  | inbound e =>
    rw [← Option.some.inj hstep]
    exact h.receive e hs

end Transport
end Zdt
end Znet

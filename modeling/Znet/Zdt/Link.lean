import Znet.Zdt.Receiver

/-!
# Two endpoints and the network between them

Two transports and everything either of them has sent.  The network delivers any datagram
that was ever sent, at any time and any number of times: one it never delivers is lost, one
it delivers twice is duplicated, and the order is its own.

A record carries sixteen bits of its sequence number, and the receiver rebuilds the rest next
to the number it expects (`reconstructSeqFor`).
-/

namespace Znet
namespace Zdt
namespace Transport

/-! ## What records say about themselves -/

/-- The record carries the lowest bits of its number, and says that it is reliable. -/
structure Labelled (p : PendingRecord) : Prop where
  seq : p.record.messageSeq = BitVec.ofNat 16 p.key.messageSeq
  reliable : p.reliable = true → hasFlag p.record.flags kRecReliable = true

theorem labelled_makeRecord (owner : List UInt8) (offset length : Nat) {flags : BitVec 8}
    (channel : BitVec 8) (messageSeq : Nat) (fragIndex fragCount : BitVec 8) {reliable : Bool}
    (hflags : reliable = true → hasFlag flags kRecReliable = true) :
    Labelled (makeRecord owner offset length flags channel messageSeq fragIndex fragCount
      reliable) :=
  ⟨rfl, hflags⟩

theorem hasFlag_fragment_reliable (ordered : Bool) :
    hasFlag (recordFlags true ordered ||| kRecFragment) kRecReliable = true := by
  cases ordered <;> rfl

/-- Everything sent is labelled, and what is tracked stays so when it is sent again. -/
structure Labels (t : Transport) : Prop where
  sent : ∀ d ∈ t.wire, ∀ p ∈ d.records, Labelled p
  tracked : ∀ (key : MsgKey) (msg : OutReliable), t.unacked[key]? = some msg →
    hasFlag msg.dataFlags kRecReliable = true

variable {t t' : Transport}

theorem Labels.of_eq (h : Labels t) (hwire : t'.wire = t.wire) (hunacked : t'.unacked = t.unacked) :
    Labels t' :=
  ⟨by rw [hwire]; exact h.sent, by rw [hunacked]; exact h.tracked⟩

theorem Labels.sendOne (h : Labels t) (d : Datagram) (hgood : ∀ p ∈ d.records, Labelled p)
    (hwire : t'.wire = t.wire ++ [d]) (hunacked : t'.unacked = t.unacked) : Labels t' := by
  refine ⟨fun e he => ?_, by rw [hunacked]; exact h.tracked⟩
  rw [hwire] at he
  exact List.forall_mem_append.2 ⟨h.sent, List.forall_mem_singleton.2 hgood⟩ e he

theorem Labels.track (h : Labels t) {key : MsgKey} {msg : OutReliable}
    (hflags : hasFlag msg.dataFlags kRecReliable = true) (hwire : t'.wire = t.wire)
    (hunacked : t'.unacked = t.unacked.insert key msg) : Labels t' := by
  refine ⟨by rw [hwire]; exact h.sent, ?_⟩
  rw [hunacked]
  exact Keyed.forall_insert h.tracked hflags

theorem Labels.retireSentPacket (h : Labels t) (seq : WireSeq) :
    Labels (t.retireSentPacket seq) := by
  unfold Transport.retireSentPacket
  split
  · exact h
  · exact h.of_eq rfl rfl

theorem Labels.settle (h : Labels t) (key : MsgKey) :
    Labels { t with unacked := t.unacked.erase key, acked := t.acked ++ [key] } :=
  ⟨h.sent, Keyed.forall_erase h.tracked key⟩

/-- **The send path** labels what it sends. -/
theorem labels_kept : Kept Labelled Labels where
  same h hsame := h.of_eq hsame.wire hsame.unacked
  requeue h hsame := h.of_eq hsame.wire hsame.unacked
  close h := by
    unfold Transport.close
    split
    · exact h
    · exact h.sendOne _ (by simp) rfl rfl
  sendBatch now flags batch hgood h :=
    h.sendOne ⟨_, batch⟩ hgood (wire_sendBatch _ now flags batch)
      (unacked_sendBatch _ now flags batch)
  trackReliable pace pending offset log hgood hrel h := h.track (hgood.reliable hrel) rfl rfl
  update hmsg hsame h := h.track (hsame.dataFlags ▸ h.tracked _ _ hmsg) rfl rfl
  resent h hmsg := labelled_makeRecord _ _ _ _ _ _ _ fun _ => h.tracked _ _ hmsg
  retireSentPacket seq h := h.retireSentPacket seq
  settle key h := h.settle key
  takeSeq channel reliable h := h.of_eq rfl rfl
  whole queued channel seq := labelled_makeRecord _ _ _ _ _ _ _ fun hrel => by
    rw [hrel]
    exact hasFlag_recordFlags_reliable true _
  fragment config queued channel seq count i := labelled_makeRecord _ _ _ _ _ _ _ fun hrel => by
    rw [hrel]
    exact hasFlag_fragment_reliable _

theorem onRecord_sent (t : Transport) (now : TimePoint) (record : ZDTRecord) (data : List UInt8) :
    (t.onRecord now record data).1.wire = t.wire ∧
      (t.onRecord now record data).1.unacked = t.unacked := by
  unfold onRecord onDataFragment
  dsimp only
  repeat' split
  all_goals exact ⟨rfl, rfl⟩

/-- **The receive path** sends a pong at most. -/
theorem Kept.receive {good : PendingRecord → Prop} {I : Transport → Prop} (h : Kept good I)
    (hsent : ∀ {t t' : Transport}, I t → t'.wire = t.wire → t'.unacked = t.unacked → I t')
    (e : ReceiverEvent) (ht : I t) : I (t.receive e) := by
  unfold Transport.receive
  split
  · exact ht
  cases e with
  | prune now => exact hsent ht rfl rfl
  | datagram pace d =>
    have hacks : I (t.afterAcks pace d.header) := by
      unfold Transport.afterAcks
      split
      · exact ht
      · exact h.processAcks pace d.header ht
    have hall : I (d.records.foldl (takeRecord pace.now) { t := t.afterAcks pace d.header }).t :=
      List.foldlRecOn (motive := fun s : Intake => I s.t) _ _ hacks fun s hs entry _ =>
        have hsame := onRecord_sent { s.t with needsAck := true } pace.now entry.1 entry.2
        hsent hs hsame.1 hsame.2
    dsimp only
    unfold Transport.processDatagram
    rw [← Transport.afterAcks]
    dsimp only
    split
    · exact hsent hacks rfl rfl
    split
    · exact h.sendBatch pace.now kFlagPong [] (by simp) hacks
    split
    · exact hsent hall rfl rfl
    · exact hall

theorem Labels.receive (h : Labels t) (e : ReceiverEvent) : Labels (t.receive e) :=
  labels_kept.receive Labels.of_eq e h

/-- What was sent stays sent. -/
theorem wire_kept (t : Transport) : Kept (fun _ => True) fun t' => t.wire ⊆ t'.wire where
  same h hsame := hsame.wire ▸ h
  requeue h hsame := hsame.wire ▸ h
  close h := by
    unfold Transport.close
    split
    · exact h
    · exact List.Subset.trans h (List.subset_append_left _ _)
  sendBatch now flags batch _ h := by
    rw [wire_sendBatch]
    exact List.Subset.trans h (List.subset_append_left _ _)
  trackReliable _ _ _ _ _ _ h := h
  update _ _ h := h
  resent _ _ := trivial
  retireSentPacket seq h := by
    unfold Transport.retireSentPacket
    split <;> exact h
  settle _ h := h
  takeSeq _ _ h := h
  whole _ _ _ := trivial
  fragment _ _ _ _ _ _ := trivial

end Transport

open Transport

/-! ## The system -/

/-- The two endpoints. -/
inductive Side where
  | left
  | right
  deriving DecidableEq

def Side.peer : Side → Side
  | .left => .right
  | .right => .left

/-- The endpoints' states; each keeps what it has sent in `wire`. -/
abbrev Link := Side → Transport

/-- Whether an endpoint does it by itself; headers come from the network. -/
def Transport.SenderEvent.own : SenderEvent → Bool
  | .acks _ _ => false
  | _ => true

/-- What can happen. -/
inductive LinkEvent where
  /-- An endpoint's application or worker acts. -/
  | work (s : Side) (e : SenderEvent)
  | prune (s : Side) (now : TimePoint)
  /-- The network delivers the `i`-th datagram that the other endpoint ever sent. -/
  | deliver (dest : Side) (i : Nat) (pace : Pace)

/-- A datagram as the receiver parses it. -/
def Datagram.arrival (d : Datagram) : Inbound where
  header := d.header
  records := d.records.map fun p => (p.record, p.payload)

def link : Machine Link LinkEvent where
  step l e :=
    match e with
    | .work s e => if e.own then some (Function.update l s ((l s).handle e)) else none
    | .prune s now => some (Function.update l s ((l s).receive (.prune now)))
    | .deliver dest i pace =>
      ((l dest.peer).wire[i]?).map fun d =>
        Function.update l dest ((l dest).receive (.datagram pace d.arrival))

theorem link_work (l : Link) (s : Side) {e : SenderEvent} (he : e.own = true) :
    link.step l (.work s e) = some (Function.update l s ((l s).handle e)) :=
  if_pos he

variable {l : Link}

theorem link_deliver {dest : Side} {i : Nat} {d : Datagram} (hd : (l dest.peer).wire[i]? = some d)
    (pace : Pace) :
    link.step l (.deliver dest i pace) =
      some (Function.update l dest ((l dest).receive (.datagram pace d.arrival))) := by
  simp only [link, hd, Option.map_some]

/-- Two fresh endpoints. -/
def freshLink (config : Side → Config) : Link := fun s => { config := config s }

theorem labels_update (h : ∀ s, Labels (l s)) (s : Side) {t : Transport} (ht : Labels t)
    (s' : Side) :
    Labels (Function.update l s t s') := by
  by_cases hs : s' = s
  · rw [hs, Function.update_self]
    exact ht
  · rw [Function.update_of_ne hs]
    exact h s'

/-- **One event.** -/
theorem labels_step {l' : Link} {e : LinkEvent} (h : ∀ s, Labels (l s))
    (hstep : link.step l e = some l') (s : Side) : Labels (l' s) := by
  cases e with
  | work s₀ e =>
    simp only [link, Option.ite_none_right_eq_some] at hstep
    rw [← Option.some.inj hstep.2]
    exact labels_update h s₀ (labels_kept.handle e (h s₀)) s
  | prune s₀ now =>
    rw [← Option.some.inj hstep]
    exact labels_update h s₀ ((h s₀).receive _) s
  | deliver dest i pace =>
    obtain ⟨d, -, hd⟩ := Option.map_eq_some_iff.1 hstep
    rw [← hd]
    exact labels_update h dest ((h dest).receive _) s

/-- **Every run.** -/
theorem labels_run {config : Side → Config} {es : List LinkEvent}
    (hrun : link.exec (freshLink config) es = some l) (s : Side) : Labels (l s) := by
  refine link.exec_invariant (I := fun l => ∀ s, Labels (l s))
    (fun _ _ _ h hstep => labels_step h hstep) hrun
      (fun s => ⟨fun d hd => ?_, fun key msg hmsg => ?_⟩) s
  · cases hd
  · simp [freshLink] at hmsg

/-! ## Rebuilding sequence numbers -/

/-- The receiver when it reads the record behind `earlier`, in a datagram with this header. -/
def Transport.reading (t : Transport) (pace : Pace) (header : ZDTHeader)
    (earlier : List PendingRecord) : Transport :=
  ((earlier.map fun p => (p.record, p.payload)).foldl (takeRecord pace.now)
    { t := t.afterAcks pace header }).t

/-- The record `DeliverMessage` gets for one that was read. -/
def Transport.deliveredAs (record : ZDTRecord) : ZDTRecord :=
  if hasFlag record.flags kRecFragment then reassembled record else record

theorem hasFlag_reassembled (record : ZDTRecord) :
    hasFlag (reassembled record).flags kRecReliable = hasFlag record.flags kRecReliable := by
  have hbits : ∀ flags : BitVec 8,
      hasFlag (flags &&& ~~~kRecFragment) kRecReliable = hasFlag flags kRecReliable := by decide
  exact hbits record.flags

/-- Putting a message together does not change its number. -/
theorem reconstructSeqFor_deliveredAs {α : Type} (ch : ChannelState α) (record : ZDTRecord) :
    reconstructSeqFor ch (deliveredAs record) = reconstructSeqFor ch record := by
  unfold deliveredAs
  split
  · simp only [reconstructSeqFor, hasFlag_reassembled]
    rfl
  · rfl

/-- The receiver is no more than half a wire period past the number, and the number less than
half a period ahead, or both are in the first period. -/
def InWindow (expected seq : Nat) : Prop :=
  expected ≤ seq + kMaxSeqGap ∧ (seq < expected + kMaxSeqGap ∨ (seq < 65536 ∧ expected < 65536))

instance (expected seq : Nat) : Decidable (InWindow expected seq) :=
  inferInstanceAs (Decidable (_ ∧ _))

/-- The number the receiver rebuilds an unreliable record next to. -/
def nextUnreliable {α : Type} (ch : ChannelState α) : Nat :=
  if ch.unrelStarted then ch.unrelLast + 1 else 0

/-- The number of the sender's that a record is rebuilt next to. -/
def Transport.expects (t : Transport) (channel : BitVec 8) (reliable : Bool) : Nat :=
  if reliable then (t.channels channel).relExpected else nextUnreliable (t.channels channel)

theorem Transport.messageSeq_assemblyKey (t : Transport) (record : ZDTRecord) :
    (t.assemblyKey record).messageSeq = reconstructSeq record.messageSeq
      (t.expects record.channel (hasFlag record.flags kRecReliable)) := by
  show reconstructSeqFor (t.channels record.channel) record = _
  unfold reconstructSeqFor expects nextUnreliable
  cases hasFlag record.flags kRecReliable <;> rfl

/-- **When numbers are rebuilt.**  In every run, whatever the network lost, repeated, delayed or
reordered: a reliable record of a datagram the other endpoint sent is given the number it was
sent under exactly when that number is in the window of what the receiver expects as it reads
the record. -/
theorem reconstructed_iff (config : Side → Config) (es : List LinkEvent) (l : Link)
    (hrun : link.exec (freshLink config) es = some l) (dest : Side) (pace : Pace) (d : Datagram)
    (hd : d ∈ (l dest.peer).wire) (earlier later : List PendingRecord) (p : PendingRecord)
    (hrecords : d.records = earlier ++ p :: later) (hrel : p.reliable = true) :
    reconstructSeqFor (((l dest).reading pace d.header earlier).channels p.record.channel)
        (deliveredAs p.record) = p.key.messageSeq ↔
      InWindow (((l dest).reading pace d.header earlier).channels p.record.channel).relExpected
        p.key.messageSeq := by
  have hp : Labelled p := (labels_run hrun dest.peer).sent d hd p (by simp [hrecords])
  rw [reconstructSeqFor_deliveredAs, reconstructSeqFor, if_pos (hp.reliable hrel), hp.seq]
  exact reconstructSeq_eq_iff _ _

/-- A message goes out. -/
def firstRun : List LinkEvent :=
  [.work .left (.send { payload := [7] }), .work .left (.flush calm)]

/-- The datagram it goes out in. -/
def firstDatagram : Datagram where
  header := { packetSeq := 1 }
  records := [wholeRecord { payload := [7] } 0 0]

theorem reconstructed_iff_first :
    ∃ l, link.exec (freshLink fun _ => {}) firstRun = some l ∧
      firstDatagram ∈ (l .left).wire ∧
      (reconstructSeqFor (((l .right).reading calm firstDatagram.header []).channels 0)
          (deliveredAs (wholeRecord { payload := [7] } 0 0).record) = 0 ↔
        InWindow (((l .right).reading calm firstDatagram.header []).channels 0).relExpected 0) ∧
      InWindow (((l .right).reading calm firstDatagram.header []).channels 0).relExpected 0 := by
  apply Machine.exists_exec (P := fun l => firstDatagram ∈ (l .left).wire ∧
    InWindow (((l .right).reading calm firstDatagram.header []).channels 0).relExpected 0)
    (by decide +kernel)
  rintro l hrun ⟨hd, hwindow⟩
  exact ⟨hd, reconstructed_iff _ _ l hrun .right _ firstDatagram hd [] [] _ rfl rfl, hwindow⟩

end Zdt
end Znet

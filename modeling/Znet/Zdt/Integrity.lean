import Znet.Lib.Tally
import Znet.Zdt.Link
import Znet.Zdt.Provenance

/-!
# Messages arrive as they were sent

What an endpoint hands to its application is the payload of one message of the other endpoint,
whatever the network lost, repeated, delayed or reordered.  For messages of one record that is
always so.  Fragments are put together under a number that the receiver rebuilds from sixteen
bits (`assemblyKey`), next to a number that unreliable unordered messages never move; two
messages may be given the same one.

* `delivered_intact` — **in every run whose fragments are read while their message's number is in
  reach** every payload delivered is that of a message the other endpoint accepted.
-/

namespace Znet
namespace Zdt

/-! ## One channel -/

section Channel

variable {α : Type}

/-- Everything delivered or held back is good. -/
structure Holding (good : α → Prop) (s : Receiving α) : Prop where
  ready : ∀ payload ∈ s.ready, good payload
  reorder : ∀ (seq : Nat) (payload : α), s.channel.relReorder[seq]? = some payload → good payload

theorem relReorder_advanceAhead (fuel : Nat) (ch : ChannelState α) :
    (advanceAhead fuel ch).relReorder = ch.relReorder := by
  induction fuel generalizing ch with
  | zero => rfl
  | succ fuel ih =>
    unfold advanceAhead
    split
    · exact ih _
    · rfl

variable {good : α → Prop} {s : Receiving α}

theorem Holding.push (h : Holding good s) {payload : α} (hgood : good payload) {ch : ChannelState α}
    (hreorder : ch.relReorder = s.channel.relReorder) :
      Holding good ⟨ch, s.ready ++ [payload]⟩ where
  ready := List.forall_mem_append.2 ⟨h.ready, List.forall_mem_singleton.2 hgood⟩
  reorder := hreorder ▸ h.reorder

theorem Holding.drainReorder (fuel : Nat) (h : Holding good s) :
    Holding good (drainReorder fuel s) := by
  induction fuel generalizing s with
  | zero => exact h
  | succ fuel ih =>
    unfold Zdt.drainReorder
    split
    · exact h
    · next payload hpayload =>
      apply ih
      have hpushed : Holding good ⟨s.channel, s.ready ++ [payload]⟩ :=
        h.push (h.reorder _ _ hpayload) rfl
      refine ⟨hpushed.ready, ?_⟩
      intro seq x hx
      rw [Std.ExtTreeMap.getElem?_erase] at hx
      split at hx
      · cases hx
      · exact h.reorder seq x hx

/-- **A message is handed to its channel.** -/
theorem Holding.deliverMessage (h : Holding good s) (record : ZDTRecord) {payload : α}
    (hgood : good payload) : Holding good (deliverMessage s record payload) := by
  unfold Zdt.deliverMessage
  dsimp only
  split
  · exact h.push hgood rfl
  split
  · split
    · exact h.push hgood rfl
    · exact h
  split
  · split
    · exact h
    · exact h.push hgood (relReorder_advanceAhead _ _)
  split
  · exact h
  split
  · exact Holding.drainReorder _ (h.push hgood rfl)
  · refine ⟨h.ready, ?_⟩
    intro seq x hx
    rw [Std.ExtTreeMap.getElem?_insertIfNew] at hx
    split at hx
    · rw [← Option.some.inj hx]
      exact hgood
    · exact h.reorder seq x hx

end Channel

namespace Transport

/-! ## The receiver -/

/-- Everything the transport delivered or holds back is good, and so are the fragments it holds. -/
structure Received (good : List UInt8 → Prop) (piece : MsgKey → Nat → List UInt8 → Prop)
    (t : Transport) : Prop where
  ready : ∀ payload ∈ t.ready, good payload
  reorder : ∀ (channel : BitVec 8) (seq : Nat) (payload : List UInt8),
    (t.channels channel).relReorder[seq]? = some payload → good payload
  held : ∀ (key : MsgKey) (a : Reassembly), t.reassembly[key]? = some a →
    ∀ (i : Nat) (data : List UInt8), a.fragments[i]? = some data → piece key i data

/-- The fragments that are held where the record's fragment will be put. -/
def heldWith (t : Transport) (record : ZDTRecord) : Std.ExtTreeMap Nat (List UInt8) compare :=
  ((t.reassembly[t.assemblyKey record]?).getD {}).fragments

theorem fragments_assemblyFor_eq (t : Transport) (now : TimePoint) (record : ZDTRecord) :
    (t.assemblyFor now record).fragments = t.heldWith record := by
  unfold assemblyFor heldWith
  dsimp only
  split <;> rfl

section Received

variable {good : List UInt8 → Prop} {piece : MsgKey → Nat → List UInt8 → Prop} {t t' : Transport}

section

variable (h : Received good piece t)

include h

theorem Received.same (hsame : SameReceived t t') : Received good piece t' where
  ready := hsame.ready ▸ h.ready
  reorder channel seq payload hpayload :=
    h.reorder channel seq payload (hsame.relReorder channel ▸ hpayload)
  held := hsame.reassembly ▸ h.held

theorem Received.mono {piece' : MsgKey → Nat → List UInt8 → Prop}
    (hmono : ∀ key i data, piece key i data → piece' key i data) : Received good piece' t :=
  { h with held := fun key a ha i data hdata => hmono _ _ _ (h.held key a ha i data hdata) }

theorem Received.deliver (record : ZDTRecord) {payload : List UInt8}
    (hgood : good payload) : Received good piece (t.deliver record payload) := by
  have hs : Holding good (deliverMessage ⟨t.channels record.channel, t.ready⟩ record payload) :=
    Holding.deliverMessage ⟨h.ready, h.reorder record.channel⟩ record hgood
  refine ⟨hs.ready, ?_, h.held⟩
  intro channel seq x hx
  change (Function.update t.channels record.channel _ channel).relReorder[seq]? = some x at hx
  by_cases hc : channel = record.channel
  · subst hc
    rw [Function.update_self] at hx
    exact hs.reorder seq x hx
  · rw [Function.update_of_ne hc] at hx
    exact h.reorder channel seq x hx

theorem Received.heldWith (record : ZDTRecord) (i : Nat)
    (data : List UInt8) (hdata : (t.heldWith record)[i]? = some data) :
    piece (t.assemblyKey record) i data := by
  unfold Transport.heldWith at hdata
  cases hentry : t.reassembly[t.assemblyKey record]? with
  | none =>
    rw [hentry] at hdata
    simp at hdata
  | some a =>
    rw [hentry] at hdata
    exact h.held _ a hentry i data hdata

end

/-- What a message would be put together from if this fragment were the last. -/
def gathering (t : Transport) (now : TimePoint) (record : ZDTRecord) (data : List UInt8) :
    Std.ExtTreeMap Nat (List UInt8) compare :=
  (t.assemblyFor now record).fragments.insert record.fragIndex.toNat data

theorem Received.onDataFragment (h : Received good piece t) (now : TimePoint) (record : ZDTRecord)
    (data : List UInt8) (hpiece : piece (t.assemblyKey record) record.fragIndex.toNat data)
    (hgood : (t.gathering now record data).size = record.fragCount.toNat →
      good ((t.gathering now record data).toList.flatMap Prod.snd)) :
    Received good piece (t.onDataFragment now record data).1 := by
  have hheld := h.heldWith record
  rw [← fragments_assemblyFor_eq t now] at hheld
  unfold Transport.onDataFragment
  split
  · exact h
  split
  · exact h
  dsimp only
  split
  · exact { h with held := Keyed.forall_insert h.held hheld }
  · next hcount =>
    split
    · refine { h with held := Keyed.forall_insert h.held fun i bytes hbytes => ?_ }
      change ((t.assemblyFor now record).fragments.insert _ data)[i]? = some bytes at hbytes
      rw [Keyed.getElem?_insert_eq] at hbytes
      split at hbytes
      · next hi =>
        obtain rfl := Option.some.inj hbytes
        exact hi ▸ hpiece
      · exact hheld i bytes hbytes
    · next hsize =>
      rw [not_not] at hcount hsize
      rw [hcount] at hsize
      refine Received.deliver ?_ _ (hgood hsize)
      exact { h with held := Keyed.forall_erase h.held _ }

/-- **One record.** -/
theorem Received.onRecord (h : Received good piece t) (now : TimePoint) (record : ZDTRecord)
    (data : List UInt8) (hwhole : hasFlag record.flags kRecFragment = false → good data)
    (hfragment : hasFlag record.flags kRecFragment = true →
      piece (t.assemblyKey record) record.fragIndex.toNat data ∧
        ((t.gathering now record data).size = record.fragCount.toNat →
          good ((t.gathering now record data).toList.flatMap Prod.snd))) :
    Received good piece (t.onRecord now record data).1 := by
  unfold Transport.onRecord
  split
  · next hflag =>
    obtain ⟨hpiece, hlast⟩ := hfragment hflag
    exact h.onDataFragment now record data hpiece hlast
  · next hflag => exact h.deliver record (hwhole (by simpa using hflag))

end Received

/-! ## Fragments of one message -/

/-- The bytes were sent as fragment `i` of the message of that number. -/
def Sent (sender : Transport) (key : MsgKey) (i : Nat) (data : List UInt8) : Prop :=
  ∃ d ∈ sender.wire, ∃ p ∈ d.records, p.key.channel = key.channel ∧
    p.key.reliable = key.reliable ∧ p.key.messageSeq = key.messageSeq ∧
    p.record.fragIndex.toNat = i ∧ p.payload = data

/-- The record's message has a number that is rebuilt right. -/
def Reached (t : Transport) (p : PendingRecord) : Prop :=
  InWindow (t.expects p.key.channel p.key.reliable) p.key.messageSeq

instance (t : Transport) (p : PendingRecord) : Decidable (Reached t p) :=
  inferInstanceAs (Decidable (InWindow _ _))

/-- A record in reach is filed under its message's own number. -/
theorem Carried.assemblyKey {numbering : Numbering} {c : Config} {p : PendingRecord}
    (hp : Carried numbering c p) {t : Transport} (hreached : Reached t p) :
    t.assemblyKey p.record = { p.key with fragIndex := 0 } := by
  obtain ⟨_, -, hpiece⟩ := hp
  obtain ⟨hchannel, hreliable, hwire⟩ := hpiece.label
  have hseq := t.messageSeq_assemblyKey p.record
  rw [hchannel, hreliable, hwire, (reconstructSeq_eq_iff _ _).2 hreached] at hseq
  have hrest : t.assemblyKey p.record = { channel := p.record.channel
                                          reliable := hasFlag p.record.flags kRecReliable
                                          messageSeq := (t.assemblyKey p.record).messageSeq } := rfl
  rw [hrest, hseq, hchannel, hreliable]

section Assembly

variable {accepts : QueuedOut → Prop} {c : Config} {numbering : Numbering}
  {sender receiver : Transport}

/-- A payload of an accepted message. -/
def Genuine (accepts : QueuedOut → Prop) (payload : List UInt8) : Prop :=
  ∃ queued, accepts queued ∧ queued.payload = payload

/-- What a record of one datagram carries, when the message is whole. -/
theorem Traced.genuine_whole (h : Traced accepts c numbering { t := sender }) {p : PendingRecord}
    (hp : Carried numbering c p) (hflag : hasFlag p.record.flags kRecFragment = false) :
    Genuine accepts p.payload := by
  obtain ⟨queued, hnumber, hpiece⟩ := hp
  exact ⟨queued, h.accepted _ _ _ queued hnumber, (hpiece.payload_whole hflag).symm⟩

/-- **Fragments of one message give it back.** -/
theorem Traced.genuine_assembled (h : Traced accepts c numbering { t := sender })
    {p : PendingRecord} (hp : Carried numbering c p)
    (hflag : hasFlag p.record.flags kRecFragment = true) (hreached : Reached receiver p)
    (hreceived : Received (Genuine accepts) (Sent sender) receiver) (now : TimePoint)
    (hsize : (receiver.gathering now p.record p.payload).size = p.record.fragCount.toNat) :
    Genuine accepts ((receiver.gathering now p.record p.payload).toList.flatMap Prod.snd) := by
  have hkey := hp.assemblyKey hreached
  obtain ⟨queued, hnumber, hpiece⟩ := hp
  have hbig := hpiece.big hflag
  obtain ⟨hcount, hindex, hpayload⟩ := hpiece.payload_fragment hbig
  -- what is held are pieces of the same message, since the number is
  have hheld : Pieces.Collects (fragCapacity c) queued.payload
      (fragmentCount c queued.payload.length) (receiver.heldWith p.record) := by
    intro i data hdata
    obtain ⟨d, hd, p', hp', hchannel, hreliable, hseq, hi, hbytes⟩ :=
      hreceived.heldWith p.record i data hdata
    rw [hkey] at hchannel hreliable hseq
    obtain ⟨queued', hnumber', hpiece'⟩ := h.sent d hd p' hp'
    rw [hchannel, hreliable, hseq, hnumber] at hnumber'
    obtain rfl := Option.some.inj hnumber'
    obtain ⟨-, hindex', hpayload'⟩ := hpiece'.payload_fragment hbig
    obtain rfl : p'.record.fragIndex.toNat = i := hi
    obtain rfl : p'.payload = data := hbytes
    exact ⟨hindex', hpayload'⟩
  have hall : Pieces.Collects (fragCapacity c) queued.payload
      (fragmentCount c queued.payload.length) (receiver.gathering now p.record p.payload) := by
    unfold gathering
    rw [fragments_assemblyFor_eq, hpayload]
    exact hheld.insert hindex
  refine ⟨queued, h.accepted _ _ _ queued hnumber, ?_⟩
  exact (hall.assemble (hsize.trans hcount) (length_le_fragments c _)).symm

end Assembly

/-! ## One datagram -/

/-- The number of each fragment of the datagram is in reach as the fragment is read. -/
def DatagramReached (receiver : Transport) (pace : Pace) (d : Datagram) : Prop :=
  ∀ k (hk : k < d.records.length),
    hasFlag (d.records.get ⟨k, hk⟩).record.flags kRecFragment = true →
    Reached (receiver.reading pace d.header (d.records.take k)) (d.records.get ⟨k, hk⟩)

instance (receiver : Transport) (pace : Pace) (d : Datagram) :
    Decidable (DatagramReached receiver pace d) :=
  inferInstanceAs (Decidable (∀ k (_ : k < d.records.length), _ → _))

theorem reading_take_succ (t : Transport) (pace : Pace) (header : ZDTHeader)
    (records : List PendingRecord) {k : Nat} (hk : k < records.length) :
    t.reading pace header (records.take (k + 1)) =
      ({ t.reading pace header (records.take k) with needsAck := true }.onRecord pace.now
        (records.get ⟨k, hk⟩).record (records.get ⟨k, hk⟩).payload).1 := by
  unfold reading
  rw [List.take_add_one, List.getElem?_eq_getElem hk, List.map_append, List.foldl_append]
  rfl

section Datagram

variable {accepts : QueuedOut → Prop} {c : Config} {numbering : Numbering}
  {sender receiver : Transport}

/-- Whatever part of the datagram has been read. -/
theorem Received.reading (h : Received (Genuine accepts) (Sent sender) receiver)
    (htraced : Traced accepts c numbering { t := sender }) (pace : Pace) {d : Datagram}
    (hd : d ∈ sender.wire) (hreached : DatagramReached receiver pace d) (k : Nat)
    (hk : k ≤ d.records.length) :
    Received (Genuine accepts) (Sent sender)
      (receiver.reading pace d.header (d.records.take k)) := by
  induction k with
  | zero => exact h.same (sameReceived_afterAcks receiver pace d.header)
  | succ k ih =>
    have hp : Carried numbering c (d.records.get ⟨k, hk⟩) :=
      htraced.sent d hd _ (List.get_mem _ _)
    rw [reading_take_succ _ _ _ _ hk]
    apply Received.onRecord
    · exact (ih (by omega)).same {}
    · intro hflag
      exact htraced.genuine_whole hp hflag
    · intro hflag
      have hreach := hreached k hk hflag
      refine ⟨?_, htraced.genuine_assembled hp hflag hreach ((ih (by omega)).same {}) pace.now⟩
      refine ⟨d, hd, _, List.get_mem _ ⟨k, hk⟩, ?_⟩
      have hkey := hp.assemblyKey hreach
      exact ⟨(congrArg MsgKey.channel hkey).symm, (congrArg MsgKey.reliable hkey).symm,
        (congrArg MsgKey.messageSeq hkey).symm, rfl, rfl⟩

/-- **A datagram of the other endpoint.** -/
theorem Received.datagram (h : Received (Genuine accepts) (Sent sender) receiver)
    (htraced : Traced accepts c numbering { t := sender }) (pace : Pace) {d : Datagram}
    (hd : d ∈ sender.wire) (hreached : DatagramReached receiver pace d) :
    Received (Genuine accepts) (Sent sender) (receiver.receive (.datagram pace d.arrival)) := by
  have hacks := h.same (sameReceived_afterAcks receiver pace d.header)
  have hall := h.reading htraced pace hd hreached d.records.length le_rfl
  rw [List.take_length] at hall
  unfold Transport.receive
  split
  · exact h
  · dsimp only
    unfold processDatagram
    rw [← afterAcks]
    dsimp only
    split
    · exact { hacks with }
    · split
      · exact hacks.same ((sameReceived_kept _).sendBatch _ _ _ (by simp) {})
      · split
        · exact { hall with }
        · exact hall

end Datagram

end Transport

open Transport

/-! ## Runs -/

/-- Each fragment that is delivered is read while its message's number is in reach. -/
def FragmentsReached (l : Link) : LinkEvent → Prop
  | .deliver dest i pace => ∀ d ∈ (l dest.peer).wire[i]?, DatagramReached (l dest) pace d
  | _ => True

instance (l : Link) : (e : LinkEvent) → Decidable (FragmentsReached l e)
  | .work _ _ => .isTrue trivial
  | .prune _ _ => .isTrue trivial
  | .deliver dest i pace =>
    inferInstanceAs (Decidable (∀ d ∈ (l dest.peer).wire[i]?, DatagramReached (l dest) pace d))

/-- What `Send` accepts on a side when an event happens. -/
def accepting (s : Side) (l : Link) : LinkEvent → List QueuedOut
  | .work s' (.send queued) => if s' = s ∧ ((l s).send queued).2 then [queued] else []
  | _ => []

/-- The messages for which `Send` returned true on a side, in a run. -/
def accepted (s : Side) : Link → List LinkEvent → List QueuedOut
  | _, [] => []
  | l, e :: es =>
    accepting s l e ++
      match link.step l e with
      | some l' => accepted s l' es
      | none => []

/-- Everything sent is traced to accepted messages, and everything received is genuine. -/
structure Intact (accepts : Side → QueuedOut → Prop) (config : Side → Config)
    (l : Link) : Prop where
  sent : ∀ s, ∃ numbering, Traced (accepts s) (config s) numbering { t := l s }
  received : ∀ s, Received (Genuine (accepts s.peer)) (Sent (l s.peer)) (l s)

section Intact

variable {accepts : Side → QueuedOut → Prop} {config : Side → Config} {l : Link}

theorem Side.peer_ne (s : Side) : s.peer ≠ s := by
  cases s <;> decide

theorem Intact.update (h : Intact accepts config l) (s : Side) {t : Transport}
    (hsent : ∃ numbering, Traced (accepts s) (config s) numbering { t := t })
    (hwire : (l s).wire ⊆ t.wire)
    (hreceived : Received (Genuine (accepts s.peer)) (Sent (l s.peer)) t) :
    Intact accepts config (Function.update l s t) := by
  refine ⟨fun s' => ?_, fun s' => ?_⟩
  · by_cases hs : s' = s
    · subst hs
      rw [Function.update_self]
      exact hsent
    · rw [Function.update_of_ne hs]
      exact h.sent s'
  · by_cases hs : s' = s
    · subst hs
      rw [Function.update_self, Function.update_of_ne s'.peer_ne]
      exact hreceived
    · obtain rfl : s = s'.peer := by
        cases s <;> cases s' <;> first | rfl | exact absurd rfl hs
      rw [Function.update_of_ne hs, Function.update_self]
      exact (h.received s').mono fun key i data ⟨d, hd, hpiece⟩ => ⟨d, hwire hd, hpiece⟩

/-- **One event.** -/
theorem Intact.step (h : Intact accepts config l) {e : LinkEvent} {l' : Link}
    (hok : FragmentsReached l e) (haccepts : ∀ s, ∀ queued ∈ accepting s l e, accepts s queued)
    (hstep : link.step l e = some l') : Intact accepts config l' := by
  cases e with
  | work s e =>
    simp only [link, Option.ite_none_right_eq_some] at hstep
    rw [← Option.some.inj hstep.2]
    apply h.update
    · apply (traced_withstands (accepts s) (config s)).handle
      · intro _ _ _
        trivial
      · intro queued he htaken
        apply haccepts s
        rw [he, accepting, if_pos ⟨rfl, htaken⟩]
        exact List.mem_singleton.2 rfl
      · exact h.sent s
    · exact (wire_kept (l s)).handle e (List.Subset.refl _)
    · exact (h.received s).same ((sameReceived_kept (l s)).handle e {})
  | prune s now =>
    rw [← Option.some.inj hstep]
    apply h.update
    · exact (traced_withstands (accepts s) (config s)).receive _ (h.sent s)
    · exact (wire_kept (l s)).receive (fun h hwire _ => hwire ▸ h) _ (List.Subset.refl _)
    · have hreceived := h.received s
      unfold Transport.receive
      split
      · exact hreceived
      · refine { hreceived with held := fun key a ha => hreceived.held key a ?_ }
        change ((l s).reassembly.filter _)[key]? = some a at ha
        rw [Std.ExtTreeMap.getElem?_filter'] at ha
        exact (Option.filter_eq_some_iff.1 ha).1
  | deliver dest i pace =>
    obtain ⟨d, hd, hl'⟩ := Option.map_eq_some_iff.1 hstep
    obtain ⟨numbering, htraced⟩ := h.sent dest.peer
    rw [← hl']
    apply h.update
    · exact (traced_withstands (accepts dest) (config dest)).receive _ (h.sent dest)
    · exact (wire_kept (l dest)).receive (fun h hwire _ => hwire ▸ h) _ (List.Subset.refl _)
    · exact (h.received dest).datagram htraced pace (List.mem_of_getElem? hd) (hok d hd)

/-- **Every run.** -/
theorem Intact.run {es : List LinkEvent} {l' : Link}
    (hrun : GuardedRun link FragmentsReached l es l')
    (haccepts : ∀ s, ∀ queued ∈ accepted s l es, accepts s queued) (h : Intact accepts config l) :
    Intact accepts config l' := by
  induction hrun with
  | nil => exact h
  | cons hok hstep _ ih =>
    unfold accepted at haccepts
    rw [hstep] at haccepts
    apply ih
    · intro s queued hqueued
      exact haccepts s queued (List.mem_append_right _ hqueued)
    · apply h.step hok _ hstep
      intro s queued hqueued
      exact haccepts s queued (List.mem_append_left _ hqueued)

end Intact

/-- **Messages arrive as they were sent.**  In every run of two endpoints, with any messages on
any channels and in any mode, whatever the network lost, repeated, delayed or reordered, in
which the number of each fragment's message is in reach of the number it is rebuilt next to:
every payload an endpoint pushed to `ready_` is the payload of one message that the other
endpoint's `Send` accepted. -/
theorem delivered_intact (config : Side → Config) (es : List LinkEvent) (l : Link)
    (hrun : GuardedRun link FragmentsReached (freshLink config) es l) (dest : Side)
    (payload : List UInt8) (hready : payload ∈ (l dest).ready) :
    ∃ queued ∈ accepted dest.peer (freshLink config) es, queued.payload = payload := by
  have hstart : Intact (fun s queued => queued ∈ accepted s (freshLink config) es) config
      (freshLink config) := by
    constructor
    · intro s
      exact ⟨_, traced_fresh _ (config s)⟩
    · intro s
      refine ⟨by simp [freshLink], ?_, ?_⟩
      · intro channel seq x hx
        simp [freshLink] at hx
      · intro key a ha
        simp [freshLink] at ha
  have hintact := hstart.run hrun (fun _ _ hqueued => hqueued)
  obtain ⟨queued, hqueued, hpayload⟩ := (hintact.received dest).ready payload hready
  exact ⟨queued, hqueued, hpayload⟩

/-- A message of two fragments and one of a single record, of which the network delivers the
fragments in reverse order and the first one twice. -/
def shuffledRun : List LinkEvent :=
  [.work .left (.send { payload := [1, 2, 3, 4, 5, 6] }), .work .left (.send { payload := [7] }),
    .work .left (.flush calm), .deliver .right 2 calm, .deliver .right 1 calm,
    .deliver .right 0 calm, .deliver .right 0 calm]

theorem delivered_intact_shuffled :
    ∃ l, GuardedRun link FragmentsReached (freshLink fun _ => { mtu := 33 }) shuffledRun l ∧
      (l .right).ready = [[1, 2, 3, 4, 5, 6], [7]] ∧
      ∀ payload ∈ (l .right).ready, ∃ queued ∈ accepted .left (freshLink fun _ => { mtu := 33 })
        shuffledRun, queued.payload = payload := by
  apply GuardedRun.exists_run (P := fun l => (l .right).ready = [[1, 2, 3, 4, 5, 6], [7]])
    (by decide +kernel)
  intro l hrun hready
  refine ⟨hready, ?_⟩
  intro payload hpayload
  exact delivered_intact _ _ l hrun .right payload hpayload

end Zdt
end Znet

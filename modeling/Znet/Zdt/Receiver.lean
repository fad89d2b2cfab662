import Znet.Zdt.SenderRuns

/-!
# The receive path

The receiver's half of `zdt_transport.cc`: a datagram's header and records are taken apart
(`processDatagram`), fragments are collected until their message is whole (`onDataFragment`),
whole messages are handed to `deliverMessage`, and the datagram is recorded in
`ack_history_` when all of its records were taken.  `pruneReassembly` drops partly received
messages that are too old.

Acknowledging a datagram lets the sender forget the fragments in it.
-/

namespace Znet
namespace Zdt

/-- A datagram as it is parsed; what follows a malformed record is not looked at. -/
structure Inbound where
  header : ZDTHeader
  records : List (ZDTRecord × List UInt8)

namespace Transport

/-! ## The functions -/

variable (t : Transport)

/-- `DeliverMessage`. -/
def deliver (record : ZDTRecord) (payload : List UInt8) : Transport :=
  let s := deliverMessage ⟨t.channels record.channel, t.ready⟩ record payload
  { t with channels := Function.update t.channels record.channel s.channel, ready := s.ready }

/-- The key `OnDataFragment` files a fragment under. -/
def assemblyKey (record : ZDTRecord) : MsgKey :=
  { channel := record.channel
    reliable := hasFlag record.flags kRecReliable
    messageSeq := reconstructSeqFor (t.channels record.channel) record }

/-- The bytes held for one message. -/
def Reassembly.bytes (a : Reassembly) : Nat := (a.fragments.toList.map fun f => f.2.length).sum

variable (now : TimePoint) (record : ZDTRecord)

/-- The entry a fragment is stored in, made when there is none. -/
def assemblyFor : Reassembly :=
  let a := (t.reassembly[t.assemblyKey record]?).getD {}
  if a.fragCount = 0 then { a with fragCount := record.fragCount, firstSeen := now } else a

/-- Whether a fragment that would start a new message is refused. -/
def atCapacity : Bool :=
  (t.reassembly[t.assemblyKey record]?).isNone &&
    (decide (t.config.maxReassemblies ≤ t.reassembly.size) ||
      decide (t.config.maxReassemblyBytes ≤ t.reassemblyBytes))

/-- The record `OnDataFragment` hands a whole message on under. -/
def reassembled : ZDTRecord :=
  { record with flags := record.flags &&& ~~~kRecFragment, fragIndex := 0, fragCount := 1 }

/-- `OnDataFragment`; false when the fragment was refused. -/
def onDataFragment (data : List UInt8) : Transport × Bool :=
  if record.fragCount = 0 ∨ record.fragCount ≤ record.fragIndex then (t, true)
  else if t.atCapacity record then (t, !hasFlag record.flags kRecReliable)
  else
    let key := t.assemblyKey record
    let a := t.assemblyFor now record
    if a.fragCount ≠ record.fragCount then
      ({ t with reassembly := t.reassembly.insert key a }, true)
    else
      let old := (a.fragments[record.fragIndex.toNat]?).getD []
      let a := { a with fragments := a.fragments.insert record.fragIndex.toNat data }
      let bytes := t.reassemblyBytes - old.length + data.length
      if a.fragments.size ≠ a.fragCount.toNat then
        ({ t with reassembly := t.reassembly.insert key a, reassemblyBytes := bytes }, true)
      else
        let t := { t with
          reassembly := t.reassembly.erase key
          reassemblyBytes := bytes - Reassembly.bytes a
          handed := t.handed ++ [key] }
        (t.deliver (reassembled record) (a.fragments.toList.flatMap Prod.snd), true)

/-- `OnRecord`; false when the record was refused. -/
def onRecord (data : List UInt8) : Transport × Bool :=
  if hasFlag record.flags kRecFragment then t.onDataFragment now record data
  else (t.deliver record data, true)

/-- A loop state of `ProcessInbound`, and whether every record so far was taken. -/
structure Intake where
  t : Transport
  acceptedAll : Bool := true

/-- One record. -/
def takeRecord (s : Intake) (entry : ZDTRecord × List UInt8) : Intake :=
  let (t, taken) := { s.t with needsAck := true }.onRecord now entry.1 entry.2
  { t, acceptedAll := s.acceptedAll && taken }

/-- One datagram of `ProcessInbound`. -/
def processDatagram (pace : Pace) (d : Inbound) : Transport :=
  let t := if d.header.packetSeq = 0 then t else t.processAcks pace d.header
  if hasFlag d.header.flags kFlagFin then { t with isClosed := true }
  else if hasFlag d.header.flags kFlagPing then t.sendControl pace.now kFlagPong
  else
    let s := d.records.foldl (takeRecord pace.now) { t := t }
    if d.header.packetSeq ≠ 0 ∧ s.acceptedAll then
      { s.t with ackHistory := s.t.ackHistory.record d.header.packetSeq }
    else s.t

/-- `PruneReassembly`. -/
def pruneReassembly : Transport :=
  let stale := fun a : Reassembly => decide (t.config.reassemblyTimeout < now - a.firstSeen)
  { t with
    reassembly := t.reassembly.filter fun _ a => !stale a
    reassemblyBytes := t.reassemblyBytes -
      ((t.reassembly.toList.filter fun e => stale e.2).map fun e => Reassembly.bytes e.2).sum }

/-! ## Fragments are held or handed on -/

/-- The message was handed on after it had been `base` times, or it was not and the fragment is
held. -/
def Stored (base : Nat) (key : MsgKey) (i : Nat) (t : Transport) : Prop :=
  base < t.handed.count key ∨ base = t.handed.count key ∧
    ∃ a : Reassembly, t.reassembly[key]? = some a ∧ a.fragments[i]? ≠ none

/-- Two transports that agree on the messages that were received. -/
structure SameReceived (t t' : Transport) : Prop where
  ready : t'.ready = t.ready := by rfl
  reassembly : t'.reassembly = t.reassembly := by rfl
  handed : t'.handed = t.handed := by rfl
  relReorder : ∀ channel, (t'.channels channel).relReorder = (t.channels channel).relReorder := by
    intros; rfl

variable {t t' : Transport} {key : MsgKey} {i base : Nat} {record : ZDTRecord}

theorem SameReceived.trans {t'' : Transport} (h : SameReceived t t') (h' : SameReceived t' t'') :
    SameReceived t t'' where
  ready := h'.ready.trans h.ready
  reassembly := h'.reassembly.trans h.reassembly
  handed := h'.handed.trans h.handed
  relReorder channel := (h'.relReorder channel).trans (h.relReorder channel)

theorem SameReceived.stored (h : SameReceived t t') (hs : Stored base key i t) :
    Stored base key i t' := by
  unfold Stored
  rw [h.handed, h.reassembly]
  exact hs

theorem sameReceived_takeSeq (t : Transport) (channel : BitVec 8) (reliable : Bool) :
    SameReceived t (t.takeSeq channel reliable).1 where
  relReorder channel' := by
    show (Function.update t.channels channel _ channel').relReorder = _
    by_cases hc : channel' = channel
    · subst hc
      rw [Function.update_self]
      cases reliable <;> rfl
    · rw [Function.update_of_ne hc]

/-- **The send path receives nothing.** -/
theorem sameReceived_kept (t : Transport) : Kept (fun _ => True) (SameReceived t) where
  same h hs := h.trans { hs with relReorder := fun channel => by rw [hs.channels] }
  requeue h hs := h.trans { hs with relReorder := fun channel => by rw [hs.channels] }
  close h := by
    unfold Transport.close
    split
    · exact h
    · exact h.trans {}
  sendBatch now flags batch _ h := by
    obtain ⟨sent, flight, heq⟩ := sendBatch_eq _ now flags batch
    rw [heq]
    exact h.trans {}
  trackReliable _ _ _ _ _ _ h := h.trans {}
  update _ _ h := h.trans {}
  resent _ _ := trivial
  retireSentPacket seq h := by
    unfold Transport.retireSentPacket
    split
    · exact h
    · exact h.trans {}
  settle _ h := h.trans {}
  takeSeq channel reliable h := h.trans (sameReceived_takeSeq _ channel reliable)
  whole _ _ _ := trivial
  fragment _ _ _ _ _ _ := trivial

/-- An entry is replaced by one that holds no less. -/
theorem Stored.insert {k : MsgKey} (h : Stored base k i t) {a : Reassembly}
    (hhanded : t'.handed = t.handed) (hre : t'.reassembly = t.reassembly.insert key a)
    (hmore : ∀ b : Reassembly, t.reassembly[key]? = some b → ∀ j : Nat, b.fragments[j]? ≠ none →
      a.fragments[j]? ≠ none) : Stored base k i t' := by
  unfold Stored
  rw [hhanded, hre]
  refine h.imp_right fun ⟨hbase, b, hb, hi⟩ => ⟨hbase, ?_⟩
  by_cases hk : k = key
  · subst hk
    exact ⟨a, by rw [Keyed.getElem?_insert_eq, if_pos rfl], hmore b hb i hi⟩
  · exact ⟨b, by rw [Keyed.getElem?_insert_eq, if_neg hk]; exact hb, hi⟩

variable (now : TimePoint)

theorem fragments_assemblyFor {b : Reassembly} (hb : t.reassembly[t.assemblyKey record]? = some b) :
    (t.assemblyFor now record).fragments = b.fragments := by
  unfold assemblyFor
  rw [hb]
  dsimp only [Option.getD_some]
  split <;> rfl

theorem getElem?_insert_fragment (m : Std.ExtTreeMap Nat (List UInt8) compare) (i j : Nat)
    (data : List UInt8) (h : m[j]? ≠ none ∨ j = i) : (m.insert i data)[j]? ≠ none := by
  rw [Std.ExtTreeMap.getElem?_insert]
  by_cases hj : j = i
  · simp [hj]
  · simpa [Ne.symm hj] using h.resolve_right hj

/-- A reliable fragment that is well formed and agrees with the message in progress on the number
of fragments. -/
structure Proper (t : Transport) (record : ZDTRecord) : Prop where
  fragment : hasFlag record.flags kRecFragment = true
  reliable : hasFlag record.flags kRecReliable = true
  index : record.fragIndex < record.fragCount
  agrees : ∀ a ∈ t.reassembly[t.assemblyKey record]?, a.fragCount = record.fragCount

instance : Decidable (Proper t record) :=
  decidable_of_iff (_ ∧ _ ∧ _ ∧ _) ⟨fun ⟨h₁, h₂, h₃, h₄⟩ => ⟨h₁, h₂, h₃, h₄⟩,
    fun ⟨h₁, h₂, h₃, h₄⟩ => ⟨h₁, h₂, h₃, h₄⟩⟩

theorem fragCount_assemblyFor (h : ∀ a : Reassembly, t.reassembly[t.assemblyKey record]? = some a →
      a.fragCount = record.fragCount) :
    (t.assemblyFor now record).fragCount = record.fragCount := by
  unfold assemblyFor
  dsimp only
  split
  · rfl
  · next hne =>
    cases hentry : t.reassembly[t.assemblyKey record]? with
    | none =>
      rw [hentry] at hne
      exact absurd rfl hne
    | some a => exact h a hentry

/-- **A fragment.**  Nothing held is lost, and a proper one that is taken is held. -/
theorem onDataFragment_spec (t : Transport) (now : TimePoint) (record : ZDTRecord)
    (data : List UInt8) :
    (∀ base k i, Stored base k i t → Stored base k i (t.onDataFragment now record data).1) ∧
    (Proper t record → (t.onDataFragment now record data).2 = true →
      Stored (t.handed.count (t.assemblyKey record)) (t.assemblyKey record) record.fragIndex.toNat
        (t.onDataFragment now record data).1) := by
  unfold onDataFragment
  split
  · next hbad =>
    refine ⟨fun _ _ _ h => h, fun hproper _ => ?_⟩
    have hindex := BitVec.lt_def.1 hproper.index
    rcases hbad with hzero | hbad
    · rw [hzero] at hindex
      exact absurd hindex (Nat.not_lt_zero _)
    · exact absurd (BitVec.le_def.1 hbad) (Nat.not_le.2 hindex)
  split
  · refine ⟨fun _ _ _ h => h, fun hproper htaken => ?_⟩
    rw [hproper.reliable] at htaken
    cases htaken
  dsimp only
  split
  · next hne =>
    refine ⟨fun base k i h => h.insert rfl rfl fun b hb j hj => ?_, fun hproper _ => ?_⟩
    · rwa [fragments_assemblyFor now hb]
    · exact absurd (fragCount_assemblyFor now hproper.agrees) hne
  split
  · refine ⟨fun base k i h => h.insert rfl rfl fun b hb j hj => ?_, fun _ _ => ?_⟩
    · exact getElem?_insert_fragment _ _ _ _ (.inl (by rwa [fragments_assemblyFor now hb]))
    · exact .inr ⟨rfl, _, by rw [Keyed.getElem?_insert_eq, if_pos rfl],
        getElem?_insert_fragment _ _ _ _ (.inr rfl)⟩
  · -- the message is whole: it leaves the table and is handed on
    refine ⟨fun base k i h => ?_, fun _ _ => ?_⟩
    · show base < (t.handed ++ [t.assemblyKey record]).count k ∨
        base = (t.handed ++ [t.assemblyKey record]).count k ∧
          ∃ a : Reassembly, (t.reassembly.erase (t.assemblyKey record))[k]? = some a ∧
            a.fragments[i]? ≠ none
      rw [List.count_append]
      by_cases hk : k = t.assemblyKey record
      · rw [← hk, List.count_singleton_self]
        exact .inl (h.elim (Nat.lt_add_right 1) fun hheld => Nat.lt_succ_of_le hheld.1.le)
      · rw [Keyed.getElem?_erase_eq, if_neg hk, List.count_singleton,
          if_neg (by simpa using Ne.symm hk)]
        exact h
    · refine .inl ?_
      show _ < (t.handed ++ [t.assemblyKey record]).count _
      rw [List.count_append, List.count_singleton_self]
      exact Nat.lt_succ_self _

theorem onRecord_spec (t : Transport) (now : TimePoint) (record : ZDTRecord)
    (data : List UInt8) :
    (∀ base k i, Stored base k i t → Stored base k i (t.onRecord now record data).1) ∧
    (Proper t record → (t.onRecord now record data).2 = true →
      Stored (t.handed.count (t.assemblyKey record)) (t.assemblyKey record) record.fragIndex.toNat
        (t.onRecord now record data).1) := by
  unfold onRecord
  by_cases hfragment : hasFlag record.flags kRecFragment = true
  · rw [if_pos hfragment]
    exact onDataFragment_spec t now record data
  · rw [if_neg hfragment]
    exact ⟨fun _ _ _ h => h, fun hproper => absurd hproper.fragment hfragment⟩

/-! ## One datagram -/

/-- The state in which a datagram's records are read. -/
def afterAcks (t : Transport) (pace : Pace) (header : ZDTHeader) : Transport :=
  if header.packetSeq = 0 then t else t.processAcks pace header

/-- The loop over the records of a datagram. -/
def intake (t : Transport) (pace : Pace) (header : ZDTHeader)
    (records : List (ZDTRecord × List UInt8)) : Intake :=
  records.foldl (takeRecord pace.now) { t := t.afterAcks pace header }

/-- The datagram is recorded in `ack_history_`. -/
structure Records (t : Transport) (pace : Pace) (d : Inbound) : Prop where
  isClosed : t.isClosed = false
  fin : hasFlag d.header.flags kFlagFin = false
  ping : hasFlag d.header.flags kFlagPing = false
  packetSeq : d.header.packetSeq ≠ 0
  acceptedAll : (t.intake pace d.header d.records).acceptedAll = true

variable {pace : Pace} {d : Inbound}

theorem sameReceived_afterAcks (t : Transport) (pace : Pace) (header : ZDTHeader) :
    SameReceived t (t.afterAcks pace header) := by
  unfold Transport.afterAcks
  split
  · exact {}
  · exact (sameReceived_kept t).processAcks pace header {}

/-- Records keep what is held, and once one is refused the datagram stays refused. -/
theorem foldl_takeRecord_spec (now : TimePoint) (records : List (ZDTRecord × List UInt8))
    (x : Intake) :
    (∀ base key i, Stored base key i x.t →
      Stored base key i (records.foldl (takeRecord now) x).t) ∧
    ((records.foldl (takeRecord now) x).acceptedAll = true → x.acceptedAll = true) := by
  induction records generalizing x with
  | nil => exact ⟨fun _ _ _ h => h, id⟩
  | cons r records ih =>
    obtain ⟨hstored, haccepted⟩ := ih (takeRecord now x r)
    refine ⟨fun base key i h => hstored base key i ?_, fun h => ?_⟩
    · exact (onRecord_spec { x.t with needsAck := true } now r.1 r.2).1 base key i h
    · exact (Bool.and_eq_true_iff.1 (haccepted h)).1

/-- **One datagram** loses nothing. -/
theorem Stored.processDatagram (h : Stored base key i t) (pace : Pace) (d : Inbound) :
    Stored base key i (t.processDatagram pace d) := by
  have hacks := (sameReceived_afterAcks t pace d.header).stored h
  have hread := (foldl_takeRecord_spec pace.now d.records { t := t.afterAcks pace d.header }).1
    base key i hacks
  unfold Transport.processDatagram
  rw [← Transport.afterAcks]
  dsimp only
  split
  · exact hacks
  · split
    · exact ((sameReceived_kept _).sendBatch pace.now kFlagPong [] (by simp) {}).stored hacks
    · split
      · exact hread
      · exact hread

/-! ## Whole runs -/

/-- What can happen to a receiver. -/
inductive ReceiverEvent where
  | datagram (pace : Pace) (d : Inbound)
  | prune (now : TimePoint)

/-- What an event does; a closed transport is left alone. -/
def receive (t : Transport) (e : ReceiverEvent) : Transport :=
  if t.isClosed then t
  else
    match e with
    | .datagram pace d => t.processDatagram pace d
    | .prune now => t.pruneReassembly now

def receiver : Machine Transport ReceiverEvent := ⟨fun t e => some (t.receive e)⟩

/-- **A recorded datagram.**  A proper fragment in it is stored. -/
theorem Records.stored (h : Records t pace d) {before after : List (ZDTRecord × List UInt8)}
    {record : ZDTRecord} {data : List UInt8} (hd : d.records = before ++ (record, data) :: after)
    {s : Transport} (hs : s = (t.intake pace d.header before).t) (hproper : Proper s record) :
    Stored (s.handed.count (s.assemblyKey record)) (s.assemblyKey record)
      record.fragIndex.toNat (t.receive (.datagram pace d)) := by
  subst hs
  have hall := h.acceptedAll
  have hread : d.records.foldl (takeRecord pace.now) { t := t.afterAcks pace d.header } =
      after.foldl (takeRecord pace.now)
        (takeRecord pace.now (t.intake pace d.header before) (record, data)) := by
    rw [hd, List.foldl_append]
    rfl
  rw [intake, hread] at hall
  obtain ⟨hstored, haccepted⟩ := foldl_takeRecord_spec pace.now after
    (takeRecord pace.now (t.intake pace d.header before) (record, data))
  have htaken := (Bool.and_eq_true_iff.1 (haccepted hall)).2
  unfold receive
  rw [h.isClosed, if_neg Bool.false_ne_true]
  show Stored _ _ _ (t.processDatagram pace d)
  unfold Transport.processDatagram
  rw [← afterAcks]
  dsimp only
  rw [hread, h.fin, h.ping, if_neg Bool.false_ne_true, if_neg Bool.false_ne_true,
    if_pos ⟨h.packetSeq, hall⟩]
  exact hstored _ _ _ ((onRecord_spec { (t.intake pace d.header before).t with needsAck := true }
    pace.now record data).2 { hproper with } htaken)

/-- `PruneReassembly` does not find the message older than the timeout. -/
def Spares (key : MsgKey) (t : Transport) : ReceiverEvent → Prop
  | .datagram _ _ => True
  | .prune now => ∀ a ∈ t.reassembly[key]?, now - a.firstSeen ≤ t.config.reassemblyTimeout

instance : (e : ReceiverEvent) → Decidable (Spares key t e)
  | .datagram _ _ => .isTrue trivial
  | .prune _ => inferInstanceAs (Decidable (∀ a ∈ t.reassembly[key]?, _))

theorem Stored.receive (h : Stored base key i t) {e : ReceiverEvent} (he : Spares key t e) :
    Stored base key i (t.receive e) := by
  unfold Transport.receive
  split
  · exact h
  cases e with
  | datagram pace d => exact h.processDatagram pace d
  | prune now =>
    refine h.imp_right fun ⟨hbase, a, ha, hi⟩ => ⟨hbase, a, ?_, hi⟩
    have hage := he a ha
    show (t.reassembly.filter _)[key]? = some a
    rw [Std.ExtTreeMap.getElem?_filter', ha]
    simp [hage]

/-- A fragment of a reliable message of two fragments. -/
def halfOf (messageSeq : WireSeq) (fragIndex : BitVec 8) : ZDTRecord :=
  { flags := recordFlags true true ||| kRecFragment, messageSeq, fragIndex, fragCount := 2 }

end Transport
end Zdt
end Znet

import Znet.Zdt.Provenance
import Znet.Zdt.SendSequence

/-!
# The ring, the lanes and the wire

`FlushOutbound` moves messages from the ring into one lane per channel, and from the fronts of
the lanes into datagrams, one message per lane and pass.  What it packed, in the order it packed
it, says everything about a run of it: which messages are left, in which order, which numbers
were given away, and every record that was sent.
-/

namespace Znet
namespace Zdt
namespace Transport

/-! ## The records of a message -/

/-- The records a message is sent in; none when it would need more than 255 fragments. -/
def pieces (c : Config) (queued : QueuedOut) (channel : BitVec 8) (seq : Nat) :
    List PendingRecord :=
  if queued.payload.length ≤ unfragCapacity c then [wholeRecord queued channel seq]
  else if 255 < fragmentCount c queued.payload.length then []
  else (List.range (fragmentCount c queued.payload.length)).map
    (fragmentRecord c queued channel seq (fragmentCount c queued.payload.length))

/-- The numbers the next message of each channel and kind gets. -/
abbrev Counters := BitVec 8 → Bool → Nat

/-- A message takes its number. -/
def Counters.take (next : Counters) (queued : QueuedOut) : Counters := fun channel reliable =>
  next channel reliable + if channel = queued.channel ∧ reliable = queued.reliable then 1 else 0

/-- The records of messages that take their numbers one after the other. -/
def recordsOf (c : Config) : Counters → List QueuedOut → List PendingRecord
  | _, [] => []
  | next, queued :: rest =>
    pieces c queued queued.channel (next queued.channel queued.reliable) ++
      recordsOf c (next.take queued) rest

/-- The messages of a channel and kind. -/
def ofKind (channel : BitVec 8) (reliable : Bool) (messages : List QueuedOut) : List QueuedOut :=
  messages.filter fun queued => queued.channel = channel ∧ queued.reliable = reliable

theorem length_ofKind_concat (channel : BitVec 8) (reliable : Bool) (messages : List QueuedOut)
    (queued : QueuedOut) : (ofKind channel reliable (messages ++ [queued])).length =
      (ofKind channel reliable messages).length +
        if channel = queued.channel ∧ reliable = queued.reliable then 1 else 0 := by
  unfold ofKind
  rw [List.filter_append, List.length_append]
  by_cases hkind : channel = queued.channel ∧ reliable = queued.reliable
  · obtain ⟨rfl, rfl⟩ := hkind
    simp
  · rw [if_neg hkind, List.filter_cons_of_neg]
    · rfl
    · rw [decide_eq_true_eq]
      exact fun h => hkind ⟨h.1.symm, h.2.symm⟩

theorem length_ofKind_cons (channel : BitVec 8) (reliable : Bool) (queued : QueuedOut)
    (messages : List QueuedOut) (next : Counters) :
    next.take queued channel reliable + (ofKind channel reliable messages).length =
      next channel reliable + (ofKind channel reliable (queued :: messages)).length := by
  unfold ofKind Counters.take
  by_cases hkind : channel = queued.channel ∧ reliable = queued.reliable
  · obtain ⟨rfl, rfl⟩ := hkind
    simp
    omega
  · rw [if_neg hkind, List.filter_cons_of_neg]
    · rfl
    · rw [decide_eq_true_eq]
      exact fun h => hkind ⟨h.1.symm, h.2.symm⟩

/-- The last message gets the number after those of its kind before it. -/
theorem recordsOf_concat (c : Config) (next : Counters) (messages : List QueuedOut)
    (queued : QueuedOut) : recordsOf c next (messages ++ [queued]) =
      recordsOf c next messages ++ pieces c queued queued.channel
        (next queued.channel queued.reliable +
          (ofKind queued.channel queued.reliable messages).length) := by
  induction messages generalizing next with
  | nil => simp [recordsOf, ofKind]
  | cons first rest ih =>
    rw [List.cons_append, recordsOf, recordsOf, ih, List.append_assoc,
      length_ofKind_cons]

/-! ## Packing -/

variable (t : Transport)

theorem channels_sendBatch (now : TimePoint) (flags : BitVec 8)
    (batch : List PendingRecord) : (t.sendBatch now flags batch).1.channels = t.channels := by
  obtain ⟨sent, flight, heq⟩ := sendBatch_eq t now flags batch
  rw [heq]

theorem sentRecords_sendBatch (now : TimePoint) (flags : BitVec 8) (batch : List PendingRecord) :
    (t.sendBatch now flags batch).1.sentRecords = t.sentRecords ++ batch := by
  unfold sentRecords
  rw [wire_sendBatch]
  simp

/-- Nothing is sent and no number is taken. -/
structure SameSent (t t' : Transport) : Prop where
  config : t'.config = t.config := by rfl
  channels : t'.channels = t.channels := by rfl
  wire : t'.wire = t.wire := by rfl

theorem SameSent.trans {a b c : Transport} (h : SameSent a b) (h' : SameSent b c) :
    SameSent a c where
  config := h'.config.trans h.config
  channels := h'.channels.trans h.channels
  wire := h'.wire.trans h.wire

theorem SameSent.sentRecords {t t' : Transport} (h : SameSent t t') :
    t'.sentRecords = t.sentRecords := by
  unfold Transport.sentRecords
  rw [h.wire]

theorem sameSent_steady : Steady (SameSent t) where
  same h hsame := h.trans { hsame with }
  update _ _ h := h.trans {}
  retireSentPacket seq h := by
    unfold Transport.retireSentPacket
    split
    · exact h
    · exact h.trans {}
  settle _ h := h.trans {}

/-- `flush_batch` moves the records of the batch onto the wire. -/
theorem flushBatch_sends (pace : Pace) (s : Packing) :
    (flushBatch pace s).t.config = s.t.config ∧
      (flushBatch pace s).t.channels = s.t.channels ∧
      (flushBatch pace s).t.sentRecords = s.records := by
  by_cases hempty : s.batch = []
  · have hsame : flushBatch pace s = s := by
      unfold flushBatch
      rw [hempty]
      rfl
    refine ⟨by rw [hsame], by rw [hsame], ?_⟩
    rw [hsame, Packing.records, hempty, List.append_nil]
  · have hlogged := (sameSent_steady (s.t.sendBatch pace.now 0 s.batch).1).flushBatch pace
      (fun h => absurd h hempty) (fun _ => {})
    refine ⟨hlogged.config.trans (config_sendBatch _ _ _ _),
      hlogged.channels.trans (channels_sendBatch _ _ _ _), ?_⟩
    rw [hlogged.sentRecords, sentRecords_sendBatch]
    rfl

/-- Some records were sent, and no number was taken. -/
structure Sends (records : List PendingRecord) (t' : Transport) : Prop where
  config : t'.config = t.config
  channels : t'.channels = t.channels
  sent : t'.sentRecords = t.sentRecords ++ records

theorem sendFragment_sends (pace : Pace) (queued : QueuedOut) (channel : BitVec 8)
    (seq count i : Nat) (t : Transport) :
    Sends t [fragmentRecord t.config queued channel seq count i]
      (sendFragment pace queued channel seq count t i) := by
  have hsent : Sends t [fragmentRecord t.config queued channel seq count i]
      (t.sendBatch pace.now 0 [fragmentRecord t.config queued channel seq count i]).1 :=
    ⟨config_sendBatch _ _ _ _, channels_sendBatch _ _ _ _, sentRecords_sendBatch _ _ _ _⟩
  unfold sendFragment
  dsimp only
  split
  · exact { hsent with }
  · exact hsent

theorem sendFragments_sends (pace : Pace) (queued : QueuedOut) (channel : BitVec 8)
    (seq count n : Nat) (t : Transport) :
    Sends t ((List.range n).map (fragmentRecord t.config queued channel seq count))
      ((List.range n).foldl (sendFragment pace queued channel seq count) t) := by
  induction n with
  | zero => exact ⟨rfl, rfl, by simp⟩
  | succ n ih =>
    rw [List.range_succ, List.foldl_append, List.foldl_cons, List.foldl_nil, List.map_append,
      List.map_singleton]
    have hlast := sendFragment_sends pace queued channel seq count n
      ((List.range n).foldl (sendFragment pace queued channel seq count) t)
    refine ⟨hlast.config.trans ih.config, hlast.channels.trans ih.channels, ?_⟩
    rw [hlast.sent, ih.sent, ih.config, List.append_assoc]

/-- **`pack_message`** takes the message's number and adds the message's records to what was
sent or packed before. -/
theorem packMessage_sends (pace : Pace) (s : Packing) (queued : QueuedOut) (channel : BitVec 8) :
    (packMessage pace s queued channel).t.config = s.t.config ∧
      (packMessage pace s queued channel).t.channels =
        (s.t.takeSeq channel queued.reliable).1.channels ∧
      (packMessage pace s queued channel).records =
        s.records ++ pieces s.t.config queued channel (s.t.nextSeq channel queued.reliable) := by
  obtain ⟨hconfig, hchannels, hrecords⟩ := flushBatch_sends pace
    { s with t := (s.t.takeSeq channel queued.reliable).1 }
  have hempty := batch_flushBatch pace { s with t := (s.t.takeSeq channel queued.reliable).1 }
  have hflushed : (flushBatch pace
      { s with t := (s.t.takeSeq channel queued.reliable).1 }).records = s.records := by
    rw [Packing.records, hempty, List.append_nil, hrecords]
    rfl
  refine packMessage_of (P := fun s' => s'.t.config = s.t.config ∧
    s'.t.channels = (s.t.takeSeq channel queued.reliable).1.channels ∧ s'.records =
      s.records ++ pieces s.t.config queued channel (s.t.nextSeq channel queued.reliable))
    pace queued channel rfl rfl (fun hfit b hb => ?_) fun hbig n hn => ?_
  · have hpieces : pieces s.t.config queued channel (s.t.nextSeq channel queued.reliable) =
        [wholeRecord queued channel (s.t.nextSeq channel queued.reliable)] := if_pos hfit
    -- the batch is flushed first when it has no room
    obtain ⟨hbconfig, hbchannels, hbrecords⟩ : b.t.config = s.t.config ∧
        b.t.channels = (s.t.takeSeq channel queued.reliable).1.channels ∧
        b.records = s.records := by
      rcases hb with rfl | ⟨rfl, -⟩
      · exact ⟨hconfig, hchannels, hflushed⟩
      · exact ⟨rfl, rfl, rfl⟩
    rw [hpieces, ← hbrecords]
    unfold Packing.records
    rw [List.append_assoc]
    dsimp only
    split <;> exact ⟨hbconfig, hbchannels, rfl⟩
  · have hpieces : pieces s.t.config queued channel (s.t.nextSeq channel queued.reliable) =
        (List.range n).map (fragmentRecord s.t.config queued channel
          (s.t.nextSeq channel queued.reliable)
          (fragmentCount s.t.config queued.payload.length)) := by
      rw [pieces, if_neg hbig, hn]
      split <;> rfl
    have hall := sendFragments_sends pace queued channel (s.t.takeSeq channel queued.reliable).2
      (fragmentCount s.t.config queued.payload.length) n
      (flushBatch pace { s with t := (s.t.takeSeq channel queued.reliable).1 }).t
    refine ⟨hall.config.trans hconfig, hall.channels.trans hchannels, ?_⟩
    rw [hpieces, ← hflushed]
    unfold Packing.records
    dsimp only
    rw [hall.sent, hempty, List.append_nil, List.append_nil, hconfig]
    rfl

/-! ## The lanes -/

/-- What waits in the lane of a channel. -/
def laneOf (lanes : List StagedLane) (channel : BitVec 8) : List QueuedOut :=
  lanes.flatMap fun lane => if lane.channel = channel then lane.messages else []

/-- How many messages the lanes hold. -/
def held (lanes : List StagedLane) : Nat := (lanes.map fun lane => lane.messages.length).sum

/-- The lanes as `StageOutbound` builds them. -/
structure Lanes : Prop where
  distinct : (t.staged.map StagedLane.channel).Nodup
  own : ∀ lane ∈ t.staged, ∀ queued ∈ lane.messages, queued.channel = lane.channel
  count : t.stagedCount = held t.staged

theorem laneOf_cons (lane : StagedLane) (lanes : List StagedLane) (channel : BitVec 8) :
    laneOf (lane :: lanes) channel =
      (if lane.channel = channel then lane.messages else []) ++ laneOf lanes channel := by
  simp [laneOf]

theorem held_cons (lane : StagedLane) (lanes : List StagedLane) :
    held (lane :: lanes) = lane.messages.length + held lanes := by
  simp [held]

theorem laneOf_of_notMem {lanes : List StagedLane} {channel : BitVec 8}
    (h : channel ∉ lanes.map StagedLane.channel) : laneOf lanes channel = [] := by
  induction lanes with
  | nil => rfl
  | cons lane lanes ih =>
    rw [List.map_cons, List.mem_cons, not_or] at h
    rw [laneOf_cons, if_neg (Ne.symm h.1), ih h.2]
    rfl

variable (queued : QueuedOut)

theorem mem_channels_stageInto (lanes : List StagedLane)
    (channel : BitVec 8) : channel ∈ (stageInto queued lanes).map StagedLane.channel ↔
      channel = queued.channel ∨ channel ∈ lanes.map StagedLane.channel := by
  induction lanes with
  | nil => simp [stageInto]
  | cons lane lanes ih =>
    rw [stageInto]
    split
    · next heq => simp [heq]
    · rw [List.map_cons, List.mem_cons, ih, List.map_cons, List.mem_cons]
      tauto

theorem nodup_stageInto {lanes : List StagedLane} (h : (lanes.map StagedLane.channel).Nodup) :
    ((stageInto queued lanes).map StagedLane.channel).Nodup := by
  induction lanes with
  | nil => simp [stageInto]
  | cons lane lanes ih =>
    rw [List.map_cons, List.nodup_cons] at h
    rw [stageInto]
    split
    · exact List.nodup_cons.2 h
    · next hne =>
      refine List.nodup_cons.2 ⟨?_, ih h.2⟩
      rw [mem_channels_stageInto]
      exact not_or.2 ⟨hne, h.1⟩

theorem own_stageInto {lanes : List StagedLane}
    (h : ∀ lane ∈ lanes, ∀ q ∈ lane.messages, q.channel = lane.channel) :
    ∀ lane ∈ stageInto queued lanes, ∀ q ∈ lane.messages, q.channel = lane.channel := by
  induction lanes with
  | nil => simp [stageInto]
  | cons first lanes ih =>
    rw [List.forall_mem_cons] at h
    rw [stageInto]
    split
    · next heq =>
      refine List.forall_mem_cons.2 ⟨?_, h.2⟩
      exact List.forall_mem_append.2 ⟨h.1, List.forall_mem_singleton.2 heq.symm⟩
    · exact List.forall_mem_cons.2 ⟨h.1, ih h.2⟩

theorem held_stageInto (lanes : List StagedLane) :
    held (stageInto queued lanes) = held lanes + 1 := by
  induction lanes with
  | nil => simp [stageInto, held]
  | cons lane lanes ih =>
    rw [stageInto]
    split
    · rw [held_cons, held_cons, List.length_append, List.length_singleton]
      omega
    · rw [held_cons, held_cons, ih]
      omega

/-- A message goes to the end of its channel's lane. -/
theorem laneOf_stageInto {lanes : List StagedLane}
    (h : (lanes.map StagedLane.channel).Nodup) (channel : BitVec 8) :
    laneOf (stageInto queued lanes) channel =
      laneOf lanes channel ++ [queued].filter (·.channel = channel) := by
  induction lanes with
  | nil =>
    by_cases hc : queued.channel = channel <;> simp [stageInto, laneOf, hc]
  | cons lane lanes ih =>
    rw [List.map_cons, List.nodup_cons] at h
    rw [stageInto]
    split
    · next heq =>
      rw [laneOf_cons, laneOf_cons]
      by_cases hc : queued.channel = channel
      · -- no later lane belongs to the channel
        have hrest : laneOf lanes channel = [] :=
          laneOf_of_notMem (by rw [← hc, ← heq]; exact h.1)
        simp [heq, hc, hrest]
      · simp [heq, hc]
    · rw [laneOf_cons, laneOf_cons, ih h.2, List.append_assoc]

/-- What `StageOutbound` builds of messages, one after the other. -/
theorem stageAll_spec (messages : List QueuedOut) {lanes : List StagedLane}
    (hdistinct : (lanes.map StagedLane.channel).Nodup)
    (hown : ∀ lane ∈ lanes, ∀ q ∈ lane.messages, q.channel = lane.channel) :
    let lanes' := messages.foldl (fun lanes queued => stageInto queued lanes) lanes
    (lanes'.map StagedLane.channel).Nodup ∧
      (∀ lane ∈ lanes', ∀ q ∈ lane.messages, q.channel = lane.channel) ∧
      held lanes' = held lanes + messages.length ∧
      ∀ channel, laneOf lanes' channel =
        laneOf lanes channel ++ messages.filter (·.channel = channel) := by
  induction messages generalizing lanes with
  | nil => exact ⟨hdistinct, hown, rfl, by simp⟩
  | cons queued rest ih =>
    obtain ⟨hnodup, howns, hheld, hlane⟩ := ih (nodup_stageInto queued hdistinct)
      (own_stageInto queued hown)
    refine ⟨hnodup, howns, ?_, fun channel => ?_⟩
    · rw [List.foldl_cons, hheld, held_stageInto, List.length_cons]
      omega
    · rw [List.foldl_cons, hlane channel, laneOf_stageInto queued hdistinct,
        List.append_assoc, ← List.filter_append, List.singleton_append]

theorem Lanes.of_eq {t t' : Transport} (h : Lanes t) (hstaged : t'.staged = t.staged)
    (hcount : t'.stagedCount = t.stagedCount) : Lanes t' :=
  ⟨hstaged ▸ h.distinct, hstaged ▸ h.own, by rw [hcount, hstaged, h.count]⟩

theorem Lanes.stageOutbound {t : Transport} (h : Lanes t) : Lanes t.stageOutbound.1 := by
  obtain ⟨hdistinct, hown, hheld, -⟩ := stageAll_spec t.outbound h.distinct h.own
  refine ⟨hdistinct, hown, ?_⟩
  show t.stagedCount + t.outbound.length = held (t.outbound.foldl _ t.staged)
  rw [hheld, h.count]

/-! ## One lane's turn -/

theorem map_channel_set {lanes : List StagedLane} {i : Nat} {lane : StagedLane}
    (hlane : lanes[i]? = some lane) (messages : List QueuedOut) :
    (lanes.set i { lane with messages := messages }).map StagedLane.channel =
      lanes.map StagedLane.channel := by
  induction lanes generalizing i with
  | nil => rfl
  | cons first rest ih =>
    cases i with
    | zero =>
      cases hlane
      rfl
    | succ i =>
      rw [List.set_cons_succ, List.map_cons, List.map_cons,
        ih (by simpa using hlane)]

theorem held_set {lanes : List StagedLane} {i : Nat} {lane : StagedLane} {queued : QueuedOut}
    {rest : List QueuedOut} (hlane : lanes[i]? = some lane)
    (hmessages : lane.messages = queued :: rest) :
    held lanes = held (lanes.set i { lane with messages := rest }) + 1 := by
  induction lanes generalizing i with
  | nil => cases hlane
  | cons first later ih =>
    cases i with
    | zero =>
      cases hlane
      rw [List.set_cons_zero, held_cons, held_cons, hmessages, List.length_cons]
      dsimp only
      omega
    | succ i =>
      rw [List.set_cons_succ, held_cons, held_cons, ih (by simpa using hlane)]
      omega

/-- The front of a lane is the oldest message of its channel. -/
theorem laneOf_set {lanes : List StagedLane} (hdistinct : (lanes.map StagedLane.channel).Nodup)
    {i : Nat} {lane : StagedLane} {queued : QueuedOut} {rest : List QueuedOut}
    (hlane : lanes[i]? = some lane) (hmessages : lane.messages = queued :: rest)
    (channel : BitVec 8) : laneOf lanes channel =
      (if lane.channel = channel then [queued] else []) ++
        laneOf (lanes.set i { lane with messages := rest }) channel := by
  induction lanes generalizing i with
  | nil => cases hlane
  | cons first later ih =>
    rw [List.map_cons, List.nodup_cons] at hdistinct
    cases i with
    | zero =>
      cases hlane
      rw [List.set_cons_zero, laneOf_cons, laneOf_cons, hmessages]
      split <;> simp
    | succ i =>
      have hlater : later[i]? = some lane := by simpa using hlane
      have hne : first.channel ≠ lane.channel := by
        intro heq
        apply hdistinct.1
        rw [heq]
        exact List.mem_map_of_mem (List.mem_of_getElem? hlater)
      rw [List.set_cons_succ, laneOf_cons, laneOf_cons, ih hdistinct.2 hlater]
      by_cases hc : lane.channel = channel
      · rw [if_pos hc, if_neg (by rw [← hc]; exact hne)]
        simp
      · rw [if_neg hc]
        simp

/-- The transport after a lane has lost its front. -/
def afterTurn (t : Transport) (i : Nat) (lane : StagedLane) (rest : List QueuedOut) : Transport :=
  { t with
    staged := t.staged.set i { lane with messages := rest }
    stagedCount := t.stagedCount - 1 }

section Turn

variable {t : Transport} {i : Nat} {lane : StagedLane} {queued : QueuedOut}
  {rest : List QueuedOut}

theorem Lanes.afterTurn (h : Lanes t) (hlane : t.staged[i]? = some lane)
    (hmessages : lane.messages = queued :: rest) : Lanes (t.afterTurn i lane rest) where
  distinct := by
    show ((t.staged.set i _).map _).Nodup
    rw [map_channel_set hlane]
    exact h.distinct
  own := by
    intro l hl q hq
    have hown := h.own lane (List.mem_of_getElem? hlane)
    rw [hmessages] at hown
    rcases List.mem_or_eq_of_mem_set hl with hl | rfl
    · exact h.own l hl q hq
    · exact hown q (List.mem_cons_of_mem _ hq)
  count := by
    show t.stagedCount - 1 = held (t.staged.set i _)
    rw [h.count, held_set hlane hmessages]
    omega

theorem Lanes.stagedCount_afterTurn (h : Lanes t) (hlane : t.staged[i]? = some lane)
    (hmessages : lane.messages = queued :: rest) :
    t.stagedCount = (t.afterTurn i lane rest).stagedCount + 1 := by
  rw [h.count, held_set hlane hmessages, (h.afterTurn hlane hmessages).count]
  rfl

theorem Lanes.channel_front (h : Lanes t) (hlane : t.staged[i]? = some lane)
    (hmessages : lane.messages = queued :: rest) : queued.channel = lane.channel :=
  h.own lane (List.mem_of_getElem? hlane) queued (by simp [hmessages])

end Turn

/-! ## What waits on a channel -/

/-- The messages that wait on a channel, in the order they will be packed. -/
def queueOf (t : Transport) (channel : BitVec 8) : List QueuedOut :=
  laneOf t.staged channel ++ t.outbound.filter (·.channel = channel)

/-- How many messages wait. -/
def waitingCount (t : Transport) : Nat := t.stagedCount + t.outbound.length

theorem queueOf_of_eq {t t' : Transport} (hstaged : t'.staged = t.staged)
    (houtbound : t'.outbound = t.outbound) (channel : BitVec 8) :
    t'.queueOf channel = t.queueOf channel := by
  unfold queueOf
  rw [hstaged, houtbound]

theorem queueOf_stageOutbound {t : Transport} (h : Lanes t) (channel : BitVec 8) :
    t.stageOutbound.1.queueOf channel = t.queueOf channel := by
  obtain ⟨-, -, -, hlane⟩ := stageAll_spec t.outbound h.distinct h.own
  show laneOf (t.outbound.foldl _ t.staged) channel ++ [] = _
  rw [List.append_nil, hlane channel]
  rfl

theorem queueOf_afterTurn {t : Transport} (h : Lanes t) {i : Nat} {lane : StagedLane}
    {queued : QueuedOut} {rest : List QueuedOut} (hlane : t.staged[i]? = some lane)
    (hmessages : lane.messages = queued :: rest) (channel : BitVec 8) :
    t.queueOf channel =
      [queued].filter (·.channel = channel) ++ (t.afterTurn i lane rest).queueOf channel := by
  have hfront : [queued].filter (·.channel = channel) =
      if lane.channel = channel then [queued] else [] := by
    rw [← h.channel_front hlane hmessages]
    by_cases hc : queued.channel = channel <;> simp [hc]
  unfold queueOf
  rw [laneOf_set h.distinct hlane hmessages channel, List.append_assoc, hfront]
  rfl

theorem queueOf_accept (t : Transport) (queued : QueuedOut) (channel : BitVec 8) :
    ({ t with outbound := t.outbound ++ [queued] } : Transport).queueOf channel =
      t.queueOf channel ++ [queued].filter (·.channel = channel) := by
  unfold queueOf
  rw [List.filter_append, List.append_assoc]

/-! ## What `FlushOutbound` does -/

/-- The messages `sent`, in this order, have left the queues of `t` and were packed. -/
structure Moved (t : Transport) (sent : List QueuedOut) (s : Packing) : Prop where
  lanes : Lanes s.t
  config : s.t.config = t.config
  queues : ∀ channel, t.queueOf channel =
    sent.filter (·.channel = channel) ++ s.t.queueOf channel
  numbers : ∀ channel reliable, s.t.nextSeq channel reliable =
    t.nextSeq channel reliable + (ofKind channel reliable sent).length
  records : s.records = t.sentRecords ++ recordsOf t.config t.nextSeq sent
  total : t.waitingCount = sent.length + s.t.waitingCount

section Moved

variable {t : Transport} {sent : List QueuedOut} {s : Packing}

theorem moved_refl (h : Lanes t) : Moved t [] { t := t } where
  lanes := h
  config := rfl
  queues _ := rfl
  numbers _ _ := rfl
  records := rfl
  total := by simp

/-- The queues, the numbers and the records stay as they are. -/
theorem Moved.same (h : Moved t sent s) {s' : Packing} (hstaged : s'.t.staged = s.t.staged)
    (hcount : s'.t.stagedCount = s.t.stagedCount) (houtbound : s'.t.outbound = s.t.outbound)
    (hconfig : s'.t.config = s.t.config) (hchannels : s'.t.channels = s.t.channels)
    (hrecords : s'.records = s.records) : Moved t sent s' where
  lanes := h.lanes.of_eq hstaged hcount
  config := hconfig.trans h.config
  queues channel := by rw [queueOf_of_eq hstaged houtbound, h.queues]
  numbers channel reliable := by
    rw [← h.numbers]
    unfold nextSeq takeSeq
    rw [hchannels]
  records := hrecords.trans h.records
  total := by
    unfold waitingCount at *
    rw [hcount, houtbound]
    exact h.total

theorem Moved.stageOutbound (h : Moved t sent s) :
    Moved t sent { s with t := s.t.stageOutbound.1 } where
  lanes := h.lanes.stageOutbound
  config := h.config
  queues channel := by
    rw [h.queues channel]
    exact congrArg _ (queueOf_stageOutbound h.lanes channel).symm
  numbers := h.numbers
  records := h.records
  total := h.total

/-- **A message is packed**: it is the next one to leave. -/
theorem Moved.pack (h : Moved t sent s) (pace : Pace) {i : Nat} {lane : StagedLane}
    {queued : QueuedOut} {rest : List QueuedOut} (hlane : s.t.staged[i]? = some lane)
    (hmessages : lane.messages = queued :: rest) :
    Moved t (sent ++ [queued])
      (packMessage pace { s with t := s.t.afterTurn i lane rest } queued lane.channel) := by
  have hchannel := h.lanes.channel_front hlane hmessages
  have hwaiting := sameWaiting_packMessage pace { s with t := s.t.afterTurn i lane rest } queued
    lane.channel
  obtain ⟨hconfig, hchannels, hrecords⟩ := packMessage_sends pace
    { s with t := s.t.afterTurn i lane rest } queued lane.channel
  have hnext : ({ s with t := s.t.afterTurn i lane rest } : Packing).t.nextSeq lane.channel
      queued.reliable = s.t.nextSeq lane.channel queued.reliable := rfl
  refine ⟨(h.lanes.afterTurn hlane hmessages).of_eq hwaiting.staged hwaiting.stagedCount,
    hconfig.trans h.config, fun channel => ?_, fun channel reliable => ?_, ?_, ?_⟩
  · rw [h.queues channel, queueOf_afterTurn h.lanes hlane hmessages, List.filter_append,
      List.append_assoc, queueOf_of_eq hwaiting.staged hwaiting.outbound]
  · have hstep := nextSeq_takeSeq s.t lane.channel channel queued.reliable reliable
    rw [h.numbers, Nat.add_assoc, ← hchannel, ← length_ofKind_concat] at hstep
    rw [← hstep]
    unfold nextSeq takeSeq
    rw [hchannels, ← hchannel]
    rfl
  · rw [hrecords, recordsOf_concat, ← List.append_assoc, ← h.records, ← h.config, hnext,
      ← hchannel, h.numbers]
    rfl
  · have hcount := h.lanes.stagedCount_afterTurn hlane hmessages
    have htotal := h.total
    unfold waitingCount at *
    rw [hwaiting.stagedCount, hwaiting.outbound, List.length_append, List.length_singleton,
      htotal, hcount]
    show _ = sent.length + 1 + ((s.t.afterTurn i lane rest).stagedCount + s.t.outbound.length)
    omega

theorem Moved.flushBatch (h : Moved t sent s) (pace : Pace) :
    Moved t sent { t := (flushBatch pace s).t } := by
  have hwaiting := sameWaiting_flushBatch pace s
  obtain ⟨hconfig, hchannels, hrecords⟩ := flushBatch_sends pace s
  refine h.same hwaiting.staged hwaiting.stagedCount hwaiting.outbound hconfig hchannels ?_
  rw [Packing.records, List.append_nil]
  exact hrecords

end Moved

/-- **Every change of `FlushOutbound`** takes messages from the fronts and packs them. -/
theorem moved_flushes (t : Transport) : Flushes fun s => ∃ sent, Moved t sent s where
  stage := by
    rintro s ⟨sent, h⟩
    exact ⟨sent, h.stageOutbound⟩
  rotate := by
    rintro s ⟨sent, h⟩
    exact ⟨sent, h.same rfl rfl rfl rfl rfl rfl⟩
  pack := by
    rintro s i lane queued rest pace ⟨sent, h⟩ hlane hmessages
    exact ⟨sent ++ [queued], h.pack pace hlane hmessages⟩
  flush := by
    rintro s pace ⟨sent, h⟩
    exact ⟨sent, h.flushBatch pace⟩

/-- The other calls leave the queues and the numbers alone. -/
theorem moved_steady (t : Transport) (sent : List QueuedOut) :
    Steady fun t' => Moved t sent { t := t' } where
  same h hsame := h.same hsame.staged hsame.stagedCount hsame.outbound hsame.config
    hsame.channels (by simp [Packing.records, sentRecords, hsame.wire])
  update _ _ h := h.same rfl rfl rfl rfl rfl rfl
  retireSentPacket seq h := by
    unfold Transport.retireSentPacket
    split
    · exact h
    · exact h.same rfl rfl rfl rfl rfl rfl
  settle _ h := h.same rfl rfl rfl rfl rfl rfl

/-- **The lanes** are as `StageOutbound` builds them, whatever is called. -/
theorem lanes_upholds : Upholds (fun _ => True) (fun _ => True) fun s => Lanes s.t where
  resends :=
    { same := fun h hsame => h.of_eq hsame.staged hsame.stagedCount
      update := fun _ _ h => h.of_eq rfl rfl
      retireSentPacket := by
        intro t seq h
        unfold Transport.retireSentPacket
        split
        · exact h
        · exact h.of_eq rfl rfl
      settle := fun _ h => h.of_eq rfl rfl
      close := by
        intro t h
        unfold Transport.close
        split
        · exact h
        · exact h.of_eq rfl rfl
      resend := fun now h _ => h.of_eq (sameWaiting_sendBatch _ now 0 _).staged
        (sameWaiting_sendBatch _ now 0 _).stagedCount }
  flushes :=
    { stage := fun h => h.stageOutbound
      rotate := fun h => h.of_eq rfl rfl
      pack := by
        intro s i lane queued rest pace h hlane hmessages
        have hwaiting := sameWaiting_packMessage pace { s with t := s.t.afterTurn i lane rest }
          queued lane.channel
        exact (h.afterTurn hlane hmessages).of_eq hwaiting.staged hwaiting.stagedCount
      flush := fun pace h => h.of_eq (sameWaiting_flushBatch pace _).staged
        (sameWaiting_flushBatch pace _).stagedCount }
  accept := fun _ h => h.of_eq rfl rfl
  control := fun now flags _ h => h.of_eq (sameWaiting_sendBatch _ now flags []).staged
    (sameWaiting_sendBatch _ now flags []).stagedCount

theorem lanes_fresh (config : Config) : Lanes { config := config } :=
  ⟨List.nodup_nil, by simp, rfl⟩

theorem Reachable.lanes {t : Transport} (h : Reachable t) : Lanes t := by
  obtain ⟨config, es, hexec⟩ := h
  refine sender.exec_invariant (fun s e s' hs hstep => ?_) hexec (lanes_fresh config)
  rw [← Option.some.inj hstep]
  exact lanes_upholds.handle (fun _ _ _ => trivial) (fun _ _ _ => trivial) hs

/-! ## Where the main loop ends -/

theorem refused_of_window {t : Transport} {pace : Pace} (h : pace.sendWindow ≤ t.inFlightDatagrams)
    (channel : BitVec 8) : t.refused pace channel = true := by
  unfold refused
  simp [h]

variable (pace : Pace)

/-- The front of the lane is a message the window refuses. -/
def Blocked (t : Transport) (lane : StagedLane) : Prop :=
  ∀ queued rest, lane.messages = queued :: rest →
    queued.reliable = true ∧ t.refused pace lane.channel = true

/-- Every lane that holds something is blocked, and the ring is empty if none does. -/
structure Settled (t : Transport) : Prop where
  fronts : ∀ lane ∈ t.staged, Blocked pace t lane
  drained : t.stagedCount = 0 → t.outbound = []

/-- **One lane's turn**: nothing happens and the lane is blocked or empty, or its front is
packed. -/
theorem serveLane_cases (s : Packing × Bool) (i : Nat) :
    (serveLane pace s i = s ∧ ∀ lane, s.1.t.staged[i]? = some lane → Blocked pace s.1.t lane) ∨
      ∃ lane queued rest, s.1.t.staged[i]? = some lane ∧ lane.messages = queued :: rest ∧
        serveLane pace s i =
          (packMessage pace { s.1 with t := s.1.t.afterTurn i lane rest } queued lane.channel,
            true) := by
  unfold serveLane
  split
  · next hnone => exact .inl ⟨rfl, fun lane hlane => by rw [hnone] at hlane; cases hlane⟩
  · next lane hlane =>
    split
    · next hempty =>
      refine .inl ⟨rfl, fun lane' hlane' queued rest hmessages => ?_⟩
      rw [hlane] at hlane'
      cases hlane'
      rw [hempty] at hmessages
      cases hmessages
    · next queued rest hmessages =>
      split
      · next hrefused =>
        refine .inl ⟨rfl, fun lane' hlane' queued' rest' hmessages' => ?_⟩
        rw [hlane] at hlane'
        cases hlane'
        rw [hmessages] at hmessages'
        cases hmessages'
        exact Bool.and_eq_true_iff.1 hrefused
      · exact .inr ⟨lane, queued, rest, hlane, hmessages, rfl⟩

/-- Turns of some lanes: when none of them sent, nothing has changed and all are blocked;
otherwise fewer messages wait. -/
theorem serveLanes_spec (is : List Nat) {s : Packing × Bool} (hs : Lanes s.1.t) :
    let r := is.foldl (serveLane pace) s
    Lanes r.1.t ∧ r.1.t.waitingCount ≤ s.1.t.waitingCount ∧
      (r.2 = true → s.2 = true ∨ r.1.t.waitingCount < s.1.t.waitingCount) ∧
      (r.2 = false → r = s ∧ ∀ i ∈ is, ∀ lane, s.1.t.staged[i]? = some lane →
        Blocked pace s.1.t lane) := by
  induction is generalizing s with
  | nil => exact ⟨hs, le_rfl, .inl, fun _ => ⟨rfl, by simp⟩⟩
  | cons i is ih =>
    rw [List.foldl_cons]
    rcases serveLane_cases pace s i with ⟨hsame, hblocked⟩ | ⟨lane, queued, rest, hlane,
      hmessages, hserve⟩
    · rw [hsame]
      obtain ⟨hlanes, hle, hsent, hnone⟩ := ih hs
      refine ⟨hlanes, hle, hsent, fun hflag => ?_⟩
      obtain ⟨heq, hall⟩ := hnone hflag
      exact ⟨heq, List.forall_mem_cons.2 ⟨hblocked, hall⟩⟩
    · rw [hserve]
      have hwaiting := sameWaiting_packMessage pace
        { s.1 with t := s.1.t.afterTurn i lane rest } queued lane.channel
      have hless : (packMessage pace { s.1 with t := s.1.t.afterTurn i lane rest } queued
          lane.channel).t.waitingCount < s.1.t.waitingCount := by
        have hcount := hs.stagedCount_afterTurn hlane hmessages
        unfold waitingCount
        rw [hwaiting.stagedCount, hwaiting.outbound, hcount]
        show (s.1.t.afterTurn i lane rest).stagedCount + s.1.t.outbound.length < _
        omega
      have hnext : Lanes (packMessage pace { s.1 with t := s.1.t.afterTurn i lane rest } queued
          lane.channel).t :=
        (hs.afterTurn hlane hmessages).of_eq hwaiting.staged hwaiting.stagedCount
      generalize packMessage pace { s.1 with t := s.1.t.afterTurn i lane rest } queued
        lane.channel = p at hless hnext ⊢
      obtain ⟨hlanes, hle, -, hnone⟩ := ih (s := (p, true)) hnext
      refine ⟨hlanes, le_trans hle (le_of_lt hless), fun _ => .inr (lt_of_le_of_lt hle hless),
        fun hflag => ?_⟩
      -- the flag is up and stays up
      have hraised := (hnone hflag).1
      rw [hraised] at hflag
      cases hflag

/-- The turns of a pass reach every lane. -/
theorem exists_turn (cursor : Nat) {lanes i : Nat} (hi : i < lanes) :
    ∃ step < lanes, (cursor + step) % lanes = i := by
  refine ⟨(i + (lanes - cursor % lanes)) % lanes, Nat.mod_lt _ (by omega), ?_⟩
  have hcursor := Nat.mod_lt cursor (show 0 < lanes by omega)
  rw [Nat.add_mod, Nat.mod_mod, ← Nat.add_mod]
  have hdiv := Nat.div_add_mod cursor lanes
  calc (cursor + (i + (lanes - cursor % lanes))) % lanes
      = (i + lanes * (cursor / lanes + 1)) % lanes := by
        congr 1
        rw [Nat.mul_add, Nat.mul_one]
        omega
    _ = i := by rw [Nat.add_mul_mod_self_left, Nat.mod_eq_of_lt hi]

/-- **One pass**: it sends something, or nothing has changed and every lane is blocked. -/
theorem servePass_spec {s : Packing} (hs : Lanes s.t) : Lanes (servePass pace s).1.t ∧
      ((servePass pace s).2 = true → (servePass pace s).1.t.waitingCount < s.t.waitingCount) ∧
      ((servePass pace s).2 = false → (servePass pace s).1 = s ∧
        ∀ lane ∈ s.t.staged, Blocked pace s.t lane) := by
  have hpass : servePass pace s = ((List.range s.t.staged.length).map fun step =>
      (s.t.stagedCursor + step) % s.t.staged.length).foldl (serveLane pace) (s, false) := by
    rw [List.foldl_map]
    rfl
  rw [hpass]
  obtain ⟨hlanes, -, hsent, hnone⟩ := serveLanes_spec pace
    ((List.range s.t.staged.length).map fun step =>
      (s.t.stagedCursor + step) % s.t.staged.length) (s := (s, false)) hs
  refine ⟨hlanes, fun hflag => (hsent hflag).resolve_left Bool.false_ne_true, fun hflag => ?_⟩
  obtain ⟨heq, hblocked⟩ := hnone hflag
  refine ⟨by rw [heq], fun lane hlane => ?_⟩
  obtain ⟨i, hi, rfl⟩ := List.getElem_of_mem hlane
  obtain ⟨step, hstep, hturn⟩ := exists_turn s.t.stagedCursor hi
  refine hblocked i ?_ _ (List.getElem?_eq_getElem hi)
  exact List.mem_map.2 ⟨step, List.mem_range.2 hstep, hturn⟩

/-- **The main loop** ends where no front can be sent: each pass but the last one sends a
message, so it does not run out of passes. -/
theorem settled_flushLoop (fuel : Nat) {s : Packing} (hs : Lanes s.t)
    (hfuel : s.t.waitingCount < fuel) : Settled pace (flushLoop pace fuel s).t := by
  induction fuel generalizing s with
  | zero => exact absurd hfuel (Nat.not_lt_zero _)
  | succ fuel ih =>
    have hrefill : Lanes s.t.refill ∧ s.t.refill.waitingCount = s.t.waitingCount ∧
        (s.t.refill.stagedCount = 0 → s.t.refill.outbound = []) := by
      unfold refill
      split
      · exact ⟨hs.stageOutbound, rfl, fun _ => rfl⟩
      · next hsome => exact ⟨hs, rfl, fun hnone => absurd hnone hsome⟩
    obtain ⟨hlanes, hcount, hdrained⟩ := hrefill
    obtain ⟨hnext, hsent, hnone⟩ := servePass_spec pace (s := { s with t := s.t.refill }) hlanes
    unfold flushLoop
    dsimp only
    split
    · next hempty =>
      refine ⟨fun lane hlane queued rest hmessages => ?_, hdrained⟩
      -- no lane holds anything
      have hheld : held s.t.refill.staged = 0 := by rw [← hlanes.count]; exact hempty
      have hlength : lane.messages.length = 0 := by
        refine List.sum_eq_zero_iff.1 hheld _ (List.mem_map.2 ⟨lane, hlane, rfl⟩)
      rw [hmessages] at hlength
      cases hlength
    · next hsome =>
      split
      · next hflag =>
        refine ih (hnext.of_eq rfl rfl) ?_
        have hless := hsent hflag
        show (servePass pace { s with t := s.t.refill }).1.t.waitingCount < fuel
        rw [hcount] at hless
        omega
      · next hflag =>
        obtain ⟨heq, hblocked⟩ := hnone (by simpa using hflag)
        rw [heq]
        exact ⟨hblocked, fun hempty => absurd hempty hsome⟩

/-- The transport when `FlushOutbound` enters its main loop. -/
def loopStart (t : Transport) : Transport :=
  if t.stagedCount < t.config.outboundQueueCapacity then t.stageOutbound.1 else t

/-- Where the main loop of `FlushOutbound` ends; what was packed last is still to be sent. -/
def loopEnd (t : Transport) (pace : Pace) : Packing :=
  flushLoop pace (t.loopStart.waitingCount + 1) { t := t.loopStart }

theorem flushOutbound_eq (t : Transport) (pace : Pace) :
    t.flushOutbound pace = (flushBatch pace (t.loopEnd pace)).t := rfl

theorem Serves.loopEnd {pace : Pace} {P : Packing → Prop} (h : Serves pace P) {t : Transport}
    (ht : P { t := t.loopStart }) : P (t.loopEnd pace) :=
  h.flushLoop _ ht

theorem Flushes.loopEnd {P : Packing → Prop} (h : Flushes P) (pace : Pace) {t : Transport}
    (ht : P { t := t.loopStart }) : P (t.loopEnd pace) :=
  (h.serves pace).loopEnd ht

theorem Lanes.loopStart {t : Transport} (h : Lanes t) : Lanes t.loopStart := by
  unfold Transport.loopStart
  split
  · exact h.stageOutbound
  · exact h

theorem settled_loopEnd {t : Transport} (h : Lanes t) (pace : Pace) :
    Settled pace (t.loopEnd pace).t :=
  settled_flushLoop pace _ h.loopStart (Nat.lt_succ_self _)

theorem moved_loopEnd {t : Transport} (h : Lanes t) (pace : Pace) :
    ∃ sent, Moved t sent (t.loopEnd pace) := by
  apply (moved_flushes t).loopEnd pace
  unfold Transport.loopStart
  split
  · exact ⟨[], (moved_refl h).stageOutbound⟩
  · exact ⟨[], moved_refl h⟩

end Transport
end Zdt
end Znet

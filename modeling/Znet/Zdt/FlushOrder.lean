import Znet.Lib.Tally
import Znet.Zdt.Aliasing
import Znet.Zdt.Lanes

/-!
# From `Send` to the wire

In a run in which nothing is sent again, the messages `Send` accepted are, channel by channel,
those that were packed, then those in the channel's lane, then those in the ring; and the wire
carries exactly the records of the packed ones, numbered in the order they were packed.

When `FlushOutbound` returns, every lane that still holds something has a front that the window
refused.  The last datagram goes out after that test.  If it takes a packet number that is still
tracked with reliable records, and carries none itself, `in_flight_datagrams_` falls once more and
the window has room again.

* `outbound_accounted` — **the messages of every run**.
-/

namespace Znet
namespace Zdt
namespace Transport

/-! ## Runs -/

/-- The calls that send nothing again: `Send`, `FlushOutbound`, and what arrives or is pruned in
between. -/
def SenderEvent.firstHand : SenderEvent → Bool
  | .send _ | .flush _ | .acks _ _ | .prune _ => true
  | _ => false

/-- What a call adds to the messages `Send` accepted. -/
def acceptedNow (t : Transport) : SenderEvent → List QueuedOut
  | .send queued => if (t.send queued).2 then [queued] else []
  | _ => []

/-- The messages `Send` accepted in a run, in order. -/
def acceptedIn : Transport → List SenderEvent → List QueuedOut
  | _, [] => []
  | t, e :: es => acceptedNow t e ++ acceptedIn (t.handle e) es

variable {t u start : Transport} {sent : List QueuedOut} {pace : Pace} {channel : BitVec 8}
  {s : Packing} {k : Nat}

/-- `Send` accepts one more message. -/
theorem Moved.accept (h : Moved t sent { t := u }) (queued : QueuedOut) :
    Moved { t with outbound := t.outbound ++ [queued] } sent
      { t := { u with outbound := u.outbound ++ [queued] } } where
  lanes := h.lanes.of_eq rfl rfl
  config := h.config
  queues channel := by
    rw [queueOf_accept, queueOf_accept, h.queues, List.append_assoc]
  numbers := h.numbers
  records := h.records
  total := by
    have htotal := h.total
    unfold waitingCount at *
    simp only [List.length_append] at htotal ⊢
    omega

/-- **One call.** -/
theorem Moved.handle (h : Moved t sent { t := u }) {e : SenderEvent} (he : e.firstHand = true) :
    ∃ sent', Moved { t with outbound := t.outbound ++ acceptedNow u e } sent'
      { t := u.handle e } := by
  have hnone : Moved { t with outbound := t.outbound ++ [] } sent { t := u } := by
    rw [List.append_nil]
    exact h
  unfold Transport.handle
  split
  · next hclosed =>
    have hnow : acceptedNow u e = [] := by
      cases e <;> simp [acceptedNow, Transport.send, hclosed]
    rw [hnow]
    exact ⟨sent, hnone⟩
  · next hopen =>
    cases e with
    | send queued =>
      simp only [acceptedNow, Transport.send]
      split
      · exact absurd ‹_› hopen
      · split
        · exact ⟨sent, hnone⟩
        · exact ⟨sent, h.accept queued⟩
    | flush pace => exact (moved_flushes _).flushOutbound pace ⟨sent, hnone⟩
    | acks pace header => exact ⟨sent, (moved_steady _ sent).processAcks pace header hnone⟩
    | prune now => exact ⟨sent, (moved_steady _ sent).pruneSentPackets now hnone⟩
    | retransmit pace | probe pace | control now flags | close => cases he

/-- **A run** leaves the transport as if everything it accepted had been in the ring from the
start. -/
theorem moved_run {es : List SenderEvent} (hes : ∀ e ∈ es, e.firstHand = true) {u' : Transport}
    (hstart : ∃ sent, Moved t sent { t := u }) (hrun : sender.exec u es = some u') :
    ∃ sent, Moved { t with outbound := t.outbound ++ acceptedIn u es } sent { t := u' } := by
  induction es generalizing t u with
  | nil =>
    cases hrun
    rw [acceptedIn, List.append_nil]
    exact hstart
  | cons e es ih =>
    obtain ⟨sent, h⟩ := hstart
    have hnext := h.handle (hes e List.mem_cons_self)
    have hrest := ih (fun e' he' => hes e' (List.mem_cons_of_mem _ he')) hnext hrun
    rw [acceptedIn, ← List.append_assoc]
    exact hrest

/-! ## The last datagram -/

/-- The number of the datagram being packed is still tracked with reliable records, and the datagram
has none. -/
def Reuses (s : Packing) : Prop :=
  s.batch ≠ [] ∧ (∀ p ∈ s.batch, p.reliable = false) ∧
    ∃ info : SentInfo, s.t.sentPackets[s.t.nextPacketSeq]? = some info ∧ 0 < info.keys.length

/-- What the window refused it refuses still, if it looks at the same records and at least as many
datagrams are in flight. -/
theorem refused_mono {t' : Transport} (h : t.refused pace channel = true)
    (hconfig : t'.config = t.config) (hsize : t'.unacked.size = t.unacked.size)
    (holdest : t'.oldestUnacked channel = t.oldestUnacked channel)
    (hchannels : t'.channels = t.channels) (hflight : t.inFlightDatagrams ≤ t'.inFlightDatagrams) :
    t'.refused pace channel = true := by
  unfold refused at *
  rw [hconfig, hsize, holdest, hchannels]
  simp only [Bool.or_eq_true, decide_eq_true_eq] at h ⊢
  rcases h with (h | h) | h
  · exact .inl (.inl h)
  · exact .inl (.inr (le_trans h hflight))
  · exact .inr h

/-- Noting a packet number in a tracked record moves nothing the window looks at. -/
theorem refused_logPacket (key : MsgKey) (packet : WireSeq) (h : t.refused pace channel = true) :
    (t.logPacket key packet).refused pace channel = true := by
  unfold logPacket
  split
  · exact h
  · next msg hmsg =>
    have hmem : key ∈ t.unacked := by
      rw [Std.ExtTreeMap.mem_iff_isSome_getElem?, hmsg]
      rfl
    refine refused_mono h rfl ?_ ?_ rfl le_rfl
    · show (t.unacked.insert key _).size = _
      rw [Std.ExtTreeMap.size_insert, if_pos (by exact hmem)]
    · unfold oldestUnacked
      dsimp only
      rw [Tally.getKeyGE?_insert_of_mem hmem]

theorem length_keys_le_batchKeys (batch : List PendingRecord) (info : SentInfo) :
    info.keys.length ≤ (batchKeys batch info).keys.length := by
  refine List.foldlRecOn (motive := fun i : SentInfo => info.keys.length ≤ i.keys.length) _ _ le_rfl
    fun i hi p _ => ?_
  split
  · unfold SentInfo.add
    split
    · rw [List.length_append]
      omega
    · exact hi
  · exact hi

/-- A datagram with a reliable record is tracked as one. -/
theorem batchKeys_pos {batch : List PendingRecord} {p : PendingRecord} (hp : p ∈ batch)
    (hrel : p.reliable = true) (info : SentInfo) : 0 < (batchKeys batch info).keys.length := by
  obtain ⟨before, after, rfl⟩ := List.append_of_mem hp
  have hsplit : batchKeys (before ++ p :: after) info =
      batchKeys after ((batchKeys before info).add p.key) := by
    unfold batchKeys
    rw [List.foldl_append, List.foldl_cons, if_pos hrel]
  rw [hsplit]
  refine lt_of_lt_of_le ?_ (length_keys_le_batchKeys after _)
  unfold SentInfo.add
  split
  · simp
  · next hfull =>
    simp only [kMaxKeys, not_lt] at hfull
    omega

/-- Retiring a number takes at most one datagram out of flight. -/
theorem inFlight_le_retireSentPacket (t : Transport) (seq : WireSeq) :
    t.inFlightDatagrams ≤ (t.retireSentPacket seq).inFlightDatagrams + 1 := by
  unfold retireSentPacket
  split
  · exact Nat.le_succ _
  · dsimp only
    split <;> omega

/-- A datagram goes out, and as many are in flight as before. -/
theorem inFlight_le_sendBatch (hbatch : s.batch ≠ []) (hreuse : ¬ Reuses s) (now : TimePoint) :
    s.t.inFlightDatagrams ≤ (s.t.sendBatch now 0 s.batch).1.inFlightDatagrams := by
  unfold sendBatch
  dsimp only
  by_cases hrel : ∃ p ∈ s.batch, p.reliable = true
  · -- the datagram is counted, whatever its number was used for
    obtain ⟨p, hp, hp'⟩ := hrel
    rw [if_pos (batchKeys_pos hp hp' _)]
    exact inFlight_le_retireSentPacket
      { s.t with nextPacketSeq := followingSeq s.t.nextPacketSeq } s.t.nextPacketSeq
  · have hunrel : ∀ p ∈ s.batch, p.reliable = false := by
      intro p hp
      by_contra hne
      exact hrel ⟨p, hp, by simpa using hne⟩
    have hretire : s.t.inFlightDatagrams ≤ (retireSentPacket
        { s.t with nextPacketSeq := followingSeq s.t.nextPacketSeq }
        s.t.nextPacketSeq).inFlightDatagrams := by
      unfold retireSentPacket
      split
      · exact le_rfl
      · next info hinfo =>
        have hkeys : ¬ 0 < info.keys.length := by
          intro hpos
          exact hreuse ⟨hbatch, hunrel, info, hinfo, hpos⟩
        dsimp only
        rw [if_neg (fun h => hkeys h.1)]
    split
    · exact le_trans hretire (Nat.le_succ _)
    · exact hretire

/-- **`flush_batch`** leaves what the window refuses refused, unless it reuses a number. -/
theorem refused_flushBatch (h : s.t.refused pace channel = true) :
    (flushBatch pace s).t.refused pace channel = true ∨ Reuses s := by
  by_cases hreuse : Reuses s
  · exact .inr hreuse
  · refine .inl ?_
    unfold flushBatch
    split
    · exact h
    · next hbatch =>
      have hnil : s.batch ≠ [] := by simpa using hbatch
      obtain ⟨sent, flight, heq⟩ := sendBatch_eq s.t pace.now 0 s.batch
      have hsent : (s.t.sendBatch pace.now 0 s.batch).1.refused pace channel = true := by
        have hflight := inFlight_le_sendBatch hnil hreuse pace.now
        rw [heq] at hflight ⊢
        exact refused_mono h rfl rfl rfl rfl hflight
      refine List.foldlRecOn (motive := fun t : Transport => t.refused pace channel = true) _ _
        hsent fun t ht p _ => ?_
      split
      · exact refused_logPacket _ _ ht
      · exact ht

/-- **When `FlushOutbound` returns**, the front of every lane that still holds something was refused
at the end of the main loop, and still is unless the last datagram reused a number. -/
theorem front_flushOutbound (ht : Lanes t) (pace : Pace) {lane : StagedLane}
    (hlane : lane ∈ (t.flushOutbound pace).staged) {queued : QueuedOut} {rest : List QueuedOut}
    (hmessages : lane.messages = queued :: rest) :
    queued.reliable = true ∧ (t.loopEnd pace).t.refused pace lane.channel = true ∧
      ((t.flushOutbound pace).refused pace lane.channel = true ∨ Reuses (t.loopEnd pace)) := by
  rw [flushOutbound_eq] at hlane ⊢
  rw [(sameWaiting_flushBatch pace (t.loopEnd pace)).staged] at hlane
  obtain ⟨hrel, hrefused⟩ := (settled_loopEnd ht pace).fronts lane hlane queued rest hmessages
  exact ⟨hrel, hrefused, refused_flushBatch hrefused⟩

/-! ## The messages of a run -/

/-- An unreliable message of channel 1. -/
def ping : QueuedOut := { payload := [9], reliable := false, channel := 1 }

/-- A reliable message of channel 0. -/
def letter (n : UInt8) : QueuedOut := { payload := [n] }

/-- Two reliable datagrams fill the window, a third reliable message has to wait, and one unreliable
message goes out. -/
def fillWindow : List SenderEvent :=
  [.send (letter 0), .flush tight, .send (letter 1), .flush tight, .send (letter 2), .send ping,
    .flush tight]

/-- **From `Send` to the wire.**  After every run of `Send` and `FlushOutbound`, with any
acknowledgements and pruning in between:

* there are messages `packed` such that on each channel the accepted messages are, in order, the
  packed ones, those in its lane and those in the ring, and the wire carries the records of the
  packed ones: each under the number of earlier ones of its channel and reliability, in one record
  or in its fragments, and in none when it would need more than 255;
* each channel has one lane, which holds messages of that channel only, and `staged_count_` is the
  total length of the lanes;
* when `FlushOutbound` returns, the front of every lane that still holds something is a reliable
  message that the window refused when the main loop ended, and refuses still unless the last
  datagram, with no reliable record, took a packet number under which some are tracked. -/
theorem outbound_accounted (config : Config) (es : List SenderEvent)
    (hcalls : ∀ e ∈ es, e.firstHand = true) (t : Transport)
    (hrun : sender.exec { config := config } es = some t) :
    (∃ packed, (∀ channel, (acceptedIn { config := config } es).filter (·.channel = channel) =
        packed.filter (·.channel = channel) ++
          (laneOf t.staged channel ++ t.outbound.filter (·.channel = channel))) ∧
      t.sentRecords = recordsOf config (fun _ _ => 0) packed) ∧
    ((t.staged.map StagedLane.channel).Nodup ∧
      (∀ lane ∈ t.staged, ∀ queued ∈ lane.messages, queued.channel = lane.channel) ∧
      t.stagedCount = (t.staged.map fun lane => lane.messages.length).sum) ∧
    ∀ pace, ∀ lane ∈ (t.flushOutbound pace).staged, ∀ queued rest,
      lane.messages = queued :: rest →
      queued.reliable = true ∧ (t.loopEnd pace).t.refused pace lane.channel = true ∧
        ((t.flushOutbound pace).refused pace lane.channel = true ∨ Reuses (t.loopEnd pace)) := by
  obtain ⟨packed, h⟩ := moved_run hcalls ⟨[], moved_refl (lanes_fresh config)⟩ hrun
  refine ⟨⟨packed, fun channel => ?_, ?_⟩, ⟨h.lanes.distinct, h.lanes.own, h.lanes.count⟩, ?_⟩
  · exact h.queues channel
  · have hnext : ∀ outbound : List QueuedOut,
        ({ config := config, outbound := outbound } : Transport).nextSeq = fun _ _ => 0 := by
      intro outbound
      funext channel reliable
      cases reliable <;> rfl
    have hrecords := h.records
    rw [Packing.records, List.append_nil, hnext] at hrecords
    exact hrecords
  · intro pace lane hlane queued rest hmessages
    exact front_flushOutbound h.lanes pace hlane hmessages

theorem outbound_accounted_filled :
    ∃ t, sender.exec { config := {} } fillWindow = some t ∧ t.stagedCount = 1 ∧
      (∃ packed, t.sentRecords = recordsOf {} (fun _ _ => 0) packed) ∧
      t.stagedCount = (t.staged.map fun lane => lane.messages.length).sum := by
  apply Machine.exists_exec (P := fun t : Transport => t.stagedCount = 1) (by decide +kernel)
  intro t hrun hone
  obtain ⟨⟨packed, -, hrecords⟩, ⟨-, -, hcount⟩, -⟩ :=
    outbound_accounted {} fillWindow (by decide) t hrun
  exact ⟨hone, ⟨packed, hrecords⟩, hcount⟩

/-! ## A run that wraps the packet numbers -/

/-- The lanes while the third message waits; `pings` are those of channel 1. -/
def parkedLanes (pings : List QueuedOut) : List StagedLane := [⟨0, [letter 2]⟩, ⟨1, pings⟩]

/-- The third message waits, `k` datagrams have been sent, and the first of them is still
tracked. -/
structure Parked (start t : Transport) (k : Nat) : Prop where
  config : t.config = {}
  isClosed : t.isClosed = false
  outbound : t.outbound = []
  staged : t.staged = parkedLanes []
  stagedCount : t.stagedCount = 1
  stagedCursor : t.stagedCursor = 0 ∨ t.stagedCursor = 1
  unacked : t.unacked = start.unacked
  relSend : (t.channels 0).relSend = (start.channels 0).relSend
  inFlight : t.inFlightDatagrams = 2
  nextPacketSeq : t.nextPacketSeq = packetNumber k
  first : (t.sentPackets[packetNumber 0]?).map (fun info => info.keys.length) = some 1
  fresh : ∀ j, k ≤ j → j < 65535 → t.sentPackets[packetNumber j]? = none

/-- The lane of channel 0 is passed over. -/
theorem serveLane_parked (pings : List QueuedOut) (hstaged : s.t.staged = parkedLanes pings)
    (hflight : s.t.inFlightDatagrams = 2) (flag : Bool) :
    serveLane tight (s, flag) 0 = (s, flag) := by
  have hrefused : s.t.refused tight 0 = true := refused_of_window (le_of_eq hflight.symm) 0
  unfold serveLane
  dsimp only
  rw [hstaged]
  show (if (true && s.t.refused tight 0) = true then _ else _) = _
  rw [hrefused]
  rfl

theorem serveLane_nothing (hstaged : s.t.staged = parkedLanes []) (flag : Bool) :
    serveLane tight (s, flag) 1 = (s, flag) := by
  unfold serveLane
  simp [hstaged, parkedLanes]

/-- The transport once `ping` has its number. -/
def pinged (t : Transport) : Transport :=
  { (t.takeSeq 1 false).1 with outbound := [], staged := parkedLanes [], stagedCount := 1 }

/-- `ping` is packed. -/
def packedPing (t : Transport) : Packing where
  t := pinged t
  batch := [wholeRecord ping 1 (t.nextSeq 1 false)]
  batchBytes := kZDTHeaderReserve + zdtRecordSize false 1

/-- `ping` is in its lane. -/
def stagedPing (t : Transport) : Transport :=
  { t with outbound := [], staged := parkedLanes [ping], stagedCount := 2 }

theorem serveLane_ping (hconfig : t.config = {}) (flag : Bool) :
    serveLane tight ({ t := stagedPing t }, flag) 1 = (packedPing t, true) := by
  have hfits : ping.payload.length ≤ unfragCapacity {} := by decide
  have hroom : ¬ (packMtu {} < kZDTHeaderReserve + zdtRecordSize false ping.payload.length ∨
      kMaxKeys ≤ ([] : List PendingRecord).length) := by decide
  have hpack : packMessage tight { t := { t with
      outbound := [], staged := parkedLanes [], stagedCount := 1 } } ping 1 = packedPing t := by
    have htaken : (({ t with outbound := [], staged := parkedLanes [], stagedCount := 1 } :
        Transport).takeSeq 1 ping.reliable).1.config = {} := hconfig
    unfold packMessage
    dsimp only
    rw [htaken, if_pos hfits, if_neg hroom]
    rfl
  rw [← hpack]
  rfl

/-- **One pass** packs `ping`, whichever lane it begins with. -/
theorem servePass_ping (h : Parked start t k) :
    servePass tight { t := stagedPing t } = (packedPing t, true) := by
  have hlanes : (stagedPing t).staged.length = 2 := rfl
  have hblocked := serveLane_parked (s := { t := stagedPing t }) [ping] rfl h.inFlight
  have hblocked' := serveLane_parked (s := packedPing t) [] rfl h.inFlight
  have hping := serveLane_ping h.config
  have hcursor : (stagedPing t).stagedCursor = t.stagedCursor := rfl
  unfold servePass
  dsimp only
  rw [hlanes, hcursor]
  rcases h.stagedCursor with hzero | hone
  · simp only [hzero, List.range_succ, List.range_zero, List.nil_append, List.cons_append,
      List.foldl_cons, List.foldl_nil, Nat.zero_add, Nat.zero_mod, hblocked]
    exact hping false
  · simp only [hone, List.range_succ, List.range_zero, List.nil_append, List.cons_append,
      List.foldl_cons, List.foldl_nil]
    show serveLane tight (serveLane tight ({ t := stagedPing t }, false) 1) 0 = _
    rw [hping false, hblocked' true]

/-- The transport with the cursor moved on. -/
def rotatedPing (t : Transport) : Packing :=
  { packedPing t with t := (packedPing t).t.rotate }

theorem servePass_parked (h : Parked start t k) :
    servePass tight (rotatedPing t) = (rotatedPing t, false) := by
  have hlanes : (rotatedPing t).t.staged.length = 2 := rfl
  have hblocked := serveLane_parked (s := rotatedPing t) [] rfl h.inFlight false
  have hempty := serveLane_nothing (s := rotatedPing t) rfl false
  have hcursor : (rotatedPing t).t.stagedCursor = (t.stagedCursor + 1) % 2 := rfl
  unfold servePass
  dsimp only
  rw [hlanes, hcursor]
  rcases h.stagedCursor with hzero | hone
  · simp only [hzero, List.range_succ, List.range_zero, List.nil_append, List.cons_append,
      List.foldl_cons, List.foldl_nil]
    show serveLane tight (serveLane tight (rotatedPing t, false) 1) 0 = _
    rw [hempty, hblocked]
  · simp only [hone, List.range_succ, List.range_zero, List.nil_append, List.cons_append,
      List.foldl_cons, List.foldl_nil]
    show serveLane tight (serveLane tight (rotatedPing t, false) 0) 1 = _
    rw [hblocked, hempty]

theorem send_parked (h : Parked start t k) :
    t.send ping = ({ t with outbound := [ping] }, true) := by
  have hroom := ringCapacity_pos t.config
  unfold send
  rw [h.isClosed, if_neg (by decide), h.outbound, List.length_nil, if_neg (Nat.not_le.2 hroom)]
  rfl

/-- **One round**: `ping` goes out in a datagram of its own. -/
theorem flush_parked (h : Parked start t k) :
    (t.send ping).1.flushOutbound tight =
      ((rotatedPing t).t.sendBatch 0 0 [wholeRecord ping 1 (t.nextSeq 1 false)]).1 := by
  have hstage : ({ t with outbound := [ping] } : Transport).loopStart = stagedPing t := by
    have hcount : ({ t with outbound := [ping] } : Transport).stagedCount <
        ({ t with outbound := [ping] } : Transport).config.outboundQueueCapacity := by
      show t.stagedCount < t.config.outboundQueueCapacity
      rw [h.stagedCount, h.config]
      decide
    unfold loopStart
    rw [if_pos hcount]
    simp [stageOutbound, stagedPing, h.staged, h.stagedCount, parkedLanes, stageInto, ping]
  have hend : ({ t with outbound := [ping] } : Transport).loopEnd tight = rotatedPing t := by
    unfold loopEnd
    rw [hstage]
    show flushLoop tight 3 { t := stagedPing t } = _
    have hrefill : (stagedPing t).refill = stagedPing t := rfl
    have hrefill' : (rotatedPing t).t.refill = (rotatedPing t).t := rfl
    unfold flushLoop
    dsimp only
    rw [hrefill, if_neg (by exact two_ne_zero), servePass_ping h, if_pos rfl]
    show flushLoop tight 2 (rotatedPing t) = _
    unfold flushLoop
    dsimp only
    rw [hrefill', if_neg (by exact one_ne_zero), servePass_parked h,
      if_neg Bool.false_ne_true]
  rw [send_parked h, flushOutbound_eq, hend]
  rfl

theorem packetNumber_injOn {i j : Nat} (hi : i < 65535) (hj : j < 65535)
    (h : packetNumber i = packetNumber j) : i = j := by
  have hnat := congrArg BitVec.toNat h
  simp only [packetNumber, BitVec.toNat_ofNat] at hnat
  omega

/-- The transport after a round, but for what `SendBatch` files. -/
theorem Parked.round (h : Parked start t k) (hpos : 0 < k) (hk : k < 65535) :
    Parked start ((t.send ping).1.flushOutbound tight) (k + 1) := by
  have hnone : (rotatedPing t).t.sentPackets[(rotatedPing t).t.nextPacketSeq]? = none := by
    show t.sentPackets[t.nextPacketSeq]? = none
    rw [h.nextPacketSeq]
    exact h.fresh k le_rfl hk
  have hlookup : ∀ j, j < 65535 → j ≠ k →
      (t.sentPackets.insert t.nextPacketSeq { sendTime := 0, keys := [] })[packetNumber j]? =
        t.sentPackets[packetNumber j]? := by
    intro j hj hne
    rw [Keyed.getElem?_insert_eq, if_neg]
    rw [h.nextPacketSeq]
    exact fun heq => hne (packetNumber_injOn hj hk heq)
  rw [flush_parked h, sendBatch_of_fresh hnone]
  exact
    { config := h.config
      isClosed := h.isClosed
      outbound := rfl
      staged := rfl
      stagedCount := rfl
      stagedCursor := by
        show (t.stagedCursor + 1) % 2 = 0 ∨ (t.stagedCursor + 1) % 2 = 1
        omega
      unacked := h.unacked
      relSend := by
        rw [← h.relSend]
        rfl
      inFlight := h.inFlight
      nextPacketSeq := by
        show followingSeq t.nextPacketSeq = _
        rw [h.nextPacketSeq, followingSeq_packetNumber]
      first := by
        rw [← h.first]
        exact congrArg _ (hlookup 0 (by omega) (by omega))
      fresh := by
        intro j hj hlast
        exact (hlookup j hlast (by omega)).trans (h.fresh j (by omega) hlast) }

/-- `ping` is sent `n` times. -/
def pingRounds (n : Nat) : List SenderEvent := (List.replicate n [.send ping, .flush tight]).flatten

theorem parked_rounds (h : Parked start t k) (hpos : 0 < k) (n : Nat) (hn : k + n ≤ 65535) :
    ∃ t', sender.exec t (pingRounds n) = some t' ∧ Parked start t' (k + n) := by
  induction n generalizing t k with
  | zero => exact ⟨t, rfl, h⟩
  | succ n ih =>
    have hsend : t.handle (.send ping) = (t.send ping).1 := by
      unfold handle
      rw [h.isClosed, if_neg (by decide)]
    have hopen : (t.send ping).1.isClosed = false := by
      rw [send_parked h]
      exact h.isClosed
    have h₁ : sender.step t (.send ping) = some (t.send ping).1 := congrArg some hsend
    have h₂ : sender.step (t.send ping).1 (.flush tight) =
        some ((t.send ping).1.flushOutbound tight) := congrArg some (handle_of_open hopen tight)
    obtain ⟨t', hexec, hparked⟩ := ih (h.round hpos (by omega)) (by omega) (by omega)
    refine ⟨t', ?_, ?_⟩
    · rw [pingRounds, List.replicate_succ, List.flatten_cons]
      exact (sender.exec_cons h₁ _).trans ((sender.exec_cons h₂ _).trans hexec)
    · rwa [show k + (n + 1) = k + 1 + n by omega]

/-- What the run is checked on once the window is full. -/
theorem exec_fillWindow : ∃ start, sender.exec { config := {} } fillWindow = some start ∧
    Parked start start 3 ∧
    ({ start with inFlightDatagrams := 1 } : Transport).refused tight 0 = false := by
  apply Machine.exists_exec (P := fun t : Transport =>
    (t.config = {} ∧ t.isClosed = false ∧ t.outbound = [] ∧ t.staged = parkedLanes [] ∧
      t.stagedCount = 1 ∧ t.stagedCursor = 1) ∧
    t.inFlightDatagrams = 2 ∧ t.nextPacketSeq = packetNumber 3 ∧
    t.sentPackets.toList.map (fun entry => (entry.1, entry.2.keys.length)) =
      [(packetNumber 0, 1), (packetNumber 1, 1), (packetNumber 2, 0)] ∧
    ({ t with inFlightDatagrams := 1 } : Transport).refused tight 0 = false) (by decide +kernel)
  rintro start hrun ⟨⟨hconfig, hclosed, houtbound, hstaged, hcount, hcursor⟩, hflight, hnext, hsent,
    hroom⟩
  have hlisted : ∀ (seq : WireSeq) (info : SentInfo), start.sentPackets[seq]? = some info →
      (seq, info.keys.length) ∈
        [(packetNumber 0, 1), (packetNumber 1, 1), (packetNumber 2, 0)] := by
    intro seq info hinfo
    rw [← hsent]
    exact List.mem_map.2 ⟨(seq, info), Std.ExtTreeMap.mem_toList_iff_getElem?_eq_some.2 hinfo, rfl⟩
  refine ⟨?_, hroom⟩
  exact
    { config := hconfig
      isClosed := hclosed
      outbound := houtbound
      staged := hstaged
      stagedCount := hcount
      stagedCursor := .inr hcursor
      unacked := rfl
      relSend := rfl
      inFlight := hflight
      nextPacketSeq := hnext
      first := by
        have hmem : (packetNumber 0, 1) ∈
            start.sentPackets.toList.map fun entry => (entry.1, entry.2.keys.length) := by
          rw [hsent]
          exact List.mem_cons_self
        obtain ⟨entry, hentry, heq⟩ := List.mem_map.1 hmem
        rw [Prod.mk.injEq] at heq
        rw [← heq.1, Std.ExtTreeMap.mem_toList_iff_getElem?_eq_some.1 hentry,
          Option.map_some, heq.2]
      fresh := by
        intro j hj hlast
        rw [Option.eq_none_iff_forall_ne_some]
        intro info hinfo
        have hmem := hlisted _ _ hinfo
        simp only [List.mem_cons, Prod.mk.injEq, List.not_mem_nil, or_false] at hmem
        rcases hmem with ⟨heq, -⟩ | ⟨heq, -⟩ | ⟨heq, -⟩
        all_goals
          have := packetNumber_injOn hlast (by decide) heq
          omega }

/-- **The number of the first datagram comes round**: `ping` takes it, and the window has room. -/
theorem Parked.reuse (h : Parked start t 65535) (hstart : start.config = {}) :
    ((t.send ping).1.flushOutbound tight).staged = parkedLanes [] ∧
      ((t.send ping).1.flushOutbound tight).refused tight 0 =
        ({ start with inFlightDatagrams := 1 } : Transport).refused tight 0 := by
  obtain ⟨info, hinfo, hkeys⟩ := Option.map_eq_some_iff.1 h.first
  have hnext : t.nextPacketSeq = packetNumber 0 := h.nextPacketSeq
  have hretire : ∀ u : Transport, u.sentPackets = t.sentPackets → u.inFlightDatagrams = 2 →
      (u.retireSentPacket t.nextPacketSeq).inFlightDatagrams = 1 := by
    intro u hsent hflight
    unfold retireSentPacket
    rw [hsent, hnext, hinfo]
    simp [hkeys, hflight]
  have hflight : ((rotatedPing t).t.sendBatch 0 0
      [wholeRecord ping 1 (t.nextSeq 1 false)]).1.inFlightDatagrams = 1 :=
    hretire _ rfl h.inFlight
  obtain ⟨sent, flight, heq⟩ := sendBatch_eq (rotatedPing t).t 0 0
    [wholeRecord ping 1 (t.nextSeq 1 false)]
  rw [heq] at hflight
  obtain rfl : flight = 1 := hflight
  rw [flush_parked h, heq]
  refine ⟨rfl, ?_⟩
  have hconfig : (rotatedPing t).t.config = {} := h.config
  unfold refused oldestUnacked
  dsimp only
  rw [← h.unacked, ← h.relSend, hconfig, hstart]
  rfl

/-- **A front that can be sent.**  Two reliable datagrams fill the window and a third reliable
message waits.  The 65533rd unreliable datagram takes the number of the first reliable one, and when
that `FlushOutbound` returns only one datagram is in flight: the window would let the waiting
message through. -/
theorem front_sendable_after_wrap :
    ∃ t, sender.exec { config := {} } (fillWindow ++ pingRounds 65532 ++ [.send ping]) = some t ∧
      ∃ lane ∈ (t.flushOutbound tight).staged, lane.messages = [letter 2] ∧
        (t.flushOutbound tight).refused tight lane.channel = false := by
  obtain ⟨start, hstart, hparked, hroom⟩ := exec_fillWindow
  obtain ⟨t, hrounds, ht⟩ := parked_rounds hparked (by decide) 65532 (by decide)
  obtain ⟨hstaged, hrefused⟩ := Parked.reuse ht hparked.config
  have hopen : t.handle (.send ping) = (t.send ping).1 := by
    unfold handle
    rw [ht.isClosed, if_neg (by decide)]
  have hlast : sender.step t (.send ping) = some (t.send ping).1 := congrArg some hopen
  refine ⟨(t.send ping).1, ?_, ⟨0, [letter 2]⟩, ?_, rfl, hrefused.trans hroom⟩
  · rw [sender.exec_append ((sender.exec_append hstart _).trans hrounds), sender.exec_cons hlast]
    rfl
  · rw [hstaged]
    exact List.mem_cons_self

end Transport
end Zdt
end Znet

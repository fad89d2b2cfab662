import Znet.Zdt.Wire

/-!
# One channel's receive side

`ChannelState` and `DeliverMessage` of `zdt_transport.{h,cc}`.  A channel keeps
two sequence spaces, reliable and unreliable, and four delivery modes over them:
reliable messages are held back until their turn (ordered) or delivered on
arrival with duplicates dropped (unordered), unreliable ones are delivered only
when newer than the last (ordered, the source says *sequenced*) or always.
-/

namespace Znet
namespace Zdt

/-! ## The state -/

/-- Per-channel state; `α` is the payload a message carries. -/
structure ChannelState (α : Type) where
  relSend : Nat := 0
  unrelSend : Nat := 0
  relExpected : Nat := 0
  relReorder : Std.ExtTreeMap Nat α compare := ∅
  relDeliveredAhead : Finset Nat := ∅
  unrelLast : Nat := 0
  unrelStarted : Bool := false

/-- What `DeliverMessage` works on: the channel of the record it is given and
the queue of delivered messages. -/
structure Receiving (α : Type) where
  channel : ChannelState α := {}
  ready : List α := []

variable {α : Type}

/-- The flags byte of a record sent with the given options. -/
def recordFlags (reliable ordered : Bool) : BitVec 8 :=
  (if reliable then kRecReliable else 0) ||| (if ordered then kRecOrdered else 0)

@[simp] theorem hasFlag_recordFlags_reliable (r o : Bool) :
    hasFlag (recordFlags r o) kRecReliable = r := by
  cases r <;> cases o <;> rfl

@[simp] theorem hasFlag_recordFlags_ordered (r o : Bool) :
    hasFlag (recordFlags r o) kRecOrdered = o := by
  cases r <;> cases o <;> rfl

/-- The record of a whole message with the given options and sequence number. -/
def messageRecord (channel : BitVec 8) (reliable ordered : Bool) (seq : Nat) : ZDTRecord :=
  { flags := recordFlags reliable ordered, channel := channel, messageSeq := BitVec.ofNat 16 seq }

/-! ## The code -/

/-- The full sequence number of a record, next to what its substream expects. -/
def reconstructSeqFor (ch : ChannelState α) (record : ZDTRecord) : Nat :=
  if hasFlag record.flags kRecReliable then reconstructSeq record.messageSeq ch.relExpected
  else reconstructSeq record.messageSeq (if ch.unrelStarted then ch.unrelLast + 1 else 0)

/-- The loop over `rel_delivered_ahead`; every pass erases an element, so the
set's size is enough fuel. -/
def advanceAhead : Nat → ChannelState α → ChannelState α
  | 0, ch => ch
  | fuel + 1, ch =>
    if ch.relExpected ∈ ch.relDeliveredAhead then
      advanceAhead fuel
        { ch with
          relDeliveredAhead := ch.relDeliveredAhead.erase ch.relExpected
          relExpected := ch.relExpected + 1 }
    else ch

/-- The loop over `rel_reorder`; every pass erases an entry, so the map's size
is enough fuel. -/
def drainReorder : Nat → Receiving α → Receiving α
  | 0, s => s
  | fuel + 1, s =>
    match s.channel.relReorder[s.channel.relExpected]? with
    | none => s
    | some payload =>
      drainReorder fuel
        { channel :=
            { s.channel with
              relReorder := s.channel.relReorder.erase s.channel.relExpected
              relExpected := s.channel.relExpected + 1 }
          ready := s.ready ++ [payload] }

/-- Hand one whole message to its channel. -/
def deliverMessage (s : Receiving α) (record : ZDTRecord) (payload : α) : Receiving α :=
  let reliable := hasFlag record.flags kRecReliable
  let ordered := hasFlag record.flags kRecOrdered
  let seq := reconstructSeqFor s.channel record
  if !reliable && !ordered then
    { s with ready := s.ready ++ [payload] }
  else if !reliable && ordered then
    if s.channel.unrelStarted = false ∨ s.channel.unrelLast < seq then
      { channel := { s.channel with unrelStarted := true, unrelLast := seq }
        ready := s.ready ++ [payload] }
    else s
  else if reliable && !ordered then
    if seq < s.channel.relExpected ∨ seq ∈ s.channel.relDeliveredAhead then s
    else
      let ahead := insert seq s.channel.relDeliveredAhead
      { channel := advanceAhead ahead.card { s.channel with relDeliveredAhead := ahead }
        ready := s.ready ++ [payload] }
  else if seq < s.channel.relExpected then s
  else if seq = s.channel.relExpected then
    drainReorder s.channel.relReorder.size
      { channel := { s.channel with relExpected := s.channel.relExpected + 1 }
        ready := s.ready ++ [payload] }
  else
    -- `emplace` keeps the entry that is already there
    { s with
      channel :=
        { s.channel with relReorder := s.channel.relReorder.insertIfNew seq payload } }

/-! ## The loops -/

/-- **The loop over the delivered set.**  It moves the watermark past the run of
numbers in the set and drops them from it. -/
theorem advanceAhead_spec (fuel : Nat) (ch : ChannelState α)
    (hge : ∀ k ∈ ch.relDeliveredAhead, ch.relExpected ≤ k)
    (hfuel : ch.relDeliveredAhead.card ≤ fuel) :
    ∃ e, ch.relExpected ≤ e ∧ e ∉ ch.relDeliveredAhead ∧
      (∀ k, ch.relExpected ≤ k → k < e → k ∈ ch.relDeliveredAhead) ∧
      advanceAhead fuel ch =
        { ch with
          relExpected := e
          relDeliveredAhead := ch.relDeliveredAhead.filter (e ≤ ·) } := by
  induction fuel generalizing ch with
  | zero =>
    have hempty : ch.relDeliveredAhead = ∅ := Finset.card_eq_zero.1 (by omega)
    refine ⟨ch.relExpected, le_rfl, by simp [hempty], fun k hk hk' => by omega, ?_⟩
    rw [advanceAhead, Finset.filter_true_of_mem hge]
  | succ fuel ih =>
    by_cases hmem : ch.relExpected ∈ ch.relDeliveredAhead
    · obtain ⟨e, hle, hnot, hrun, heq⟩ := ih
        { ch with
          relDeliveredAhead := ch.relDeliveredAhead.erase ch.relExpected
          relExpected := ch.relExpected + 1 }
        (by
          intro k hk
          obtain ⟨hne, hk⟩ := Finset.mem_erase.1 hk
          have := hge k hk
          simp only
          omega)
        (by
          have := Finset.card_erase_of_mem hmem
          simp only
          omega)
      simp only at hle hnot hrun heq
      refine ⟨e, by omega, fun he => hnot (Finset.mem_erase.2 ⟨by omega, he⟩), ?_, ?_⟩
      · intro k hk hke
        by_cases hk0 : k = ch.relExpected
        · rwa [hk0]
        · exact (Finset.mem_erase.1 (hrun k (by omega) hke)).2
      · rw [advanceAhead, if_pos hmem, heq]
        congr 1
        ext k
        simp only [Finset.mem_filter, Finset.mem_erase]
        constructor
        · rintro ⟨⟨-, hk⟩, hek⟩
          exact ⟨hk, hek⟩
        · rintro ⟨hk, hek⟩
          exact ⟨⟨by omega, hk⟩, hek⟩
    · refine ⟨ch.relExpected, le_rfl, hmem, fun k hk hk' => by omega, ?_⟩
      rw [advanceAhead, if_neg hmem, Finset.filter_true_of_mem hge]

theorem range_between {a e : Nat} (h : a < e) :
    List.range' a (e - a) = a :: List.range' (a + 1) (e - (a + 1)) := by
  rw [show e - a = e - (a + 1) + 1 by omega, List.range'_succ]

/-- **The loop over the reorder buffer.**  It moves the watermark past the run
of numbers the buffer holds, delivers their payloads in order and drops them
from the buffer. -/
theorem drainReorder_spec (payloads : Nat → α) (fuel : Nat) (s : Receiving α)
    (hge : ∀ k v, s.channel.relReorder[k]? = some v →
      s.channel.relExpected ≤ k ∧ v = payloads k)
    (hfuel : s.channel.relReorder.size ≤ fuel) :
    ∃ e rest, s.channel.relExpected ≤ e ∧ s.channel.relReorder[e]? = none ∧
      (∀ k, s.channel.relExpected ≤ k → k < e →
        s.channel.relReorder[k]? = some (payloads k)) ∧
      (∀ k : Nat, rest[k]? = if e ≤ k then s.channel.relReorder[k]? else none) ∧
      drainReorder fuel s =
        { channel := { s.channel with relExpected := e, relReorder := rest }
          ready := s.ready ++
            (List.range' s.channel.relExpected (e - s.channel.relExpected)).map payloads } := by
  induction fuel generalizing s with
  | zero =>
    have hnone : ∀ k : Nat, s.channel.relReorder[k]? = none := by
      intro k
      have hempty : s.channel.relReorder = ∅ :=
        Std.ExtTreeMap.eq_empty_iff_size_eq_zero.2 (by omega)
      simp [hempty]
    refine ⟨s.channel.relExpected, s.channel.relReorder, le_rfl, hnone _,
      fun k hk hk' => by omega, fun k => by simp [hnone], ?_⟩
    simp [drainReorder]
  | succ fuel ih =>
    cases hat : s.channel.relReorder[s.channel.relExpected]? with
    | none =>
      refine ⟨s.channel.relExpected, s.channel.relReorder, le_rfl, hat,
        fun k hk hk' => by omega, fun k => ?_, ?_⟩
      · cases hk : s.channel.relReorder[k]? with
        | none => simp
        | some v => rw [if_pos (hge k v hk).1]
      · simp [drainReorder, hat]
    | some v =>
      obtain rfl := (hge _ v hat).2
      have herase : ∀ k : Nat,
          (s.channel.relReorder.erase s.channel.relExpected)[k]? =
            if s.channel.relExpected = k then none else s.channel.relReorder[k]? := by
        intro k
        rw [Std.ExtTreeMap.getElem?_erase]
        simp only [Nat.compare_eq_eq]
      obtain ⟨e, rest, hle, hnone, hrun, hrest, heq⟩ := ih
        { channel :=
            { s.channel with
              relReorder := s.channel.relReorder.erase s.channel.relExpected
              relExpected := s.channel.relExpected + 1 }
          ready := s.ready ++ [payloads s.channel.relExpected] }
        (by
          intro k v hk
          rw [herase] at hk
          split at hk
          · cases hk
          · have := hge k v hk
            exact ⟨by simp only; omega, this.2⟩)
        (by
          have hmem : s.channel.relReorder.contains s.channel.relExpected = true := by
            rw [Std.ExtTreeMap.contains_eq_isSome_getElem?, hat, Option.isSome_some]
          show (s.channel.relReorder.erase s.channel.relExpected).size ≤ fuel
          rw [Std.ExtTreeMap.size_erase, if_pos hmem]
          omega)
      simp only [herase] at hle hnone hrun hrest heq
      refine ⟨e, rest, by omega, by rwa [if_neg (by omega)] at hnone, ?_, ?_, ?_⟩
      · intro k hk hke
        by_cases hk0 : k = s.channel.relExpected
        · rw [hk0, hat]
        · have := hrun k (by omega) hke
          rwa [if_neg (Ne.symm hk0)] at this
      · intro k
        rw [hrest k]
        by_cases hek : e ≤ k
        · rw [if_pos hek, if_pos hek, if_neg (by omega)]
        · rw [if_neg hek, if_neg hek]
      · rw [drainReorder, hat, range_between (by omega)]
        simp only [heq, List.map_cons, List.append_assoc, List.cons_append,
          List.nil_append]

/-! ## One delivery -/

@[simp] theorem reconstructSeqFor_reliable (ch : ChannelState α) (c : BitVec 8) (o : Bool)
    (m : Nat) : reconstructSeqFor ch (messageRecord c true o m) =
      reconstructSeq (BitVec.ofNat 16 m) ch.relExpected := by
  simp [reconstructSeqFor, messageRecord]

/-- Every entry held back lies above the watermark and is the payload of its
number. -/
def HeldBack (payloads : Nat → α) (ch : ChannelState α) : Prop :=
  ∀ k v, ch.relReorder[k]? = some v → ch.relExpected < k ∧ v = payloads k

section Deliver

variable (s : Receiving α) (c : BitVec 8) (m : Nat) (payload : α)

theorem deliver_unordered :
    deliverMessage s (messageRecord c true false m) payload =
      if reconstructSeq (BitVec.ofNat 16 m) s.channel.relExpected < s.channel.relExpected ∨
          reconstructSeq (BitVec.ofNat 16 m) s.channel.relExpected ∈ s.channel.relDeliveredAhead
      then s
      else
        { channel :=
            advanceAhead
              (insert (reconstructSeq (BitVec.ofNat 16 m) s.channel.relExpected)
                s.channel.relDeliveredAhead).card
              { s.channel with
                relDeliveredAhead :=
                  insert (reconstructSeq (BitVec.ofNat 16 m) s.channel.relExpected)
                    s.channel.relDeliveredAhead }
          ready := s.ready ++ [payload] } := by
  simp [deliverMessage, messageRecord, reconstructSeqFor]

theorem deliver_ordered :
    deliverMessage s (messageRecord c true true m) payload =
      if reconstructSeq (BitVec.ofNat 16 m) s.channel.relExpected < s.channel.relExpected then s
      else if reconstructSeq (BitVec.ofNat 16 m) s.channel.relExpected = s.channel.relExpected then
        drainReorder s.channel.relReorder.size
          { channel := { s.channel with relExpected := s.channel.relExpected + 1 }
            ready := s.ready ++ [payload] }
      else
        { s with
          channel :=
            { s.channel with
              relReorder := s.channel.relReorder.insertIfNew
                (reconstructSeq (BitVec.ofNat 16 m) s.channel.relExpected) payload } } := by
  simp [deliverMessage, messageRecord, reconstructSeqFor]

theorem deliver_unsequenced :
    deliverMessage s (messageRecord c false false m) payload =
      { s with ready := s.ready ++ [payload] } := by
  simp [deliverMessage, messageRecord]

theorem deliver_sequenced :
    deliverMessage s (messageRecord c false true m) payload =
      if s.channel.unrelStarted = false ∨
          s.channel.unrelLast < reconstructSeqFor s.channel (messageRecord c false true m) then
        { channel :=
            { s.channel with
              unrelStarted := true
              unrelLast := reconstructSeqFor s.channel (messageRecord c false true m) }
          ready := s.ready ++ [payload] }
      else s := by
  simp [deliverMessage, messageRecord]

variable {s m}

variable {q : Nat}

/-- An unordered message that is not a duplicate is delivered at once, and the
watermark moves past what has been delivered without a gap. -/
theorem deliver_unordered_new (hq : reconstructSeq (BitVec.ofNat 16 m) s.channel.relExpected = q)
    (hge : s.channel.relExpected ≤ q) (hnew : q ∉ s.channel.relDeliveredAhead)
    (hahead : ∀ k ∈ s.channel.relDeliveredAhead, s.channel.relExpected ≤ k) :
    ∃ e, s.channel.relExpected ≤ e ∧ e ∉ insert q s.channel.relDeliveredAhead ∧
      (∀ k, s.channel.relExpected ≤ k → k < e → k ∈ insert q s.channel.relDeliveredAhead) ∧
      deliverMessage s (messageRecord c true false m) payload =
        { channel :=
            { s.channel with
              relExpected := e
              relDeliveredAhead := (insert q s.channel.relDeliveredAhead).filter (e ≤ ·) }
          ready := s.ready ++ [payload] } := by
  obtain ⟨e, hle, hnot, hrun, heq⟩ := advanceAhead_spec (insert q s.channel.relDeliveredAhead).card
    { s.channel with relDeliveredAhead := insert q s.channel.relDeliveredAhead }
    (by
      intro k hk
      rcases Finset.mem_insert.1 hk with rfl | hk
      · exact hge
      · exact hahead k hk)
    le_rfl
  refine ⟨e, hle, hnot, hrun, ?_⟩
  rw [deliver_unordered, hq, if_neg (by simp [hnew, hge]), heq]

/-- The ordered message the watermark waits for is delivered, and with it the
run held back behind it. -/
theorem deliver_ordered_next {payloads : Nat → α}
    (hq : reconstructSeq (BitVec.ofNat 16 m) s.channel.relExpected = s.channel.relExpected)
    (hp : payload = payloads s.channel.relExpected) (hheld : HeldBack payloads s.channel) :
    ∃ e rest, s.channel.relExpected < e ∧ s.channel.relReorder[e]? = none ∧
      (∀ k, s.channel.relExpected < k → k < e →
        s.channel.relReorder[k]? = some (payloads k)) ∧
      (∀ k : Nat, rest[k]? = if e ≤ k then s.channel.relReorder[k]? else none) ∧
      deliverMessage s (messageRecord c true true m) payload =
        { channel := { s.channel with relExpected := e, relReorder := rest }
          ready := s.ready ++
            (List.range' s.channel.relExpected (e - s.channel.relExpected)).map payloads } := by
  obtain ⟨e, rest, hle, hnone, hrun, hrest, heq⟩ := drainReorder_spec payloads
    s.channel.relReorder.size
    { channel := { s.channel with relExpected := s.channel.relExpected + 1 }
      ready := s.ready ++ [payload] }
    (fun k v hk => hheld k v hk) le_rfl
  simp only at hle hnone hrun hrest heq
  refine ⟨e, rest, by omega, hnone, hrun, hrest, ?_⟩
  rw [deliver_ordered, hq, if_neg (lt_irrefl _), if_pos rfl, heq,
    range_between (show s.channel.relExpected < e by omega), hp]
  simp only [List.map_cons, List.append_assoc, List.cons_append, List.nil_append]

/-- An ordered message ahead of its turn is held back. -/
theorem deliver_ordered_future (hq : reconstructSeq (BitVec.ofNat 16 m) s.channel.relExpected = q)
    (hlt : s.channel.relExpected < q) :
    deliverMessage s (messageRecord c true true m) payload =
      { s with
        channel := { s.channel with
          relReorder := s.channel.relReorder.insertIfNew q payload } } := by
  rw [deliver_ordered, hq, if_neg (by omega), if_neg (by omega)]

/-- A message taken for the one the watermark waits for is delivered in either
mode, unless an earlier one was delivered for the same number. -/
theorem ready_deliver_waited (ordered : Bool)
    (hq : reconstructSeq (BitVec.ofNat 16 m) s.channel.relExpected = s.channel.relExpected)
    (hreorder : s.channel.relReorder = ∅)
    (hahead : s.channel.relExpected ∉ s.channel.relDeliveredAhead) :
    (deliverMessage s (messageRecord c true ordered m) payload).ready = s.ready ++ [payload] := by
  cases ordered with
  | true =>
    rw [deliver_ordered, hq, if_neg (lt_irrefl _), if_pos rfl, hreorder]
    rfl
  | false => rw [deliver_unordered, hq, if_neg (by simp [hahead])]

end Deliver

variable {e : Nat} {payloads : Nat → α} {arrived : Nat → Prop}

/-- An unordered message taken for the one the watermark waits for moves it on
by one, whatever is held back. -/
theorem deliver_unordered_at_watermark (c : BitVec 8) {m : Nat} (payload : α) (ready : List α)
    (reorder : Std.ExtTreeMap Nat α compare) (hq : reconstructSeq (BitVec.ofNat 16 m) e = e) :
    deliverMessage { channel := { relExpected := e, relReorder := reorder }, ready := ready }
        (messageRecord c true false m) payload =
      { channel := { relExpected := e + 1, relReorder := reorder }
        ready := ready ++ [payload] } := by
  rw [deliver_unordered]
  simp [hq, advanceAhead]

/-- A message taken for the one the watermark waits for is delivered, in either
mode, on a channel that holds nothing back. -/
theorem deliver_at_watermark (c : BitVec 8) (ordered : Bool) {m : Nat} (payload : α)
    (ready : List α) (hq : reconstructSeq (BitVec.ofNat 16 m) e = e) :
    deliverMessage { channel := { relExpected := e }, ready := ready }
        (messageRecord c true ordered m) payload =
      { channel := { relExpected := e + 1 }, ready := ready ++ [payload] } := by
  cases ordered with
  | true =>
    rw [deliver_ordered]
    simp [hq, drainReorder]
  | false => exact deliver_unordered_at_watermark c payload ready ∅ hq

/-- Holding back a payload for a number adds it under that number, unless the
number is taken. -/
theorem getElem?_insertIfNew_payload {ch : ChannelState α} (hheld : HeldBack payloads ch) {q : Nat}
    (k : Nat) :
    (ch.relReorder.insertIfNew q (payloads q))[k]? =
      if q = k then some (payloads k) else ch.relReorder[k]? := by
  rw [Std.ExtTreeMap.getElem?_insertIfNew]
  by_cases hqk : q = k
  · subst hqk
    by_cases hmem : q ∈ ch.relReorder
    · obtain ⟨v, hv⟩ := Option.isSome_iff_exists.1
        ((Std.ExtTreeMap.isSome_getElem?_iff_mem).2 hmem)
      rw [if_neg (fun hnew => hnew.2 hmem), hv, (hheld q v hv).2, if_pos rfl]
    · simp [hmem]
  · simp [hqk]

/-! ## A channel of reliable messages -/

/-- The deliveries of the reliable messages numbered `as`, in that order;
`ordered` says which of them are flagged ordered. -/
def deliverAll (c : BitVec 8) (ordered : Nat → Bool) (payloads : Nat → α) (s : Receiving α)
    (as : List Nat) : Receiving α :=
  as.foldl (fun s m => deliverMessage s (messageRecord c true (ordered m) m) (payloads m)) s

@[simp] theorem deliverAll_nil (c : BitVec 8) (ordered : Nat → Bool) (payloads : Nat → α)
    (s : Receiving α) : deliverAll c ordered payloads s [] = s := rfl

@[simp] theorem deliverAll_cons (c : BitVec 8) (ordered : Nat → Bool) (payloads : Nat → α)
    (s : Receiving α) (m : Nat) (as : List Nat) :
    deliverAll c ordered payloads s (m :: as) =
      deliverAll c ordered payloads
        (deliverMessage s (messageRecord c true (ordered m) m) (payloads m)) as := rfl

theorem deliverAll_append (c : BitVec 8) (ordered : Nat → Bool) (payloads : Nat → α)
    (s : Receiving α) (as bs : List Nat) :
    deliverAll c ordered payloads s (as ++ bs) =
      deliverAll c ordered payloads (deliverAll c ordered payloads s as) bs :=
  List.foldl_append

/-- Each arrival lies, when it arrives, from half a period behind the watermark
up to half a period ahead of it. -/
def NearWatermark (c : BitVec 8) (ordered : Nat → Bool) (payloads : Nat → α) :
    Receiving α → List Nat → Prop
  | _, [] => True
  | s, m :: as =>
    s.channel.relExpected ≤ m + 32768 ∧ m < s.channel.relExpected + 32768 ∧
      NearWatermark c ordered payloads
        (deliverMessage s (messageRecord c true (ordered m) m) (payloads m)) as

instance instDecidableNearWatermark (c : BitVec 8) (ordered : Nat → Bool) (payloads : Nat → α) :
    ∀ s as, Decidable (NearWatermark c ordered payloads s as)
  | _, [] => inferInstanceAs (Decidable True)
  | s, m :: as =>
    have := instDecidableNearWatermark c ordered payloads
      (deliverMessage s (messageRecord c true (ordered m) m) (payloads m)) as
    inferInstanceAs (Decidable (_ ∧ _ ∧ _))

theorem NearWatermark.at {c : BitVec 8} {ordered : Nat → Bool} {s : Receiving α} {as bs : List Nat}
    {m : Nat} (h : NearWatermark c ordered payloads s (as ++ m :: bs)) :
    (deliverAll c ordered payloads s as).channel.relExpected ≤ m + 32768 ∧
      m < (deliverAll c ordered payloads s as).channel.relExpected + 32768 := by
  induction as generalizing s with
  | nil => exact ⟨h.1, h.2.1⟩
  | cons a as ih => exact ih h.2.2

/-! ## Ordered messages only -/

/-- The state of an ordered channel on which the messages in `arrived` have
arrived. -/
structure InOrder (payloads : Nat → α) (arrived : Nat → Prop) (s : Receiving α) : Prop where
  ready : s.ready = (List.range s.channel.relExpected).map payloads
  reorder : ∀ (k : Nat) (v : α), s.channel.relReorder[k]? = some v ↔
    arrived k ∧ s.channel.relExpected < k ∧ v = payloads k

theorem InOrder.heldBack {s : Receiving α} (h : InOrder payloads arrived s) :
    HeldBack payloads s.channel :=
  fun k v hk => ((h.reorder k v).1 hk).2

theorem inOrder_init (payloads : Nat → α) : InOrder payloads (fun _ => False) {} :=
  ⟨rfl, fun k v => by simp⟩

/-- One arrival near the watermark. -/
theorem InOrder.deliver {s : Receiving α} (h : InOrder payloads arrived s) (c : BitVec 8) {m : Nat}
    (hlo : s.channel.relExpected ≤ m + 32768) (hhi : m < s.channel.relExpected + 32768) :
    InOrder payloads (fun k => k = m ∨ arrived k)
      (deliverMessage s (messageRecord c true true m) (payloads m)) := by
  have hq := reconstructSeq_of_window hlo hhi
  rcases lt_trichotomy m s.channel.relExpected with hlt | heq | hgt
  · -- a duplicate changes nothing
    rw [deliver_ordered, hq, if_pos hlt]
    refine ⟨h.ready, fun k v => ?_⟩
    rw [h.reorder k v]
    constructor
    · rintro ⟨hk, hrest⟩
      exact ⟨.inr hk, hrest⟩
    · rintro ⟨rfl | hk, hrest⟩
      · omega
      · exact ⟨hk, hrest⟩
  · obtain ⟨e, rest, hlt, hnone, hrun, hrest, hdel⟩ :=
      deliver_ordered_next c (payloads m) (hq.trans heq) (congrArg payloads heq) h.heldBack
    rw [hdel]
    refine ⟨?_, fun k v => ?_⟩
    · simp only [h.ready]
      rw [← List.map_append, List.range_eq_range', List.range_eq_range',
        show e = s.channel.relExpected + (e - s.channel.relExpected) by omega,
        ← List.range'_append_1]
      simp
    · simp only
      rw [hrest k]
      by_cases hek : e ≤ k
      · rw [if_pos hek, h.reorder k v]
        constructor
        · rintro ⟨hk, hlt', hv⟩
          have hne : k ≠ e := by
            rintro rfl
            rw [(h.reorder k v).2 ⟨hk, hlt', hv⟩] at hnone
            cases hnone
          exact ⟨.inr hk, by omega, hv⟩
        · rintro ⟨rfl | hk, hlt', hv⟩
          · omega
          · exact ⟨hk, by omega, hv⟩
      · rw [if_neg hek]
        constructor
        · intro hcontra
          cases hcontra
        · rintro ⟨-, hlt', -⟩
          omega
  · rw [deliver_ordered_future c _ hq hgt]
    refine ⟨h.ready, fun k v => ?_⟩
    simp only
    rw [getElem?_insertIfNew_payload h.heldBack]
    by_cases hmk : m = k
    · subst hmk
      simp [hgt, eq_comm]
    · rw [if_neg hmk, h.reorder k v]
      simp [Ne.symm hmk]

theorem InOrder.congr {arrived' : Nat → Prop} {s : Receiving α} (h : InOrder payloads arrived s)
    (hs : ∀ k, arrived k ↔ arrived' k) :
    InOrder payloads arrived' s := by
  obtain rfl : arrived = arrived' := funext fun k => propext (hs k)
  exact h

/-- Every run of arrivals near the watermark. -/
theorem InOrder.deliverAll (c : BitVec 8) (as : List Nat) {s : Receiving α}
    (h : InOrder payloads arrived s) (hnear : NearWatermark c (fun _ => true) payloads s as) :
    InOrder payloads (fun k => k ∈ as ∨ arrived k)
      (deliverAll c (fun _ => true) payloads s as) := by
  induction as generalizing arrived s with
  | nil => simpa using h
  | cons m as ih =>
    obtain ⟨hlo, hhi, hnear⟩ := hnear
    refine (ih (h.deliver c hlo hhi) hnear).congr fun k => ?_
    rw [List.mem_cons, or_assoc, or_left_comm]

/-- **Ordered delivery is exact.**  On a channel of reliable ordered messages
numbered from zero, whatever order they arrive in and however often, as long as
each arrives within half a period of the watermark: every number is recovered
from its 16 bits, the messages delivered are those below the watermark, in order
and once, and the messages held back are those that arrived above it. -/
theorem ordered_delivery_exact (c : BitVec 8) (payloads : Nat → α) (as : List Nat)
    (hnear : NearWatermark c (fun _ => true) payloads {} as) :
    (∀ before m after, as = before ++ m :: after →
      reconstructSeqFor (deliverAll c (fun _ => true) payloads {} before).channel
        (messageRecord c true true m) = m) ∧
    (deliverAll c (fun _ => true) payloads {} as).ready =
      (List.range (deliverAll c (fun _ => true) payloads {} as).channel.relExpected).map payloads ∧
    ∀ k v, (deliverAll c (fun _ => true) payloads {} as).channel.relReorder[k]? = some v ↔
      k ∈ as ∧ (deliverAll c (fun _ => true) payloads {} as).channel.relExpected < k ∧
        v = payloads k := by
  have hrun : InOrder payloads (· ∈ as) (deliverAll c (fun _ => true) payloads {} as) :=
    ((inOrder_init payloads).deliverAll c as hnear).congr fun k => by simp
  refine ⟨?_, hrun.ready, hrun.reorder⟩
  rintro before m after rfl
  obtain ⟨hlo, hhi⟩ := hnear.at
  rw [reconstructSeqFor_reliable, reconstructSeq_of_window hlo hhi]

/-- Messages 1 and 3 early, then 0, then 1 again. -/
theorem ordered_delivery_exact_reordered :
    NearWatermark 0 (fun _ => true) (fun m => m) {} [1, 3, 0, 1] ∧
      (deliverAll 0 (fun _ => true) (fun m => m) {} [1, 3, 0, 1]).ready = [0, 1] ∧
      (deliverAll 0 (fun _ => true) (fun m => m) {} [1, 3, 0, 1]).channel.relReorder[3]? =
        some 3 :=
  ⟨by decide,
    (ordered_delivery_exact 0 (fun m => m) [1, 3, 0, 1] (by decide)).2.1.trans (by decide),
    ((ordered_delivery_exact 0 (fun m => m) [1, 3, 0, 1] (by decide)).2.2 3 3).2 (by decide)⟩

end Zdt
end Znet

import Znet.Zdt.Channel

/-!
# One channel, both reliable modes

Reliable messages of one channel share one sequence space whatever their
ordering flag, and the receiver keeps one watermark for both modes: the ordered
path moves it on by consulting only `rel_reorder`, the unordered path by
consulting only `rel_delivered_ahead`.  This module settles for which lists of
messages that is enough for every message to be delivered exactly once.

* `mixed_delivery_iff` — **a list is safe exactly when every arrival order
  delivers it exactly once.**  Each way of not being safe comes with an arrival
  order that loses a message (`deliver_overtaken`) or delivers one twice
  (`deliver_late_duplicate`, `deliver_period_duplicate`).
-/

namespace Znet
namespace Zdt

variable {α : Type}

/-! ## The statement -/

/-- Arrivals of the messages `0, …, n - 1`, each at least once. -/
def Covers (n : Nat) (as : List Nat) : Prop :=
  (∀ m ∈ as, m < n) ∧ ∀ m < n, m ∈ as

/-- The delivered queue holds the payload of each of the `n` messages once, and
those of the ordered messages in ascending order. -/
def ExactlyOnce (n : Nat) (ordered : Nat → Bool) (payloads : Nat → α) (ready : List α) : Prop :=
  ∃ order : List Nat, ready = order.map payloads ∧ order.Perm (List.range n) ∧
    (order.filter ordered).Pairwise (· < ·)

variable {ordered : Nat → Bool} {as : List Nat} {i : Nat}

theorem ExactlyOnce.length {n : Nat} {payloads : Nat → α} {ready : List α}
    (h : ExactlyOnce n ordered payloads ready) : ready.length = n := by
  obtain ⟨order, rfl, hperm, -⟩ := h
  rw [List.length_map, hperm.length_eq, List.length_range]

/-- The lists of messages a shared watermark serves. -/
structure SafeModes (n : Nat) (ordered : Nat → Bool) : Prop where
  period : n < 65536
  noSwitch : ∀ i, i + 1 < n → ordered (i + 1) = true → ordered i = true
  nearEnd : ∀ u < n, ordered u = false → n ≤ u + 32768

/-- In a safe list the ordered messages come first. -/
theorem SafeModes.exists_split {n : Nat}
    (h : ∀ i, i + 1 < n → ordered (i + 1) = true → ordered i = true) :
    ∃ a ≤ n, ∀ i < n, ordered i = true ↔ i < a := by
  induction n with
  | zero => exact ⟨0, le_rfl, fun i hi => by omega⟩
  | succ n ih =>
    obtain ⟨a, ha, hsplit⟩ := ih fun i hi => h i (by omega)
    cases hn : ordered n with
    | false =>
      refine ⟨a, by omega, fun i hi => ?_⟩
      rcases Nat.lt_succ_iff_lt_or_eq.1 hi with hi | rfl
      · exact hsplit i hi
      · simp [hn]; omega
    | true =>
      -- the message before an ordered one is ordered, down to the first
      have hdown : a = n := by
        rcases Nat.eq_zero_or_pos n with rfl | hpos
        · omega
        · have hlast := h (n - 1) (by omega) (by rwa [Nat.sub_add_cancel hpos])
          have := (hsplit (n - 1) (by omega)).1 hlast
          omega
      refine ⟨n + 1, le_rfl, fun i hi => ?_⟩
      rcases Nat.lt_succ_iff_lt_or_eq.1 hi with hi | rfl
      · simp [(hsplit i hi).2 (by omega), hi.trans (Nat.lt_succ_self n)]
      · simp [hn]

/-! ## Numbers of the first period -/

/-- In the first period a number is recovered unless it is more than half a
period late; then it is taken for the one a period later. -/
theorem reconstructSeq_first_period {m expected : Nat} (hm : m < 65536)
    (he : expected < 65536) :
    reconstructSeq (BitVec.ofNat 16 m) expected =
      if expected ≤ m + 32768 then m else m + 65536 := by
  unfold reconstructSeq kPeriod
  rw [BitVec.toNat_ofNat]
  dsimp only
  by_cases h : expected ≤ m + 32768
  · rw [if_pos h, if_neg (by omega), if_neg (by omega)]
    omega
  · rw [if_neg h, if_pos (by omega)]
    omega

/-! ## What holds while a safe list arrives -/

/-- The channel while the messages `0, …, n - 1` arrive, the first `a` of them
ordered: `order` lists the messages delivered so far.  A duplicate of an old
ordered message may be held back under a number of the next period, which the
watermark never reaches. -/
structure Mixed (n a : Nat) (payloads : Nat → α) (arrived : Nat → Prop) (s : Receiving α)
    (order : List Nat) : Prop where
  ready : s.ready = order.map payloads
  expected_le : s.channel.relExpected ≤ n
  heldBack : HeldBack (fun k => payloads (k % 65536)) s.channel
  held_lt : ∀ k v, s.channel.relReorder[k]? = some v → k < 65536 → k < a
  ahead : ∀ k ∈ s.channel.relDeliveredAhead, a ≤ k ∧ s.channel.relExpected ≤ k ∧ k < n
  nodup : order.Nodup
  mem_ordered : ∀ i < a, i ∈ order ↔ i < s.channel.relExpected
  mem_unordered : ∀ i, a ≤ i →
    (i ∈ order ↔ i < s.channel.relExpected ∨ i ∈ s.channel.relDeliveredAhead)
  sorted : (order.filter (· < a)).Pairwise (· < ·)
  arrived_ordered : ∀ i < a, arrived i →
    i < s.channel.relExpected ∨ (s.channel.relReorder[i]?).isSome = true
  arrived_unordered : ∀ i, a ≤ i → arrived i → i ∈ order

theorem mixed_init (n a : Nat) (payloads : Nat → α) :
    Mixed n a payloads (fun _ => False) {} [] := by
  constructor <;> simp [HeldBack]

section Step

variable {n a : Nat} {payloads : Nat → α} {arrived : Nat → Prop} {s : Receiving α}
  {order : List Nat}

variable {m : Nat}

variable (h : Mixed n a payloads arrived s order)
include h

/-- A message that changes nothing because it is already accounted for. -/
theorem Mixed.skip (hord : m < a → m < s.channel.relExpected) (hun : a ≤ m → m ∈ order) :
    Mixed n a payloads (fun k => k = m ∨ arrived k) s order :=
  { h with
    arrived_ordered := by
      rintro i hi (rfl | harr)
      · exact .inl (hord hi)
      · exact h.arrived_ordered i hi harr
    arrived_unordered := by
      rintro i hi (rfl | harr)
      · exact hun hi
      · exact h.arrived_unordered i hi harr }

/-- An ordered message that is held back under the number `q`, its own or, for a
very late duplicate, one of the next period. -/
theorem Mixed.hold {q : Nat} (hm : m < a) (hlt : s.channel.relExpected < q) (hmod : q % 65536 = m)
    (hq : q = m ∨ 65536 ≤ q ∧ m < s.channel.relExpected) :
    Mixed n a payloads (fun k => k = m ∨ arrived k)
      { s with
        channel := { s.channel with
          relReorder := s.channel.relReorder.insertIfNew q (payloads m) } } order := by
  have hget : ∀ k : Nat, (s.channel.relReorder.insertIfNew q (payloads m))[k]? =
      if q = k then some (payloads (k % 65536)) else s.channel.relReorder[k]? := by
    intro k
    rw [← hmod]
    exact getElem?_insertIfNew_payload h.heldBack k
  refine { h with heldBack := ?_, held_lt := ?_, arrived_ordered := ?_, arrived_unordered := ?_ }
  · intro k v hk
    rw [hget] at hk
    split at hk
    · next hqk => exact ⟨hqk ▸ hlt, (Option.some.inj hk).symm⟩
    · exact h.heldBack k v hk
  · intro k v hk hsmall
    rw [hget] at hk
    split at hk
    · omega
    · exact h.held_lt k v hk hsmall
  · intro i hi harr
    simp only
    rw [hget]
    by_cases hqi : q = i
    · exact .inr (by simp [hqi])
    · rw [if_neg hqi]
      rcases harr with rfl | harr
      · exact .inl (by omega)
      · exact h.arrived_ordered i hi harr
  · rintro i hi (rfl | harr)
    · omega
    · exact h.arrived_unordered i hi harr

/-- The ordered message the watermark waits for, with the run behind it. -/
theorem Mixed.deliver_next (hn : n < 65536) (han : a ≤ n)
    (c : BitVec 8) (hm : m < a) (heq : m = s.channel.relExpected) :
    ∃ order', Mixed n a payloads (fun k => k = m ∨ arrived k)
      (deliverMessage s (messageRecord c true true m) (payloads m)) order' := by
  obtain ⟨e, rest, hlt, hnone, hrun, hrest, hdel⟩ :=
    deliver_ordered_next (m := m) c (payloads m)
      (by rw [heq, reconstructSeq_of_window (by omega) (by omega)])
      (by rw [← heq, Nat.mod_eq_of_lt (by omega)]) h.heldBack
  -- the run consists of ordered messages, so it ends inside them
  have hea : e ≤ a := by
    by_contra hcon
    have := h.held_lt a _ (hrun a (by omega) (by omega)) (by omega)
    omega
  have hpay : (List.range' s.channel.relExpected (e - s.channel.relExpected)).map
      (fun k => payloads (k % 65536)) =
      (List.range' s.channel.relExpected (e - s.channel.relExpected)).map payloads := by
    refine List.map_congr_left fun k hk => ?_
    rw [List.mem_range'_1] at hk
    rw [Nat.mod_eq_of_lt (by omega)]
  refine ⟨order ++ List.range' s.channel.relExpected (e - s.channel.relExpected), ?_⟩
  rw [hdel]
  constructor
  · rw [h.ready, hpay, List.map_append]
  · exact hea.trans han
  · intro k v hk
    rw [hrest] at hk
    split at hk
    · have hne : k ≠ e := by
        rintro rfl
        rw [hk] at hnone
        cases hnone
      have := h.heldBack k v hk
      exact ⟨by simp only; omega, this.2⟩
    · cases hk
  · intro k v hk hsmall
    rw [hrest] at hk
    split at hk
    · exact h.held_lt k v hk hsmall
    · cases hk
  · intro k hk
    have := h.ahead k hk
    exact ⟨this.1, by simp only; omega, this.2.2⟩
  · refine List.nodup_append.2 ⟨h.nodup, List.nodup_range', fun i hi j hj => ?_⟩
    rw [List.mem_range'_1] at hj
    rintro rfl
    have := (h.mem_ordered i (by omega)).1 hi
    omega
  · intro i hi
    rw [List.mem_append, h.mem_ordered i hi, List.mem_range'_1]
    simp only
    omega
  · intro i hi
    rw [List.mem_append, h.mem_unordered i hi, List.mem_range'_1]
    simp only
    constructor
    · rintro ((hlow | hah) | hrange)
      · omega
      · exact .inr hah
      · omega
    · rintro (hlow | hah)
      · omega
      · exact .inl (.inr hah)
  · rw [List.filter_append, List.pairwise_append]
    refine ⟨h.sorted, List.Pairwise.filter _ List.pairwise_lt_range', fun i hi j hj => ?_⟩
    obtain ⟨hi, hia⟩ := List.mem_filter.1 hi
    have hj := (List.mem_filter.1 hj).1
    rw [List.mem_range'_1] at hj
    have := (h.mem_ordered i (by simpa using hia)).1 hi
    omega
  · rintro i hi harr
    simp only
    rw [hrest]
    by_cases hei : e ≤ i
    · rw [if_pos hei]
      rcases harr with rfl | harr
      · omega
      · rcases h.arrived_ordered i hi harr with hlow | hheld
        · omega
        · exact .inr hheld
    · exact .inl (by omega)
  · rintro i hi (rfl | harr)
    · omega
    · exact List.mem_append_left _ (h.arrived_unordered i hi harr)

/-- One arrival of an ordered message. -/
theorem Mixed.deliver_ordered (hn : n < 65536) (han : a ≤ n) (c : BitVec 8) (hm : m < a) :
    ∃ order', Mixed n a payloads (fun k => k = m ∨ arrived k)
      (deliverMessage s (messageRecord c true true m) (payloads m)) order' := by
  have hle := h.expected_le
  have hrec := @reconstructSeq_first_period m s.channel.relExpected (by omega) (by omega)
  by_cases hlate : s.channel.relExpected ≤ m + 32768
  · rw [if_pos hlate] at hrec
    rcases lt_trichotomy m s.channel.relExpected with hlt | heq | hgt
    · refine ⟨order, ?_⟩
      rw [Zdt.deliver_ordered, hrec, if_pos hlt]
      exact h.skip (fun _ => hlt) (fun hun => by omega)
    · exact h.deliver_next hn han c hm heq
    · refine ⟨order, ?_⟩
      rw [deliver_ordered_future c _ hrec hgt]
      exact h.hold hm hgt (Nat.mod_eq_of_lt (by omega)) (.inl rfl)
  · rw [if_neg hlate] at hrec
    refine ⟨order, ?_⟩
    rw [deliver_ordered_future c _ hrec (by omega)]
    exact h.hold hm (by omega) (by omega) (.inr ⟨by omega, by omega⟩)

/-- One arrival of an unordered message. -/
theorem Mixed.deliver_unordered (hn : n < 65536)
    (c : BitVec 8) (hm : a ≤ m) (hmn : m < n) (hnear : n ≤ m + 32768) :
    ∃ order', Mixed n a payloads (fun k => k = m ∨ arrived k)
      (deliverMessage s (messageRecord c true false m) (payloads m)) order' := by
  have hle := h.expected_le
  have hrec : reconstructSeq (BitVec.ofNat 16 m) s.channel.relExpected = m := by
    rw [reconstructSeq_first_period (by omega) (by omega), if_pos (by omega)]
  by_cases hdup : m < s.channel.relExpected ∨ m ∈ s.channel.relDeliveredAhead
  · refine ⟨order, ?_⟩
    rw [Zdt.deliver_unordered, hrec, if_pos hdup]
    exact h.skip (fun hord => by omega) (fun _ => (h.mem_unordered m hm).2 hdup)
  obtain ⟨hge, hnew⟩ := not_or.1 hdup
  obtain ⟨e, hee, hstop, hrun, hdel⟩ := deliver_unordered_new c (payloads m) hrec
    (by omega) hnew fun k hk => (h.ahead k hk).2.1
  have hin : ∀ k ∈ insert m s.channel.relDeliveredAhead, a ≤ k ∧ k < n := by
    intro k hk
    rcases Finset.mem_insert.1 hk with rfl | hk
    · exact ⟨hm, hmn⟩
    · exact ⟨(h.ahead k hk).1, (h.ahead k hk).2.2⟩
  -- the watermark only moves when it has passed the ordered messages
  have hmove : e = s.channel.relExpected ∨ a ≤ s.channel.relExpected ∧ e ≤ n := by
    rcases Nat.eq_or_lt_of_le hee with heq | hlt
    · exact .inl heq.symm
    · have hlast := hin (e - 1) (hrun _ (by omega) (by omega))
      exact .inr ⟨(hin _ (hrun _ le_rfl hlt)).1, by omega⟩
  refine ⟨order ++ [m], ?_⟩
  rw [hdel]
  constructor
  · rw [h.ready, List.map_append, List.map_cons, List.map_nil]
  · simp only
    omega
  · intro k v hk
    have hheld := h.heldBack k v hk
    have hsmall := h.held_lt k v hk
    exact ⟨by simp only; omega, hheld.2⟩
  · exact h.held_lt
  · intro k hk
    obtain ⟨hk, hek⟩ := Finset.mem_filter.1 hk
    exact ⟨(hin k hk).1, hek, (hin k hk).2⟩
  · refine List.nodup_append.2 ⟨h.nodup, List.nodup_singleton m, fun i hi j hj => ?_⟩
    rintro rfl
    obtain rfl := List.mem_singleton.1 hj
    exact hdup ((h.mem_unordered i hm).1 hi)
  · intro i hi
    rw [List.mem_append, h.mem_ordered i hi, List.mem_singleton]
    simp only
    omega
  · intro i hi
    rw [List.mem_append, h.mem_unordered i hi, List.mem_singleton]
    simp only [Finset.mem_filter, Finset.mem_insert]
    constructor
    · rintro ((hlow | hah) | rfl)
      · exact .inl (by omega)
      · rcases Nat.lt_or_ge i e with hie | hie
        · exact .inl hie
        · exact .inr ⟨.inr hah, hie⟩
      · rcases Nat.lt_or_ge i e with hie | hie
        · exact .inl hie
        · exact .inr ⟨.inl rfl, hie⟩
    · rintro (hie | ⟨rfl | hah, -⟩)
      · rcases Nat.lt_or_ge i s.channel.relExpected with hlow | hlow
        · exact .inl (.inl hlow)
        · rcases Finset.mem_insert.1 (hrun i hlow hie) with rfl | hah
          · exact .inr rfl
          · exact .inl (.inr hah)
      · exact .inr rfl
      · exact .inl (.inr hah)
  · rw [List.filter_append, List.filter_cons_of_neg (by simpa using hm), List.filter_nil,
      List.append_nil]
    exact h.sorted
  · rintro i hi (rfl | harr)
    · omega
    · rcases h.arrived_ordered i hi harr with hlow | hheld
      · exact .inl (by simp only; omega)
      · exact .inr hheld
  · rintro i hi (rfl | harr)
    · exact List.mem_append_right _ (List.mem_singleton_self i)
    · exact List.mem_append_left _ (h.arrived_unordered i hi harr)

end Step

/-- Any run of arrivals of a safe list. -/
theorem Mixed.deliverAll {n a : Nat} {payloads : Nat → α} (hn : n < 65536) (han : a ≤ n)
    (hsplit : ∀ i < n, ordered i = true ↔ i < a)
    (hnear : ∀ u < n, ordered u = false → n ≤ u + 32768) (c : BitVec 8) (as : List Nat)
    (has : ∀ m ∈ as, m < n) {arrived : Nat → Prop} {s : Receiving α} {order : List Nat}
    (h : Mixed n a payloads arrived s order) :
    ∃ order' arrived', (∀ k, k ∈ as ∨ arrived k → arrived' k) ∧
      Mixed n a payloads arrived' (deliverAll c ordered payloads s as) order' := by
  induction as generalizing arrived s order with
  | nil => exact ⟨order, arrived, by simp, h⟩
  | cons m as ih =>
    have hm := has m List.mem_cons_self
    have hstep : ∃ order', Mixed n a payloads (fun k => k = m ∨ arrived k)
        (deliverMessage s (messageRecord c true (ordered m) m) (payloads m)) order' := by
      cases hord : ordered m with
      | true => exact h.deliver_ordered hn han c ((hsplit m hm).1 hord)
      | false =>
        have hge : a ≤ m := by
          by_contra hcon
          rw [(hsplit m hm).2 (by omega)] at hord
          cases hord
        exact h.deliver_unordered hn c hge hm (hnear m hm hord)
    obtain ⟨order₁, h₁⟩ := hstep
    obtain ⟨order', arrived', harr, h'⟩ :=
      ih (fun k hk => has k (List.mem_cons_of_mem m hk)) h₁
    refine ⟨order', arrived', fun k hk => harr k ?_, h'⟩
    rcases hk with hk | hk
    · rcases List.mem_cons.1 hk with rfl | hk
      · exact .inr (.inl rfl)
      · exact .inl hk
    · exact .inr (.inr hk)

/-- A safe list is delivered exactly once, whatever the arrivals. -/
theorem SafeModes.exactlyOnce {n : Nat} (h : SafeModes n ordered) (c : BitVec 8)
    (payloads : Nat → α) (hcov : Covers n as) :
    ExactlyOnce n ordered payloads (deliverAll c ordered payloads {} as).ready := by
  obtain ⟨a, han, hsplit⟩ := SafeModes.exists_split h.noSwitch
  obtain ⟨order, arrived, harr, hmix⟩ := (mixed_init n a payloads).deliverAll h.period han hsplit
    h.nearEnd c as hcov.1
  have hall : ∀ i < n, arrived i := fun i hi => harr i (.inl (hcov.2 i hi))
  -- an ordered message still waited for has arrived, but is not held back
  have hpast : a ≤ (deliverAll c ordered payloads {} as).channel.relExpected := by
    by_contra hcon
    rcases hmix.arrived_ordered _ (Nat.lt_of_not_le hcon) (hall _ (by omega)) with hlt | hheld
    · exact lt_irrefl _ hlt
    · obtain ⟨v, hv⟩ := Option.isSome_iff_exists.1 hheld
      exact lt_irrefl _ (hmix.heldBack _ v hv).1
  have hmem : ∀ i, i ∈ order ↔ i ∈ List.range n := by
    intro i
    rw [List.mem_range]
    constructor
    · intro hi
      rcases Nat.lt_or_ge i a with hia | hia
      · omega
      · rcases (hmix.mem_unordered i hia).1 hi with hlt | hah
        · have := hmix.expected_le
          omega
        · exact (hmix.ahead i hah).2.2
    · intro hi
      rcases Nat.lt_or_ge i a with hia | hia
      · exact (hmix.mem_ordered i hia).2 (by omega)
      · exact hmix.arrived_unordered i hia (hall i hi)
  refine ⟨order, hmix.ready, (List.perm_ext_iff_of_nodup hmix.nodup List.nodup_range).2 hmem, ?_⟩
  have hfilter : order.filter ordered = order.filter (· < a) := by
    refine List.filter_congr fun i hi => ?_
    have := hsplit i (List.mem_range.1 ((hmem i).1 hi))
    rw [Bool.eq_iff_iff, this, decide_eq_true_eq]
  rw [hfilter]
  exact hmix.sorted

/-! ## Arrival orders that fail -/

variable (c : BitVec 8) (ordered : Nat → Bool) (payloads : Nat → α)

/-- Messages that arrive in order are delivered as they come. -/
theorem deliver_in_order (n : Nat) : deliverAll c ordered payloads {} (List.range n) =
      { channel := { relExpected := n }, ready := (List.range n).map payloads } := by
  induction n with
  | zero => rfl
  | succ n ih =>
    rw [List.range_succ, deliverAll_append, ih, deliverAll_cons, deliverAll_nil,
      deliver_at_watermark c _ _ _ (reconstructSeq_of_window (by omega) (by omega)),
      List.map_append, List.map_cons, List.map_nil]

theorem covers_range_append {n : Nat} (h : ∀ m ∈ as, m < n) :
    Covers n (List.range n ++ as) := by
  constructor
  · intro m hm
    rcases List.mem_append.1 hm with hm | hm
    · exact List.mem_range.1 hm
    · exact h m hm
  · intro m hm
    exact List.mem_append_left _ (List.mem_range.2 hm)

/-- With a period of messages or more, a duplicate of the one a period before
the watermark is delivered again. -/
theorem deliver_period_duplicate {n : Nat} (hn : 65536 ≤ n) :
    (deliverAll c ordered payloads {} (List.range n ++ [n - 65536])).ready.length = n + 1 := by
  have hq : reconstructSeq (BitVec.ofNat 16 (n - 65536)) n = n := by
    rw [← ofNat_add_period, Nat.sub_add_cancel hn]
    exact reconstructSeq_of_window (by omega) (by omega)
  rw [deliverAll_append, deliver_in_order, deliverAll_cons, deliverAll_nil,
    deliver_at_watermark c _ _ _ hq]
  simp

/-- A duplicate of an unordered message more than half a period late is
delivered again. -/
theorem deliver_late_duplicate
    {n u : Nat} (hn : n < 65536) (hu : ordered u = false) (hlate : u + 32768 < n) :
    (deliverAll c ordered payloads {} (List.range n ++ [u])).ready.length = n + 1 := by
  have hq : reconstructSeq (BitVec.ofNat 16 u) n = u + 65536 := by
    rw [reconstructSeq_first_period (by omega) hn, if_neg (by omega)]
  rw [deliverAll_append, deliver_in_order, deliverAll_cons, deliverAll_nil, hu, deliver_unordered]
  simp only [hq]
  rw [if_neg (by simp; omega)]
  simp

/-- While the watermark waits for a message that does not come, every other
message is delivered at most once and leaves it where it is. -/
theorem deliver_stuck {e : Nat}
    (as : List Nat) (has : ∀ m ∈ as, e < m ∧ m < 65536) {s : Receiving α}
    (hexp : s.channel.relExpected = e) (hahead : e ∉ s.channel.relDeliveredAhead) :
    (deliverAll c ordered payloads s as).ready.length ≤ s.ready.length + as.length := by
  induction as generalizing s with
  | nil => simp
  | cons m as ih =>
    obtain ⟨hem, hm⟩ := has m List.mem_cons_self
    have hrest := fun k hk => has k (List.mem_cons_of_mem m hk)
    have hq : reconstructSeq (BitVec.ofNat 16 m) s.channel.relExpected = m := by
      rw [hexp, reconstructSeq_first_period hm (by omega), if_pos (by omega)]
    rw [deliverAll_cons, List.length_cons]
    cases ordered m with
    | true =>
      rw [deliver_ordered_future c _ hq (by omega)]
      refine le_trans (ih hrest hexp hahead) ?_
      show s.ready.length + as.length ≤ _
      omega
    | false =>
      rw [deliver_unordered, hq]
      by_cases hdup : m < s.channel.relExpected ∨ m ∈ s.channel.relDeliveredAhead
      · rw [if_pos hdup]
        exact (ih hrest hexp hahead).trans (by omega)
      · rw [if_neg hdup]
        have hstay : ∀ fuel, advanceAhead fuel
            { s.channel with
              relDeliveredAhead := insert m s.channel.relDeliveredAhead } =
            { s.channel with
              relDeliveredAhead := insert m s.channel.relDeliveredAhead } := by
          intro fuel
          cases fuel with
          | zero => rfl
          | succ fuel =>
            rw [advanceAhead, if_neg]
            simp only [hexp, Finset.mem_insert]
            rintro (rfl | hin)
            · exact lt_irrefl _ hem
            · exact hahead hin
        rw [hstay]
        refine le_trans (ih hrest hexp ?_) ?_
        · simp only [Finset.mem_insert]
          rintro (rfl | hin)
          · exact lt_irrefl _ hem
          · exact hahead hin
        · show (s.ready ++ [payloads m]).length + as.length ≤ _
          rw [List.length_append, List.length_singleton]
          omega

/-- The arrivals in order, but for message `i`, which its successor overtakes. -/
def overtaken (n i : Nat) : List Nat :=
  List.range i ++ (i + 1) :: i :: List.range' (i + 2) (n - (i + 2))

theorem covers_overtaken {n : Nat} (hi : i + 1 < n) : Covers n (overtaken n i) := by
  constructor
  · intro m hm
    simp only [overtaken, List.mem_append, List.mem_range, List.mem_cons, List.mem_range'_1] at hm
    omega
  · intro m hm
    simp only [overtaken, List.mem_append, List.mem_range, List.mem_cons, List.mem_range'_1]
    omega

/-- An ordered message that overtakes the unordered one before it is held back,
and the unordered path moves the watermark onto it without delivering it. -/
theorem deliver_overtaken {n : Nat}
    (hn : n < 65536) (hi : i + 1 < n) (hun : ordered i = false) (hord : ordered (i + 1) = true) :
    (deliverAll c ordered payloads {} (overtaken n i)).ready.length < n := by
  have hq : reconstructSeq (BitVec.ofNat 16 (i + 1)) i = i + 1 :=
    reconstructSeq_of_window (by omega) (by omega)
  have hq' : reconstructSeq (BitVec.ofNat 16 i) i = i :=
    reconstructSeq_of_window (by omega) (by omega)
  have hstuck := deliver_stuck c ordered payloads (e := i + 1)
    (List.range' (i + 2) (n - (i + 2)))
    (fun m hm => by rw [List.mem_range'_1] at hm; omega)
    (s :=
      { channel :=
          { relExpected := i + 1
            relReorder := (∅ : Std.ExtTreeMap Nat α compare).insertIfNew (i + 1)
              (payloads (i + 1)) }
        ready := (List.range i).map payloads ++ [payloads i] }) rfl (by simp)
  rw [overtaken, deliverAll_append, deliver_in_order, deliverAll_cons, deliverAll_cons, hord, hun,
    deliver_ordered_future c _ hq (by simp only; omega),
    deliver_unordered_at_watermark c _ _ _ hq']
  refine lt_of_le_of_lt hstuck ?_
  simp
  omega

/-- **Which lists a shared watermark serves.**  Every arrival order delivers the
messages exactly once, the ordered ones in order, precisely when the list is
safe. -/
theorem mixed_delivery_iff (c : BitVec 8) (payloads : Nat → α) (n : Nat) (ordered : Nat → Bool) :
    (∀ as, Covers n as →
      ExactlyOnce n ordered payloads (deliverAll c ordered payloads {} as).ready) ↔
      SafeModes n ordered := by
  constructor
  · intro hall
    have hn : n < 65536 := by
      by_contra hcon
      have hlen := (hall (List.range n ++ [n - 65536])
        (covers_range_append (by simp; omega))).length
      rw [deliver_period_duplicate c ordered payloads (by omega)] at hlen
      omega
    refine ⟨hn, fun i hi hord => ?_, fun u hu hun => ?_⟩
    · by_contra hun
      have hlen := (hall _ (covers_overtaken hi)).length
      have := deliver_overtaken c ordered payloads hn hi (by simpa using hun) hord
      omega
    · by_contra hcon
      have hlen := (hall (List.range n ++ [u])
        (covers_range_append (by simpa using hu))).length
      rw [deliver_late_duplicate c ordered payloads hn hun (by omega)] at hlen
      omega
  · intro hsafe as hcov
    exact hsafe.exactlyOnce c payloads hcov

/-- An unordered message, then an ordered one that overtakes it: the second is
never delivered. -/
theorem mixed_delivery_loses :
    Covers 2 [1, 0] ∧
      ¬ ExactlyOnce 2 (fun m => m == 1) (fun m => m)
        (deliverAll 0 (fun m => m == 1) (fun m => m) {} [1, 0]).ready := by
  refine ⟨by unfold Covers; decide, fun h => ?_⟩
  have hlen := h.length
  revert hlen
  decide

end Zdt
end Znet

import Znet.Zdt.Link

/-!
# Sequenced messages

Unreliable ordered messages are *sequenced*: one is delivered when it is newer than the last
that was, and dropped as old otherwise.  They share the numbers of their channel with the
unreliable unordered messages, which the receiver does not count; the number it rebuilds a
record next to (`nextUnreliable`) is that of the last sequenced message it delivered.

* `sequenced_delivery` — **in every run whose ordered messages arrive in reach** they are
  delivered in the order they were sent, and none is dropped that is not old.
-/

namespace Znet
namespace Zdt

/-! ## The system -/

variable {α : Type}

/-- The unreliable messages of a channel. -/
structure Stream (α : Type) where
  /-- The sender's `unrel_send`: how many messages were sent. -/
  unrelSend : Nat := 0
  receiver : Receiving α := {}
  /-- History: the numbers of the messages that were delivered. -/
  delivered : List Nat := []

inductive StreamEvent where
  | send
  /-- The network delivers the `m`-th message, once more perhaps. -/
  | arrive (m : Nat)
  deriving DecidableEq

/-- The receiver once message `m` is handed to it. -/
def Stream.take (s : Stream α) (c : BitVec 8) (ordered : Nat → Bool)
    (payloads : Nat → α) (m : Nat) :
    Receiving α :=
  deliverMessage s.receiver (messageRecord c false (ordered m) m) (payloads m)

/-- Message `m` is ordered or not as `ordered` says, and has the payload `payloads m`.  It may
arrive until more than 2^15 later messages were sent. -/
def stream (c : BitVec 8) (ordered : Nat → Bool) (payloads : Nat → α) :
    Machine (Stream α) StreamEvent where
  step s e :=
    match e with
    | .send => some { s with unrelSend := s.unrelSend + 1 }
    | .arrive m =>
      if m < s.unrelSend ∧ s.unrelSend ≤ m + 1 + 2 ^ 15 then
        some { s with
          receiver := s.take c ordered payloads m
          delivered := if (s.take c ordered payloads m).ready.length = s.receiver.ready.length
            then s.delivered else s.delivered ++ [m] }
      else none

/-- An ordered message that arrives is in the window of what the receiver expects. -/
def InReach (ordered : Nat → Bool) (s : Stream α) : StreamEvent → Prop
  | .send => True
  | .arrive m => ordered m = true → InWindow (nextUnreliable s.receiver.channel) m

instance (ordered : Nat → Bool) (s : Stream α) : (e : StreamEvent) → Decidable (InReach ordered s e)
  | .send => .isTrue trivial
  | .arrive m => inferInstanceAs (Decidable (_ → InWindow _ m))

/-! ## The invariant -/

/-- What was delivered is recorded, the ordered messages in increasing order; `unrel_last` is
the last of them. -/
structure Sequential (ordered : Nat → Bool) (payloads : Nat → α) (s : Stream α) : Prop where
  ready : s.receiver.ready = s.delivered.map payloads
  increasing : (s.delivered.filter ordered).Pairwise (· < ·)
  fresh : s.receiver.channel.unrelStarted = false → ∀ k ∈ s.delivered, ordered k = false
  last : s.receiver.channel.unrelStarted = true →
    s.receiver.channel.unrelLast ∈ s.delivered ∧ ordered s.receiver.channel.unrelLast = true ∧
      ∀ k ∈ s.delivered, ordered k = true → k ≤ s.receiver.channel.unrelLast

section Arrival

variable {c : BitVec 8} {ordered : Nat → Bool} {payloads : Nat → α} {s : Stream α} {m : Nat}

/-- An unordered message is always delivered. -/
theorem take_unordered (hm : ordered m = false) :
    s.take c ordered payloads m =
      { s.receiver with ready := s.receiver.ready ++ [payloads m] } := by
  unfold Stream.take
  rw [hm, deliver_unsequenced]

/-- An ordered message in reach is delivered when it is newer than the last. -/
theorem take_ordered (hm : ordered m = true)
    (hreach : InWindow (nextUnreliable s.receiver.channel) m) :
    s.take c ordered payloads m =
      if s.receiver.channel.unrelStarted = false ∨ s.receiver.channel.unrelLast < m then
        { channel := { s.receiver.channel with unrelStarted := true, unrelLast := m }
          ready := s.receiver.ready ++ [payloads m] }
      else s.receiver := by
  have hseq : reconstructSeqFor s.receiver.channel (messageRecord c false true m) = m := by
    have hflag : hasFlag (messageRecord c false true m).flags kRecReliable = false :=
      hasFlag_recordFlags_reliable false true
    unfold reconstructSeqFor
    rw [hflag, if_neg Bool.false_ne_true]
    exact (reconstructSeq_eq_iff m _).2 hreach
  unfold Stream.take
  rw [hm, deliver_sequenced, hseq]

/-- What the step does to the history. -/
theorem step_arrive {s' : Stream α} (h : (stream c ordered payloads).step s (.arrive m) = some s') :
    s' = { s with
      receiver := s.take c ordered payloads m
      delivered := if (s.take c ordered payloads m).ready.length = s.receiver.ready.length
        then s.delivered else s.delivered ++ [m] } := by
  simp only [stream, Option.ite_none_right_eq_some] at h
  exact (Option.some.inj h.2).symm

/-- **A message arrives.** -/
theorem Sequential.arrive (h : Sequential ordered payloads s) (hok : InReach ordered s (.arrive m))
    {s' : Stream α} (hstep : (stream c ordered payloads).step s (.arrive m) = some s') :
    Sequential ordered payloads s' ∧
      (ordered m = true → (∀ k ∈ s.delivered, ordered k = true → k ≤ m) → m ∈ s'.delivered) := by
  rw [step_arrive hstep]
  cases hm : ordered m with
  | false =>
    rw [take_unordered hm]
    have hgrown : ¬ (s.receiver.ready ++ [payloads m]).length = s.receiver.ready.length := by simp
    dsimp only
    rw [if_neg hgrown]
    refine ⟨⟨?_, ?_, ?_, ?_⟩, fun h => absurd h Bool.false_ne_true⟩
    · simp [h.ready]
    · simpa [List.filter_append, hm] using h.increasing
    · intro hstarted
      exact List.forall_mem_append.2 ⟨(h.fresh hstarted), List.forall_mem_singleton.2 hm⟩
    · intro hstarted
      obtain ⟨hmem, hord, hle⟩ := h.last hstarted
      refine ⟨List.mem_append_left _ hmem, hord, ?_⟩
      intro k hk hko
      rcases List.mem_append.1 hk with hold | hnew
      · exact hle k hold hko
      · rw [List.mem_singleton.1 hnew, hm] at hko
        cases hko
  | true =>
    rw [take_ordered hm (hok hm)]
    by_cases hnew : s.receiver.channel.unrelStarted = false ∨ s.receiver.channel.unrelLast < m
    · rw [if_pos hnew]
      have hgrown : ¬ (s.receiver.ready ++ [payloads m]).length = s.receiver.ready.length := by simp
      dsimp only
      rw [if_neg hgrown]
      -- every ordered message delivered so far is older
      have holder : ∀ k ∈ s.delivered, ordered k = true → k < m := by
        intro k hk hko
        cases hstarted : s.receiver.channel.unrelStarted with
        | false =>
          rw [h.fresh hstarted k hk] at hko
          cases hko
        | true =>
          rw [hstarted] at hnew
          exact lt_of_le_of_lt ((h.last hstarted).2.2 k hk hko) (hnew.resolve_left (by simp))
      refine ⟨⟨?_, ?_, ?_, ?_⟩, fun _ _ => by simp⟩
      · simp [h.ready]
      · rw [List.filter_append, List.pairwise_append]
        refine ⟨h.increasing, by simp [hm], ?_⟩
        intro k hk k' hk'
        obtain ⟨hkd, hko⟩ := List.mem_filter.1 hk
        obtain ⟨hk'm, -⟩ := List.mem_filter.1 hk'
        rw [List.mem_singleton.1 hk'm]
        exact holder k hkd hko
      · intro hstarted
        cases hstarted
      · intro _
        refine ⟨by simp, hm, ?_⟩
        intro k hk hko
        rcases List.mem_append.1 hk with hold | hlast
        · exact (holder k hold hko).le
        · exact (List.mem_singleton.1 hlast).le
    · rw [if_neg hnew]
      dsimp only
      rw [if_pos rfl]
      obtain ⟨hstarted, hle⟩ := not_or.1 hnew
      have hstarted : s.receiver.channel.unrelStarted = true := by simpa using hstarted
      refine ⟨{ h with }, ?_⟩
      intro _ hnone
      -- nothing newer was delivered, so the last one delivered is this message
      obtain ⟨hmem, hord, -⟩ := h.last hstarted
      have heq : s.receiver.channel.unrelLast = m :=
        le_antisymm (hnone _ hmem hord) (not_lt.1 hle)
      rw [← heq]
      exact hmem

end Arrival

/-! ## Runs -/

theorem sequential_run {c : BitVec 8} {ordered : Nat → Bool} {payloads : Nat → α}
    {es : List StreamEvent} {s : Stream α}
    (hrun : GuardedRun (stream c ordered payloads) (InReach ordered) {} es s) :
    Sequential ordered payloads s := by
  refine hrun.invariant (I := Sequential ordered payloads) ?_ ?_
  · intro s e s' h hok hstep
    cases e with
    | send =>
      rw [← Option.some.inj hstep]
      exact { h with }
    | arrive m => exact (h.arrive hok hstep).1
  · exact ⟨rfl, by simp, by simp, by simp⟩

/-- **Sequenced delivery.**  Take any mix of unreliable ordered and unordered messages on one
channel and any run in which every ordered message that arrives is in the window of what the
receiver expects.  What was delivered are the payloads of messages, those of ordered messages
in strictly increasing order of sending and without duplicates; and an ordered message that
arrives when no newer one has been delivered has been delivered afterwards. -/
theorem sequenced_delivery (c : BitVec 8) (ordered : Nat → Bool) (payloads : Nat → α)
    (es : List StreamEvent) (s : Stream α)
    (hrun : GuardedRun (stream c ordered payloads) (InReach ordered) {} es s) :
    s.receiver.ready = s.delivered.map payloads ∧
      (s.delivered.filter ordered).Pairwise (· < ·) ∧
      ∀ m s', ordered m = true → InReach ordered s (.arrive m) →
        (stream c ordered payloads).step s (.arrive m) = some s' →
        (∀ k ∈ s.delivered, ordered k = true → k ≤ m) → m ∈ s'.delivered := by
  have h := sequential_run hrun
  refine ⟨h.ready, h.increasing, ?_⟩
  intro m s' hm hok hstep hnone
  exact (h.arrive hok hstep).2 hm hnone

/-- Four messages, of which the second is unordered; the third overtakes the first. -/
def overtakingRun : List StreamEvent :=
  [.send, .send, .send, .arrive 2, .arrive 0, .arrive 1, .send, .arrive 2, .arrive 3]

theorem sequenced_delivery_overtaking :
    ∃ s, GuardedRun (stream 0 (fun m => decide (m ≠ 1)) id) (InReach fun m => decide (m ≠ 1)) {}
        overtakingRun s ∧ s.receiver.ready = [2, 1, 3] ∧
      (s.delivered.filter fun m => decide (m ≠ 1)).Pairwise (· < ·) := by
  apply GuardedRun.exists_run (P := fun s => s.receiver.ready = [2, 1, 3]) (by decide +kernel)
  intro s hrun hready
  exact ⟨hready, (sequenced_delivery 0 _ id overtakingRun s hrun).2.1⟩

/-! ## Out of reach -/

theorem exec_sends (c : BitVec 8) (ordered : Nat → Bool) (payloads : Nat → α) (n : Nat)
    (s : Stream α) : (stream c ordered payloads).exec s (List.replicate n .send) =
      some { s with unrelSend := s.unrelSend + n } := by
  induction n generalizing s with
  | zero => rfl
  | succ n ih =>
    have hsend : (stream c ordered payloads).step s .send =
        some { s with unrelSend := s.unrelSend + 1 } := rfl
    rw [List.replicate_succ, Machine.exec_cons _ hsend, ih]
    simp [Nat.add_assoc, Nat.add_comm 1 n]

/-- Only two messages are ordered. -/
def rarely (m : Nat) : Bool := decide (m = 60000 ∨ m = 100000)

/-- Both arrive at once, and nothing else does. -/
def sparseRun : List StreamEvent :=
  List.replicate 60001 .send ++ (.arrive 60000 :: (List.replicate 40000 .send ++ [.arrive 100000]))

/-- The receiver once message 60000 was delivered. -/
def pastSparse : Receiving Nat where
  channel := { unrelStarted := true, unrelLast := 60000 }
  ready := [60000]

theorem take_first : ({ unrelSend := 60001 } : Stream Nat).take 0 rarely id 60000 = pastSparse := by
  rw [take_ordered (by decide) (by decide), if_pos (.inl rfl)]
  rfl

/-- Message 100000 is taken for message 34464. -/
theorem take_second (s : Stream Nat) (hs : s.receiver = pastSparse) :
    s.take 0 rarely id 100000 = pastSparse := by
  have hm : rarely 100000 = true := by decide
  have hseq : reconstructSeqFor pastSparse.channel (messageRecord 0 false true 100000) = 34464 := by
    decide +kernel
  unfold Stream.take
  rw [hs, hm, deliver_sequenced, hseq, if_neg (by decide)]

/-- **An ordered message is dropped as old.**  Message 60000 is delivered.  The next 39999
messages are unordered; then message 100000 is sent and arrives at once, as the newest of the
channel.  It is rebuilt as 34464 and dropped. -/
theorem sequenced_dropped_as_old :
    ∃ s, (stream 0 rarely id).exec {} sparseRun = some s ∧ s.unrelSend = 100001 ∧
      s.receiver.ready = [60000] ∧ s.delivered = [60000] := by
  have h₁ := exec_sends 0 rarely id 60001 {}
  have h₂ : (stream 0 rarely id).step { unrelSend := 60001 } (.arrive 60000) =
      some ⟨60001, pastSparse, [60000]⟩ := by
    simp only [stream]
    rw [if_pos (by decide), take_first]
    rfl
  have h₃ := exec_sends 0 rarely id 40000 ⟨60001, pastSparse, [60000]⟩
  have h₄ : (stream 0 rarely id).step ⟨100001, pastSparse, [60000]⟩ (.arrive 100000) =
      some ⟨100001, pastSparse, [60000]⟩ := by
    simp only [stream]
    rw [if_pos (by decide), take_second _ rfl]
    rfl
  refine ⟨⟨100001, pastSparse, [60000]⟩, ?_, rfl, rfl, rfl⟩
  rw [sparseRun, Machine.exec_append _ h₁, Machine.exec_cons _ h₂, Machine.exec_append _ h₃,
    Machine.exec_cons _ h₄, Machine.exec_nil]

end Zdt
end Znet

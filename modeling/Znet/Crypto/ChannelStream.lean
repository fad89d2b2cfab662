import Znet.Crypto.ReplayWindow
import Znet.Zdt.Channel

/-!
# An encrypted channel, from the cipher through the transport to the cipher

A session encrypts each message before it hands it to the transport, with a
counter that runs per channel over all its messages; the transport numbers
reliable and unreliable messages apart and delivers each mode by its own rules;
what it delivers goes through the channel's replay window.  A reliable message
may be overtaken on the way, and the window refuses what is more than 64 counters
behind.

* `window_accepts_iff` — **every reliable message that is handed up once is
  accepted, under all arrivals, exactly for those streams.**
-/

namespace Znet
namespace Crypto

open Zdt EncryptionLayer

/-- The messages of one channel of a session, in the order they are sent.
`base` is the reliable number the channel has reached before the first of them,
by the plaintext messages of the handshake. -/
structure ChannelStream (Plain Cipher : Type) where
  aead : Aead Plain Cipher
  channel : BitVec 8
  base : Nat
  length : Nat
  reliable : Nat → Bool
  ordered : Nat → Bool
  plains : Nat → Plain

namespace ChannelStream

variable {Plain Cipher : Type} (st : ChannelStream Plain Cipher)

/-! ## The sender -/

/-- The sending side of the channel: the cipher layer and the two counters the
transport numbers records from. -/
structure Sender where
  layer : EncryptionLayer := { enableEncryption := true, keyFilled := true }
  relSend : Nat
  unrelSend : Nat := 0

/-- Encrypt message `i` and number it. -/
def send (s : Sender) (i : Nat) : Sender × List (ZDTRecord × Message Plain Cipher) :=
  match handleOut st.aead s.layer (st.plains i) st.channel with
  | (none, layer) => ({ s with layer := layer }, [])
  | (some message, layer) =>
    if st.reliable i then
      ({ s with layer := layer, relSend := s.relSend + 1 },
        [(messageRecord st.channel true (st.ordered i) s.relSend, message)])
    else
      ({ s with layer := layer, unrelSend := s.unrelSend + 1 },
        [(messageRecord st.channel false (st.ordered i) s.unrelSend, message)])

/-- The first `n` messages, as the transport puts them on the wire. -/
def sendFirst : Nat → Sender × List (ZDTRecord × Message Plain Cipher)
  | 0 => ({ relSend := st.base }, [])
  | n + 1 =>
    let (s, out) := sendFirst n
    let (s, new) := st.send s n
    (s, out ++ new)

/-- All messages of the stream. -/
def sendAll : List (ZDTRecord × Message Plain Cipher) := (st.sendFirst st.length).2

/-- How many reliable messages precede message `i`. -/
def relBefore (i : Nat) : Nat := Nat.count (st.reliable · = true) i

def unrelBefore (i : Nat) : Nat := Nat.count (st.reliable · = false) i

/-- The record message `i` travels under. -/
def record (i : Nat) : ZDTRecord :=
  if st.reliable i then messageRecord st.channel true (st.ordered i) (st.base + st.relBefore i)
  else messageRecord st.channel false (st.ordered i) (st.unrelBefore i)

/-- Message `i`, encrypted under counter `i`. -/
def message (i : Nat) : Message Plain Cipher := genuine st.aead st.channel st.plains i

theorem sendFirst_spec (n : Nat) (hn : n ≤ kMaxCounter) :
    (st.sendFirst n).1.layer.enableEncryption = true ∧
      (st.sendFirst n).1.layer.txCounter st.channel = n ∧
      (st.sendFirst n).1.relSend = st.base + st.relBefore n ∧
      (st.sendFirst n).1.unrelSend = st.unrelBefore n ∧
      (st.sendFirst n).2 = (List.range n).map fun i => (st.record i, st.message i) := by
  induction n with
  | zero => simp [sendFirst, relBefore, unrelBefore]
  | succ n ih =>
    obtain ⟨henc, htx, hrel, hunrel, hout⟩ := ih (by omega)
    have hnext : n ≠ kMaxCounter := by omega
    simp only [sendFirst, send, handleOut, henc, if_true, htx, if_neg hnext, List.range_succ,
      List.map_append, List.map_cons, List.map_nil, hout]
    cases hr : st.reliable n with
    | true =>
      simp [hrel, hunrel, relBefore, unrelBefore, Nat.count_succ, hr, record, message,
        genuine, Nat.add_assoc]
    | false =>
      simp [hrel, hunrel, relBefore, unrelBefore, Nat.count_succ, hr, record, message,
        genuine]

/-- **The counters run in send order.** -/
theorem sendAll_eq (hlen : st.length ≤ kMaxCounter) :
    st.sendAll = (List.range st.length).map fun i => (st.record i, st.message i) :=
  (st.sendFirst_spec st.length hlen).2.2.2.2

/-! ## The receiver -/

/-- One arrival of the record at a position of the stream; nothing else travels
on the channel. -/
def receive (s : Receiving (Message Plain Cipher)) (i : Nat) :
    Receiving (Message Plain Cipher) :=
  match st.sendAll[i]? with
  | none => s
  | some (record, message) => deliverMessage s record message

/-- The receiving channel after any arrivals. -/
def receiveAll (arrivals : List Nat) : Receiving (Message Plain Cipher) :=
  arrivals.foldl st.receive { channel := { relExpected := st.base } }

/-- Every reliable message that is handed up once gets through the cipher layer,
whatever arrives. -/
def Accepted : Prop :=
  ∀ arrivals, ∀ i < st.length, st.reliable i = true → ∀ before after,
    (st.receiveAll arrivals).ready = before ++ st.message i :: after →
    st.message i ∉ before → st.message i ∉ after →
    (handleDecrypt st.aead (decryptAll st.aead { keyFilled := true } before)
      (st.message i)).1 = some (st.plains i)

/-- The streams a window of 64 serves: at most a period of reliable messages,
and nothing but reliable ordered messages more than 64 places after a reliable
one. -/
structure SafeForWindow : Prop where
  period : st.relBefore st.length ≤ 65536
  overtaken : ∀ i j, st.reliable i = true → i + 64 < j → j < st.length →
    st.reliable j = true ∧ st.ordered j = true

theorem receive_eq (hlen : st.length ≤ kMaxCounter) (s : Receiving (Message Plain Cipher))
    (i : Nat) : st.receive s i =
      if i < st.length then deliverMessage s (st.record i) (st.message i) else s := by
  rw [receive, st.sendAll_eq hlen, List.getElem?_map]
  by_cases hi : i < st.length
  · rw [List.getElem?_range hi, if_pos hi]
    rfl
  · rw [List.getElem?_eq_none (by simpa using hi), if_neg hi]
    rfl

variable {i j : Nat} {order : List Nat} {s : Receiving (Message Plain Cipher)}

theorem record_reliable (hr : st.reliable i = true) :
    st.record i = messageRecord st.channel true (st.ordered i) (st.base + st.relBefore i) :=
  if_pos hr

theorem relBefore_lt (hr : st.reliable i = true) (hij : i < j) :
    st.relBefore i < st.relBefore j :=
  Nat.count_strict_mono hr hij

theorem relBefore_inj (hi : st.reliable i = true) (hj : st.reliable j = true)
    (h : st.relBefore i = st.relBefore j) : i = j :=
  Nat.count_injective hi hj h

theorem message_inj (h : st.message i = st.message j) : i = j :=
  genuine_injective st.aead st.channel st.plains h

/-- What the cipher layer does with a message after the ones before it. -/
theorem handleDecrypt_message (order : List Nat) (i : Nat) :
    (handleDecrypt st.aead
        (decryptAll st.aead { keyFilled := true } (order.map st.message)) (st.message i)).1 =
      if i ∉ order ∧ ∀ d ∈ order, d ≤ i + 64 then some (st.plains i) else none := by
  obtain ⟨hkey, hwin⟩ := decryptAll_genuine st.aead st.channel st.plains order
    (show ({ keyFilled := true } : EncryptionLayer).keyFilled = true from rfl)
  have hiff := ReplayWindow.accept_iff order i
  unfold message
  rw [handleDecrypt_genuine st.aead st.channel st.plains hkey, hwin]
  by_cases hacc : i ∉ order ∧ ∀ d ∈ order, d ≤ i + 64
  · rw [if_pos hacc, if_pos (hiff.2 hacc)]
  · rw [if_neg hacc, if_neg (mt hiff.1 hacc)]

/-! ## The order messages are handed up in -/

/-- Message `j` is a reliable one that the receiver can take for number `k`. -/
def Stands (j k : Nat) : Prop :=
  j < st.length ∧ st.reliable j = true ∧
    BitVec.ofNat 16 (st.base + st.relBefore j) = BitVec.ofNat 16 k

/-- Each ordered message of the list is preceded by a message for every number
below the one it was taken for. -/
def InTurn (order : List Nat) : Prop :=
  ∀ before j after, order = before ++ j :: after → st.reliable j = true → st.ordered j = true →
    ∃ n, st.base ≤ n ∧ st.Stands j n ∧
      ∀ k, st.base ≤ k → k < n → ∃ i ∈ before, st.Stands i k

variable {st}

theorem InTurn.append (h : st.InTurn order)
    (hj : st.reliable j = true → st.ordered j = true → ∃ n, st.base ≤ n ∧ st.Stands j n ∧
      ∀ k, st.base ≤ k → k < n → ∃ i ∈ order, st.Stands i k) :
    st.InTurn (order ++ [j]) := by
  intro before x after heq hr ho
  rcases List.eq_nil_or_concat after with rfl | ⟨after, y, rfl⟩
  · obtain ⟨rfl, hx⟩ := List.append_inj' heq rfl
    cases hx
    exact hj hr ho
  · rw [List.concat_eq_append, ← List.cons_append, ← List.append_assoc] at heq
    obtain ⟨rfl, -⟩ := List.append_inj' heq rfl
    exact h before x after rfl hr ho

/-- What holds of the receiving channel whatever has arrived: `order` lists the
messages handed up so far. -/
structure Ranked (st : ChannelStream Plain Cipher) (s : Receiving (Message Plain Cipher))
    (order : List Nat) : Prop where
  ready : s.ready = order.map st.message
  lt : ∀ j ∈ order, j < st.length
  base_le : st.base ≤ s.channel.relExpected
  below : ∀ k, st.base ≤ k → k < s.channel.relExpected → ∃ j ∈ order, st.Stands j k
  ahead : ∀ k ∈ s.channel.relDeliveredAhead, ∃ j ∈ order, st.Stands j k
  held : ∀ k v, s.channel.relReorder[k]? = some v → ∃ j, v = st.message j ∧ st.Stands j k
  inTurn : st.InTurn order

theorem ranked_init (st : ChannelStream Plain Cipher) :
    Ranked st { channel := { relExpected := st.base } } [] := by
  refine ⟨rfl, by simp, le_rfl, fun k hk hk' => ?_, by simp, by simp, ?_⟩
  · simp only at hk'
    omega
  · intro before j after heq
    simp at heq

theorem Ranked.lt_append (h : Ranked st s order) (hj : j < st.length) :
    ∀ i ∈ order ++ [j], i < st.length := by
  intro i hi
  rcases List.mem_append.1 hi with hi | hi
  · exact h.lt i hi
  · rwa [List.mem_singleton.1 hi]

/-- Handing up the message for the number the watermark waits for. -/
theorem Ranked.next (h : Ranked st s order) (hj : st.Stands j s.channel.relExpected) :
    Ranked st
      { channel := { s.channel with relExpected := s.channel.relExpected + 1 }
        ready := s.ready ++ [st.message j] } (order ++ [j]) := by
  refine ⟨?_, ?_, ?_, fun k hk hk' => ?_, fun k hk => ?_, h.held, ?_⟩
  · rw [h.ready, List.map_append, List.map_cons, List.map_nil]
  · exact h.lt_append hj.1
  · exact h.base_le.trans (Nat.le_succ _)
  · rcases Nat.lt_succ_iff_lt_or_eq.1 hk' with hlt | rfl
    · obtain ⟨i, hi, hst⟩ := h.below k hk hlt
      exact ⟨i, List.mem_append_left _ hi, hst⟩
    · exact ⟨j, List.mem_append_right _ (List.mem_singleton_self j), hj⟩
  · obtain ⟨i, hi, hst⟩ := h.ahead k hk
    exact ⟨i, List.mem_append_left _ hi, hst⟩
  · exact h.inTurn.append fun _ _ => ⟨s.channel.relExpected, h.base_le, hj, h.below⟩

variable (fuel : Nat)

/-- The loop over the reorder buffer. -/
theorem Ranked.drainReorder (h : Ranked st s order) :
    ∃ order', Ranked st (drainReorder fuel s) order' := by
  induction fuel generalizing s order with
  | zero => exact ⟨order, h⟩
  | succ fuel ih =>
    rw [Zdt.drainReorder]
    cases hat : s.channel.relReorder[s.channel.relExpected]? with
    | none => exact ⟨order, h⟩
    | some v =>
      obtain ⟨j, rfl, hj⟩ := h.held _ v hat
      have hnext := h.next hj
      refine ih { hnext with held := ?_ }
      intro k v hk
      simp only [Std.ExtTreeMap.getElem?_erase] at hk
      split at hk
      · cases hk
      · exact h.held k v hk

/-- The loop over the delivered set. -/
theorem Ranked.advanceAhead {ch : ChannelState (Message Plain Cipher)}
    {ready : List (Message Plain Cipher)} (h : Ranked st { channel := ch, ready := ready } order) :
    Ranked st { channel := advanceAhead fuel ch, ready := ready } order := by
  induction fuel generalizing ch with
  | zero => exact h
  | succ fuel ih =>
    rw [Zdt.advanceAhead]
    by_cases hmem : ch.relExpected ∈ ch.relDeliveredAhead
    · rw [if_pos hmem]
      refine ih
        { h with
          base_le := h.base_le.trans (Nat.le_succ _)
          below := fun k hk hk' => ?_
          ahead := fun k hk => ?_ }
      · rcases Nat.lt_succ_iff_lt_or_eq.1 hk' with hlt | rfl
        · exact h.below k hk hlt
        · exact h.ahead _ hmem
      · exact h.ahead k (Finset.mem_of_mem_erase hk)
    · rw [if_neg hmem]
      exact h

/-- Handing up a message out of turn: an unordered or an unreliable one. -/
theorem Ranked.outOfTurn (h : Ranked st s order) (hlt : j < st.length)
    (hj : ¬ (st.reliable j = true ∧ st.ordered j = true)) (ch : ChannelState (Message Plain Cipher))
    (hexp : ch.relExpected = s.channel.relExpected)
    (hreorder : ch.relReorder = s.channel.relReorder)
    (hahead : ∀ k ∈ ch.relDeliveredAhead, k ∈ s.channel.relDeliveredAhead ∨ st.Stands j k) :
    Ranked st { channel := ch, ready := s.ready ++ [st.message j] } (order ++ [j]) := by
  refine ⟨?_, h.lt_append hlt, ?_, fun k hk hk' => ?_, fun k hk => ?_, ?_, ?_⟩
  · rw [h.ready, List.map_append, List.map_cons, List.map_nil]
  · exact hexp ▸ h.base_le
  · obtain ⟨i, hi, hst⟩ := h.below k hk (hexp ▸ hk')
    exact ⟨i, List.mem_append_left _ hi, hst⟩
  · rcases hahead k hk with hold | hst
    · obtain ⟨i, hi, hst⟩ := h.ahead k hold
      exact ⟨i, List.mem_append_left _ hi, hst⟩
    · exact ⟨j, List.mem_append_right _ (List.mem_singleton_self j), hst⟩
  · simp only [hreorder]
    exact h.held
  · exact h.inTurn.append fun hr ho => absurd ⟨hr, ho⟩ hj

/-- A reliable record is taken for a number its message stands for. -/
theorem stands_reconstructSeq (hj : j < st.length) (hr : st.reliable j = true) (expected : Nat) :
    st.Stands j (reconstructSeq (BitVec.ofNat 16 (st.base + st.relBefore j)) expected) :=
  ⟨hj, hr, (reconstructSeq_mod _ _).symm⟩

/-- One arrival of a reliable message. -/
theorem Ranked.deliver_reliable (h : Ranked st s order) (hj : j < st.length)
    (hr : st.reliable j = true) :
    ∃ order', Ranked st (deliverMessage s (st.record j) (st.message j)) order' := by
  have hst := stands_reconstructSeq hj hr s.channel.relExpected
  rw [st.record_reliable hr]
  cases ho : st.ordered j with
  | false =>
    rw [deliver_unordered]
    generalize reconstructSeq (BitVec.ofNat 16 (st.base + st.relBefore j))
      s.channel.relExpected = q at hst ⊢
    split
    · exact ⟨order, h⟩
    · refine ⟨order ++ [j], Ranked.advanceAhead _ (h.outOfTurn hj (by simp [ho]) _ rfl rfl ?_)⟩
      intro k hk
      rcases Finset.mem_insert.1 hk with rfl | hk
      · exact .inr hst
      · exact .inl hk
  | true =>
    rw [deliver_ordered]
    generalize reconstructSeq (BitVec.ofNat 16 (st.base + st.relBefore j))
      s.channel.relExpected = q at hst ⊢
    split
    · exact ⟨order, h⟩
    · split
      · next heq => exact (h.next (heq ▸ hst)).drainReorder _
      · refine ⟨order, h.ready, h.lt, h.base_le, h.below, h.ahead, fun k v hk => ?_, h.inTurn⟩
        simp only [Std.ExtTreeMap.getElem?_insertIfNew, Nat.compare_eq_eq] at hk
        split at hk
        · next hnew => exact ⟨j, (Option.some.inj hk).symm, hnew.1 ▸ hst⟩
        · exact h.held k v hk

/-- One arrival of an unreliable message. -/
theorem Ranked.deliver_unreliable (h : Ranked st s order) (hj : j < st.length)
    (hr : st.reliable j = false) :
    ∃ order', Ranked st (deliverMessage s (st.record j) (st.message j)) order' := by
  have hout : ¬ (st.reliable j = true ∧ st.ordered j = true) := by simp [hr]
  rw [record, if_neg (by simp [hr])]
  cases st.ordered j with
  | false =>
    rw [deliver_unsequenced]
    exact ⟨order ++ [j], h.outOfTurn hj hout _ rfl rfl fun k hk => .inl hk⟩
  | true =>
    rw [deliver_sequenced]
    split
    · exact ⟨order ++ [j], h.outOfTurn hj hout _ rfl rfl fun k hk => .inl hk⟩
    · exact ⟨order, h⟩

/-- Any run of arrivals. -/
theorem ranked_receiveAll (hlen : st.length ≤ kMaxCounter) (arrivals : List Nat) :
    ∃ order, Ranked st (st.receiveAll arrivals) order := by
  induction arrivals using List.reverseRecOn with
  | nil => exact ⟨[], ranked_init st⟩
  | append_singleton arrivals i ih =>
    obtain ⟨order, h⟩ := ih
    rw [receiveAll, List.foldl_append, List.foldl_cons, List.foldl_nil, ← receiveAll,
      st.receive_eq hlen]
    by_cases hi : i < st.length
    · rw [if_pos hi]
      cases hr : st.reliable i with
      | true => exact h.deliver_reliable hi hr
      | false => exact h.deliver_unreliable hi hr
    · rw [if_neg hi]
      exact ⟨order, h⟩

/-- A safe stream is accepted: a message that would be too old was overtaken by
an ordered one, which had to wait for it. -/
theorem SafeForWindow.accepted (hsafe : st.SafeForWindow) (hlen : st.length ≤ kMaxCounter) :
    st.Accepted := by
  intro arrivals i hi hr before after hready hbefore hafter
  obtain ⟨order, h⟩ := ranked_receiveAll hlen arrivals
  rw [h.ready] at hready
  obtain ⟨xs, ys, rfl, rfl, hys⟩ := List.append_eq_map_iff.1 hready.symm
  have hxs : i ∉ xs := fun hmem => hbefore (List.mem_map_of_mem hmem)
  rw [st.handleDecrypt_message, if_pos]
  refine ⟨hxs, fun d hd => ?_⟩
  by_contra hfar
  obtain ⟨ws, zs, rfl⟩ := List.append_of_mem hd
  have hdlen := h.lt d (List.mem_append_left _ hd)
  obtain ⟨hdr, hdo⟩ := hsafe.overtaken i d hr (by omega) hdlen
  -- `d` was handed up in its turn, so after a message for the number of `i`
  obtain ⟨n, hn, ⟨-, -, hdn⟩, hturn⟩ := h.inTurn ws d (zs ++ ys) (by simp) hdr hdo
  have hid := st.relBefore_lt hr (show i < d by omega)
  have hdperiod := st.relBefore_lt hdr hdlen
  have hperiod := hsafe.period
  have hmod := congrArg BitVec.toNat hdn
  rw [BitVec.toNat_ofNat, BitVec.toNat_ofNat] at hmod
  obtain ⟨j, hj, hjlen, hjr, hjn⟩ := hturn (st.base + st.relBefore i) (by omega) (by omega)
  have hmod' := congrArg BitVec.toNat hjn
  rw [BitVec.toNat_ofNat, BitVec.toNat_ofNat] at hmod'
  have hjperiod := st.relBefore_lt hjr hjlen
  have hji : j = i := st.relBefore_inj hjr hr (by omega)
  exact hxs (List.mem_append_left _ (hji ▸ hj))

/-! ## Streams the window does not serve -/

/-- A message handed up once, after one more than 64 counters ahead of it, is
refused. -/
theorem not_accepted (arrivals order : List Nat) {d : Nat} (hi : i < st.length)
    (hr : st.reliable i = true)
    (hready : (st.receiveAll arrivals).ready = order.map st.message ++ [st.message i])
    (hnew : i ∉ order) (hd : d ∈ order) (hfar : i + 64 < d) : ¬ st.Accepted := by
  intro hacc
  have hmem : st.message i ∉ order.map st.message := by
    intro hmem
    obtain ⟨j, hj, hji⟩ := List.mem_map.1 hmem
    exact hnew (st.message_inj hji ▸ hj)
  have hsome := hacc arrivals i hi hr (order.map st.message) [] hready hmem (by simp)
  rw [st.handleDecrypt_message, if_neg] at hsome
  · cases hsome
  · rintro ⟨-, hclose⟩
    have := hclose d hd
    omega

theorem receiveAll_append (arrivals : List Nat) (i : Nat) :
    st.receiveAll (arrivals ++ [i]) = st.receive (st.receiveAll arrivals) i := by
  rw [receiveAll, List.foldl_append, List.foldl_cons, List.foldl_nil, ← receiveAll]

/-- The reliable messages before `c`, arriving in order. -/
theorem receiveAll_in_order (hlen : st.length ≤ kMaxCounter) (c : Nat) (hc : c ≤ st.length) :
    st.receiveAll ((List.range c).filter st.reliable) =
      { channel := { relExpected := st.base + st.relBefore c }
        ready := ((List.range c).filter st.reliable).map st.message } := by
  induction c with
  | zero => simp [receiveAll, relBefore]
  | succ c ih =>
    rw [List.range_succ, List.filter_append]
    cases hr : st.reliable c with
    | false =>
      rw [List.filter_cons_of_neg (by simp [hr]), List.filter_nil, List.append_nil,
        ih (by omega)]
      simp [relBefore, Nat.count_succ, hr]
    | true =>
      rw [List.filter_cons_of_pos hr, List.filter_nil, receiveAll_append, ih (by omega),
        st.receive_eq hlen, if_pos (by omega), st.record_reliable hr,
        deliver_at_watermark _ _ _ _ (reconstructSeq_of_window (by omega) (by omega))]
      simp [relBefore, Nat.count_succ, hr, Nat.add_assoc]

/-- A message that is not reliable and ordered is handed up at once, ahead of
the reliable ones the channel waits for, if it is not too far ahead of them. -/
theorem receive_overtaking (hlen : st.length ≤ kMaxCounter) {e : Nat} (hj : j < st.length)
    (hout : ¬ (st.reliable j = true ∧ st.ordered j = true)) (hnear : st.reliable j = true →
      e < st.base + st.relBefore j ∧ st.base + st.relBefore j < e + 32768)
    (ready : List (Message Plain Cipher)) :
    ∃ ch : ChannelState (Message Plain Cipher), ch.relExpected = e ∧ ch.relReorder = ∅ ∧
      e ∉ ch.relDeliveredAhead ∧
      st.receive { channel := { relExpected := e }, ready := ready } j =
        { channel := ch, ready := ready ++ [st.message j] } := by
  rw [st.receive_eq hlen, if_pos hj, record]
  cases hr : st.reliable j with
  | true =>
    obtain ⟨hlt, hclose⟩ := hnear hr
    have ho : st.ordered j = false := by simpa [hr] using hout
    obtain ⟨e', hle, hstop, hrun, hdel⟩ := deliver_unordered_new
      (s := { channel := { relExpected := e }, ready := ready }) st.channel (st.message j)
      (reconstructSeq_of_window (by simp only; omega) hclose) hlt.le (by simp) (by simp)
    -- the watermark's own number is still missing
    have he' : e' = e := by
      rcases Nat.eq_or_lt_of_le hle with heq | hgt
      · exact heq.symm
      · have hin := hrun e le_rfl hgt
        simp only [Finset.mem_insert, Finset.notMem_empty, or_false] at hin
        omega
    subst he'
    refine ⟨_, rfl, rfl, ?_, by rw [if_pos rfl, ho, hdel]⟩
    simp only [Finset.mem_filter, not_and]
    exact fun hin => absurd hin hstop
  | false =>
    rw [if_neg Bool.false_ne_true]
    cases st.ordered j with
    | false =>
      rw [deliver_unsequenced]
      exact ⟨{ relExpected := e }, rfl, rfl, Finset.notMem_empty _, rfl⟩
    | true =>
      rw [deliver_sequenced, if_pos (.inl rfl)]
      exact ⟨{ relExpected := e, unrelStarted := true, unrelLast := _ }, rfl, rfl,
        Finset.notMem_empty _, rfl⟩

/-- The last reliable message more than 64 places before `j` has few reliable
messages after it. -/
theorem exists_last_overtaken (hr : st.reliable i = true) (hij : i + 64 < j) :
    ∃ c, c + 64 < j ∧ st.reliable c = true ∧ st.relBefore j ≤ st.relBefore c + 65 := by
  have hspec := Nat.findGreatest_spec (P := (st.reliable · = true)) (show i ≤ j - 65 by omega) hr
  have hgreatest := fun k => Nat.findGreatest_is_greatest (P := (st.reliable · = true)) (k := k)
    (n := j - 65)
  have hle := Nat.findGreatest_le (P := (st.reliable · = true)) (j - 65)
  generalize Nat.findGreatest (st.reliable · = true) (j - 65) = c at hspec hgreatest hle
  -- nothing reliable lies between `c` and the last 64 places
  have hgap : ∀ k, c + 1 ≤ k → k ≤ j - 64 → st.relBefore k = st.relBefore c + 1 := by
    intro k hk
    induction k, hk using Nat.le_induction with
    | base =>
      intro _
      rw [relBefore, Nat.count_succ, if_pos hspec, relBefore]
    | succ k hk ih =>
      intro hkj
      rw [relBefore, Nat.count_succ, if_neg (hgreatest k (by omega) (by omega)), Nat.add_zero,
        ← relBefore, ih (by omega)]
  refine ⟨c, by omega, hspec, ?_⟩
  calc st.relBefore j = st.relBefore (j - 64 + 64) := by rw [Nat.sub_add_cancel (by omega)]
    _ ≤ st.relBefore (j - 64) + 64 := by
        rw [relBefore, Nat.count_add]
        exact Nat.add_le_add_left (Nat.count_le _) _
    _ = st.relBefore c + 65 := by rw [hgap (j - 64) (by omega) le_rfl]

/-- A reliable message can be overtaken, more than 64 places later, by one that
is not reliable and ordered; then it is refused. -/
theorem not_accepted_of_overtaken (hlen : st.length ≤ kMaxCounter) (hr : st.reliable i = true)
    (hij : i + 64 < j) (hj : j < st.length)
    (hout : ¬ (st.reliable j = true ∧ st.ordered j = true)) :
    ¬ st.Accepted := by
  obtain ⟨c, hcj, hcr, hnear⟩ := exists_last_overtaken hr hij
  obtain ⟨ch, hexp, hreorder, hahead, hrecv⟩ := receive_overtaking hlen hj hout
    (e := st.base + st.relBefore c)
    (fun hjr => ⟨by have := st.relBefore_lt hcr (show c < j by omega); omega, by omega⟩)
    (((List.range c).filter st.reliable).map st.message)
  refine not_accepted ((List.range c).filter st.reliable ++ [j] ++ [c])
    ((List.range c).filter st.reliable ++ [j]) (by omega) hcr ?_ ?_
    (List.mem_append_right _ (List.mem_singleton_self j)) hcj
  · rw [receiveAll_append, receiveAll_append, receiveAll_in_order hlen c (by omega), hrecv,
      st.receive_eq hlen, if_pos (by omega), st.record_reliable hcr,
      ready_deliver_waited _ _ _ (by
        rw [hexp]
        exact reconstructSeq_of_window (by omega) (by omega)) hreorder (hexp ▸ hahead),
      List.map_append, List.map_cons, List.map_nil]
  · intro hmem
    rcases List.mem_append.1 hmem with hmem | hmem
    · have := List.mem_range.1 (List.mem_filter.1 hmem).1
      omega
    · have := List.mem_singleton.1 hmem
      omega

/-- There is a reliable message with each number the stream uses. -/
theorem exists_relBefore_eq {k n : Nat} (hk : k < st.relBefore n) :
    ∃ x < n, st.reliable x = true ∧ st.relBefore x = k := by
  induction n with
  | zero => simp [relBefore] at hk
  | succ n ih =>
    rw [relBefore, Nat.count_succ, ← relBefore] at hk
    by_cases hlt : k < st.relBefore n
    · obtain ⟨x, hx, hxr, hxk⟩ := ih hlt
      exact ⟨x, by omega, hxr, hxk⟩
    · by_cases hr : st.reliable n = true
      · rw [if_pos hr] at hk
        exact ⟨n, by omega, hr, by omega⟩
      · rw [if_neg hr] at hk
        omega

/-- With more than a period of reliable messages, the one a period after the
first can be taken for the first, and the second is then refused. -/
theorem not_accepted_of_period (hlen : st.length ≤ kMaxCounter)
    (hperiod : 65536 < st.relBefore st.length) : ¬ st.Accepted := by
  obtain ⟨x, hx, hxr, hxk⟩ := exists_relBefore_eq hperiod
  obtain ⟨y, hy, hyr, hyk⟩ := exists_relBefore_eq (show 1 < st.relBefore st.length by omega)
  have hfar : y + 64 < x := by
    by_contra hcon
    have hmono : st.relBefore x ≤ st.relBefore (y + 64) := Nat.count_monotone _ (by omega)
    have hcount : st.relBefore (y + 64) ≤ st.relBefore y + 64 := by
      rw [relBefore, Nat.count_add]
      exact Nat.add_le_add_left (Nat.count_le _) _
    omega
  have hq : reconstructSeq (BitVec.ofNat 16 (st.base + 65536)) st.base = st.base := by
    rw [ofNat_add_period]
    exact reconstructSeq_of_window (by omega) (by omega)
  refine not_accepted ([] ++ [x] ++ [y]) [x] hy hyr ?_
    (by simp; omega) (List.mem_singleton_self x) hfar
  rw [receiveAll_append, receiveAll_append, st.receive_eq hlen, if_pos hy, st.receive_eq hlen,
    if_pos hx, st.record_reliable hyr, st.record_reliable hxr, hxk, hyk, receiveAll, List.foldl_nil,
    deliver_at_watermark _ _ _ _ hq,
    deliver_at_watermark _ _ _ _ (reconstructSeq_of_window (by omega) (by omega))]
  rfl

/-- **Which streams the window serves.**  Every reliable message the transport
hands up once is accepted, whatever the arrivals, precisely when the stream is
safe. -/
theorem window_accepts_iff (st : ChannelStream Plain Cipher) (hlen : st.length ≤ kMaxCounter) :
    st.Accepted ↔ st.SafeForWindow := by
  constructor
  · intro hacc
    refine ⟨?_, fun i j hr hij hj => ?_⟩
    · by_contra hcon
      exact not_accepted_of_period hlen (by omega) hacc
    · by_contra hout
      exact not_accepted_of_overtaken hlen hr hij hj hout hacc
  · intro hsafe
    exact hsafe.accepted hlen

/-- A cipher that leaves its text as it is. -/
def plainAead : Aead Nat Nat where
  encrypt _ _ p := p
  decrypt _ _ c := some c
  decrypt_encrypt _ _ _ := rfl

/-- Two reliable ordered messages and an unreliable one. -/
def shortStream : ChannelStream Nat Nat :=
  { aead := plainAead, channel := 3, base := 0, length := 3, reliable := (· < 2)
    ordered := fun _ => true, plains := fun i => i }

theorem window_accepts_iff_short :
    shortStream.length ≤ kMaxCounter ∧ (shortStream.Accepted ↔ shortStream.SafeForWindow) :=
  ⟨by decide, window_accepts_iff shortStream (by decide)⟩

/-- One reliable message and 65 unreliable ones after it. -/
def overtakenStream : ChannelStream Nat Nat :=
  { aead := plainAead, channel := 3, base := 0, length := 66, reliable := (· == 0)
    ordered := fun _ => false, plains := fun i => i }

/-- When the last of them arrives first, the reliable message is refused. -/
theorem window_refuses_overtaken : ¬ overtakenStream.Accepted :=
  not_accepted [65, 0] [65] (by decide) rfl rfl (by decide) (List.mem_singleton_self 65) (by decide)

end ChannelStream

end Crypto
end Znet

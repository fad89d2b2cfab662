import Znet.Zdt.Link
import Znet.Zdt.Reassembly

/-!
# What finished messages leave in the reassembly table

`OnDataFragment` looks for a fragment's message in `reassembly_` only, and a message that became
whole is no longer there.  A late copy of one of its fragments therefore starts it anew, although
`DeliverMessage` would drop it.

* `no_residue` — **every message in the table is undelivered**, in every run in which no fragment
  arrives behind its own message; `late_fragment_refuses` — a late fragment takes the last slot,
  and a new message is refused.
-/

namespace Znet
namespace Zdt

/-! ## Numbers a channel is done with -/

/-- The number was delivered. -/
def ChannelState.Delivered {α : Type} (ch : ChannelState α) (seq : Nat) : Prop :=
  seq < ch.relExpected ∨ seq ∈ ch.relDeliveredAhead

/-- It was, or its message is whole and waits for its turn. -/
def ChannelState.Settled {α : Type} (ch : ChannelState α) (seq : Nat) : Prop :=
  ch.Delivered seq ∨ ch.relReorder[seq]? ≠ none

instance {α : Type} (ch : ChannelState α) (seq : Nat) : Decidable (ch.Delivered seq) :=
  inferInstanceAs (Decidable (_ ∨ _))

instance {α : Type} (ch : ChannelState α) (seq : Nat) : Decidable (ch.Settled seq) :=
  inferInstanceAs (Decidable (_ ∨ ¬ _))

section Channel

variable {α : Type} {seq : Nat}

theorem settled_advanceAhead {fuel : Nat} {ch : ChannelState α}
    (h : (advanceAhead fuel ch).Settled seq) : ch.Settled seq := by
  induction fuel generalizing ch with
  | zero => exact h
  | succ fuel ih =>
    rw [advanceAhead] at h
    split at h
    · next hmem =>
      rcases ih h with (hlt | hahead) | hreorder
      · rcases Nat.lt_succ_iff_lt_or_eq.1 hlt with hlt | rfl
        · exact .inl (.inl hlt)
        · exact .inl (.inr hmem)
      · exact .inl (.inr (Finset.mem_of_mem_erase hahead))
      · exact .inr hreorder
    · exact h

theorem settled_drainReorder {fuel : Nat} {s : Receiving α}
    (h : (drainReorder fuel s).channel.Settled seq) : s.channel.Settled seq := by
  induction fuel generalizing s with
  | zero => exact h
  | succ fuel ih =>
    rw [drainReorder] at h
    split at h
    · exact h
    · next payload hentry =>
      rcases ih h with (hlt | hahead) | hreorder
      · rcases Nat.lt_succ_iff_lt_or_eq.1 hlt with hlt | rfl
        · exact .inl (.inl hlt)
        · exact .inr (by simp [hentry])
      · exact .inl (.inr hahead)
      · refine .inr fun hnone => hreorder ?_
        simp [Std.ExtTreeMap.getElem?_erase, hnone]

/-- **A message** settles its own number and no other. -/
theorem settled_deliverMessage {s : Receiving α} {record : ZDTRecord} {payload : α}
    (h : (deliverMessage s record payload).channel.Settled seq) :
    s.channel.Settled seq ∨
      hasFlag record.flags kRecReliable = true ∧ seq = reconstructSeqFor s.channel record := by
  unfold deliverMessage at h
  dsimp only at h
  split at h
  · exact .inl h
  next hunordered =>
  split at h
  · split at h
    · exact .inl h
    · exact .inl h
  next hsequenced =>
  have hrel : hasFlag record.flags kRecReliable = true := by
    cases hflag : hasFlag record.flags kRecReliable with
    | true => rfl
    | false => cases hord : hasFlag record.flags kRecOrdered <;> simp_all
  split at h
  · split at h
    · exact .inl h
    · rcases settled_advanceAhead h with (hlt | hahead) | hreorder
      · exact .inl (.inl (.inl hlt))
      · rcases Finset.mem_insert.1 hahead with hseq | hahead
        · exact .inr ⟨hrel, hseq⟩
        · exact .inl (.inl (.inr hahead))
      · exact .inl (.inr hreorder)
  split at h
  · exact .inl h
  split at h
  · next hnext =>
    rcases settled_drainReorder h with (hlt | hahead) | hreorder
    · rcases Nat.lt_succ_iff_lt_or_eq.1 hlt with hlt | heq
      · exact .inl (.inl (.inl hlt))
      · exact .inr ⟨hrel, heq.trans hnext.symm⟩
    · exact .inl (.inl (.inr hahead))
    · exact .inl (.inr hreorder)
  · rcases h with hdelivered | hreorder
    · exact .inl (.inl hdelivered)
    · by_cases hseq : seq = reconstructSeqFor s.channel record
      · exact .inr ⟨hrel, hseq⟩
      · refine .inl (.inr fun hnone => hreorder ?_)
        simp [Std.ExtTreeMap.getElem?_insertIfNew, hnone, Ne.symm hseq]

end Channel

namespace Transport

variable {t t' : Transport} {key : MsgKey} {record : ZDTRecord}

/-- A reliable message its channel is done with. -/
def Finished (t : Transport) (key : MsgKey) : Prop :=
  key.reliable = true ∧ (t.channels key.channel).Settled key.messageSeq

instance : Decidable (Finished t key) := inferInstanceAs (Decidable (_ ∧ _))

/-- A reliable message that was delivered. -/
def Delivered (t : Transport) (key : MsgKey) : Prop :=
  key.reliable = true ∧ (t.channels key.channel).Delivered key.messageSeq

instance : Decidable (Delivered t key) := inferInstanceAs (Decidable (_ ∧ _))

theorem settled_deliver {payload : List UInt8} (h : Finished (t.deliver record payload) key)
    (hkey : key.fragIndex = 0) : Finished t key ∨ key = t.assemblyKey record := by
  obtain ⟨hrel, hsettled⟩ := h
  change (Function.update t.channels record.channel _ key.channel).Settled
    key.messageSeq at hsettled
  by_cases hchannel : key.channel = record.channel
  · rw [hchannel, Function.update_self] at hsettled
    rcases settled_deliverMessage hsettled with hbefore | ⟨hflag, hseq⟩
    · exact .inl ⟨hrel, hchannel ▸ hbefore⟩
    · right
      obtain ⟨channel, reliable, fragIndex, messageSeq⟩ := key
      simp_all [assemblyKey]
  · rw [Function.update_of_ne hchannel] at hsettled
    exact .inl ⟨hrel, hsettled⟩

theorem assemblyKey_reassembled (record : ZDTRecord) :
    t.assemblyKey (reassembled record) = t.assemblyKey record := by
  simp only [assemblyKey, reconstructSeqFor, hasFlag_reassembled]
  rfl

/-! ## Runs -/

/-- A receiver, and the messages of one record it was handed. -/
structure Arrived where
  t : Transport
  singles : List MsgKey := []

namespace Arrived

/-- The messages that were handed to `DeliverMessage`. -/
def done (s : Arrived) : List MsgKey := s.t.handed ++ s.singles

/-- What an event does. -/
def next (s : Arrived) (e : ReassemblyEvent) : Arrived where
  t := s.t.collect e
  singles :=
    match e with
    | .message record _ => s.singles ++ [s.t.assemblyKey record]
    | _ => s.singles

end Arrived

/-- Fragments, messages of one record and prunes, in any order. -/
def arrivals : Machine Arrived ReassemblyEvent := ⟨fun s e => some (s.next e)⟩

/-- A fragment does not arrive behind its own message, nor a whole message among fragments of the
same number. -/
def InTime (s : Arrived) : ReassemblyEvent → Prop
  | .fragment _ record _ => s.t.assemblyKey record ∉ s.done
  | .message record _ => s.t.reassembly[s.t.assemblyKey record]? = none
  | .prune _ => True

instance (s : Arrived) : (e : ReassemblyEvent) → Decidable (InTime s e)
  | .fragment _ record _ => inferInstanceAs (Decidable (s.t.assemblyKey record ∉ s.done))
  | .message record _ =>
    inferInstanceAs (Decidable (s.t.reassembly[s.t.assemblyKey record]? = none))
  | .prune _ => inferInstanceAs (Decidable True)

/-- What is done was handed on, and what is in the table was not. -/
structure Undone (t : Transport) (done : List MsgKey) : Prop where
  finished : ∀ key : MsgKey, key.fragIndex = 0 → Finished t key → key ∈ done
  entry : ∀ (key : MsgKey) (a : Reassembly), t.reassembly[key]? = some a →
    key.fragIndex = 0 ∧ key ∉ done

variable {done : List MsgKey}

/-- A message is handed on that is not, or no longer, in the table. -/
theorem Undone.deliver (h : Undone t done) (payload : List UInt8)
    (hgone : t.reassembly[t.assemblyKey record]? = none) :
    Undone (t.deliver record payload) (t.assemblyKey record :: done) := by
  refine ⟨fun key hindex hfinished => ?_, fun key a hentry => ?_⟩
  · rcases settled_deliver hfinished hindex with hbefore | rfl
    · exact .tail _ (h.finished key hindex hbefore)
    · exact .head _
  · change t.reassembly[key]? = some a at hentry
    obtain ⟨hindex, hnot⟩ := h.entry key a hentry
    refine ⟨hindex, List.not_mem_cons_of_ne_of_not_mem ?_ hnot⟩
    rintro rfl
    rw [hgone] at hentry
    cases hentry

/-- The order in which the messages are listed does not matter. -/
theorem Undone.perm (h : Undone t done) {done' : List MsgKey} (hperm : done.Perm done') :
    Undone t done' :=
  ⟨fun key hindex hfinished => hperm.mem_iff.1 (h.finished key hindex hfinished),
    fun key a hentry => (h.entry key a hentry).imp_right (mt hperm.mem_iff.2)⟩

/-- **One event.** -/
theorem Undone.next {s : Arrived} (h : Undone s.t s.done) {e : ReassemblyEvent} (he : InTime s e) :
    Undone (s.next e).t (s.next e).done := by
  obtain ⟨t, singles⟩ := s
  cases e with
  | fragment now record data =>
    have hfiled := filed_onDataFragment t now record data
    show Undone (t.onDataFragment now record data).1
      ((t.onDataFragment now record data).1.handed ++ singles)
    generalize (t.onDataFragment now record data).1 = t' at hfiled
    cases hfiled with
    | dropped => exact h
    | kept a bytes => exact ⟨h.finished, Keyed.forall_insert h.entry ⟨rfl, he⟩⟩
    | handedOn payload bytes =>
      have herased : Undone { t with
          reassembly := t.reassembly.erase (t.assemblyKey record)
          reassemblyBytes := bytes
          handed := t.handed ++ [t.assemblyKey record] } (t.handed ++ singles) :=
        ⟨h.finished, Keyed.forall_erase h.entry _⟩
      have hgone : (t.reassembly.erase (t.assemblyKey record))[t.assemblyKey record]? = none :=
        Std.ExtTreeMap.getElem?_erase_self
      have hdelivered : Undone (Transport.deliver _ (reassembled record) payload) _ :=
        herased.deliver payload (by rw [assemblyKey_reassembled]; exact hgone)
      rw [assemblyKey_reassembled] at hdelivered
      refine hdelivered.perm ?_
      show (t.assemblyKey record :: (t.handed ++ singles)).Perm
        (t.handed ++ [t.assemblyKey record] ++ singles)
      rw [List.append_assoc]
      exact List.perm_middle.symm
  | message record data =>
    refine (h.deliver data he).perm ?_
    show (t.assemblyKey record :: (t.handed ++ singles)).Perm
      (t.handed ++ (singles ++ [t.assemblyKey record]))
    rw [← List.append_assoc]
    exact (List.perm_append_singleton _ _).symm
  | prune now =>
    refine ⟨h.finished, fun key a hentry => h.entry key a ?_⟩
    change (t.reassembly.filter _)[key]? = some a at hentry
    rw [Std.ExtTreeMap.getElem?_filter'] at hentry
    exact (Option.filter_eq_some_iff.1 hentry).1

/-- The partly received messages that were not handed on. -/
def Arrived.undelivered (s : Arrived) : Std.ExtTreeMap MsgKey Reassembly MsgKey.cmp :=
  s.t.reassembly.filter fun key _ => decide (key ∉ s.done)

/-- **Finished messages leave nothing behind**, in every run in which no fragment arrives behind its
own message: no message in the table was handed to `DeliverMessage`, so no reliable one was
delivered; and a fragment that would start a message is refused only while as many undelivered
messages, or as many of their bytes, are held as configured. -/
theorem no_residue {config : Config} {es : List ReassemblyEvent} {s : Arrived}
    (hrun : GuardedRun arrivals InTime { t := { config := config } } es s) :
    (∀ (key : MsgKey) (a : Reassembly), s.t.reassembly[key]? = some a →
        key ∉ s.done ∧ ¬ Delivered s.t key) ∧
      ∀ record, s.t.atCapacity record = true → s.t.reassembly[s.t.assemblyKey record]? = none ∧
        (config.maxReassemblies ≤ s.undelivered.size ∨ config.maxReassemblyBytes ≤
          Tally.total (fun a => Tally.total List.length a.fragments) s.undelivered) := by
  have hall : Undone s.t s.done ∧ Tallied s.t ∧ s.t.config = config := by
    refine hrun.invariant (I := fun s => Undone s.t s.done ∧ Tallied s.t ∧ s.t.config = config)
      (fun s e s' h he hstep => ?_) ?_
    · obtain rfl := Option.some.inj hstep
      exact ⟨h.1.next he, h.2.1.collect e, (config_collect s.t e).trans h.2.2⟩
    · refine ⟨⟨fun key _ hfinished => ?_, fun key a hentry => ?_⟩, tallied_collected config [], rfl⟩
      · exact absurd hfinished.2 (by simp [ChannelState.Settled, ChannelState.Delivered])
      · simp at hentry
  obtain ⟨hundone, htally, rfl⟩ := hall
  refine ⟨fun key a hentry => ?_, fun record hfull => ?_⟩
  · obtain ⟨hindex, hnot⟩ := hundone.entry key a hentry
    exact ⟨hnot, fun hdelivered =>
      hnot (hundone.finished key hindex ⟨hdelivered.1, .inl hdelivered.2⟩)⟩
  · -- the whole table is undelivered
    have hsame : s.undelivered = s.t.reassembly := by
      apply Std.ExtTreeMap.ext_getElem?
      intro key
      rw [Arrived.undelivered, Std.ExtTreeMap.getElem?_filter']
      cases hentry : s.t.reassembly[key]? with
      | none => rfl
      | some a => exact Option.filter_some_pos (decide_eq_true (hundone.entry key a hentry).2)
    have hbytes : s.t.reassemblyBytes =
        Tally.total (fun a => Tally.total List.length a.fragments) s.t.reassembly := htally.bytes
    rw [hsame, ← hbytes]
    simpa [atCapacity] using hfull

def oneSlot : Arrived := { t := { config := { maxReassemblies := 1 } } }

/-- Message 0 is delivered, half of message 1 holds the slot, and message 2 has to wait. -/
theorem no_residue_of_two : ∃ s, GuardedRun arrivals InTime oneSlot
    [.fragment 0 (halfOf 0 1) [1], .fragment 0 (halfOf 0 0) [2], .fragment 0 (halfOf 1 0) [3]] s ∧
      s.t.ready = [[2, 1]] ∧ s.t.atCapacity (halfOf 2 0) = true ∧
      (∀ (key : MsgKey) (a : Reassembly), s.t.reassembly[key]? = some a →
        key ∉ s.done ∧ ¬ Delivered s.t key) ∧
      (1 ≤ s.undelivered.size ∨ 16777216 ≤
        Tally.total (fun a => Tally.total List.length a.fragments) s.undelivered) := by
  apply GuardedRun.exists_run (P := fun s => s.t.ready = [[2, 1]] ∧
    s.t.atCapacity (halfOf 2 0) = true) (by decide +kernel)
  rintro s hrun ⟨hready, hfull⟩
  obtain ⟨hundelivered, hrefused⟩ := no_residue hrun
  exact ⟨hready, hfull, hundelivered, (hrefused _ hfull).2⟩

/-- A copy of a delivered message's fragment takes the only slot, and the next message is
refused. -/
theorem late_fragment_refuses : ∃ s, arrivals.exec oneSlot
    [.fragment 0 (halfOf 0 1) [1], .fragment 0 (halfOf 0 0) [2], .fragment 0 (halfOf 0 1) [1]] =
      some s ∧
    s.t.ready = [[2, 1]] ∧ (s.t.reassembly[s.t.assemblyKey (halfOf 0 1)]?).isSome = true ∧
    Delivered s.t (s.t.assemblyKey (halfOf 0 1)) ∧
    (s.t.onDataFragment 0 (halfOf 1 0) [3]).2 = false :=
  Machine.exists_exec (by decide +kernel) fun _ _ => id

end Transport
end Zdt
end Znet

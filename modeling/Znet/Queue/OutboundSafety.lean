import Znet.Queue.OutboundAccess

/-!
# Runs of the outbound queue

The invariant of the whole system (`Inv`), its step lemma (`Inv.next`) and its run lemma
(`inv_run`), for schedules without a rollback, and what follows from it:

* `drain_orderly` — **in every run without a rollback** the read cursor never moves back,
  what is passed to the encode callbacks is what was claimed, in order and once, and from a
  state with no call in progress a `Drain` passes on everything that is queued.
-/

namespace Znet
namespace Queue

variable {α : Type}

/-! ## Whole runs -/

section Runs

variable {T : Type} [DecidableEq T]

/-- The invariant of the system: the three parts, and a thread behind every claim and every
unpublished position. -/
structure Inv (σ : System T α) : Prop where
  holds : Threads.Holds Ring At Apart σ.queue σ.pc
  claim : σ.queue.encoding = true → ∃ t, (σ.pc t).Draining
  owner : ∀ p, Owned σ.queue p → ∃ t, (σ.pc t).Owns p

/-- No thread stores `dequeue_` at the end of a `Pop` while another one is between the load
and the store of `Empty`. -/
def NoRollback (σ : System T α) : Event T α → Prop
  | .step t _ => ∀ item pos, σ.pc t = .releaseHead item pos →
      ∀ u ≠ t, ∀ head, σ.pc u ≠ .emptyStore head
  | _ => True

omit [DecidableEq T] in
theorem inv_start (capacity : Nat) : Inv (System.start T α capacity) where
  holds := ⟨Ring.new capacity, fun _ => trivial, fun _ _ _ => ⟨fun h => h.1, fun _ h => h.1⟩⟩
  claim h := by simp [System.start, OutboundQueue.new] at h
  owner p h := absurd h.lt_enqueue (Nat.not_lt_zero p)

variable {σ σ' : System T α} {q : OutboundQueue α} {pc : Pc α} {e : Event T α}
  {es : List (Event T α)} {n p : Nat}

/-- A thread goes from one place to another. -/
theorem Inv.update (h : Inv σ) (t : T) {q' : OutboundQueue α} {pc' : Pc α}
    (hok : StepOk σ.queue (σ.pc t) q' pc')
    (hstore : ∀ u ≠ t, ∀ head, σ.pc u = .emptyStore head → q'.dequeue = σ.queue.dequeue) :
    Inv { queue := q', pc := Function.update σ.pc t pc' } where
  holds := h.holds.update t hok.ring hok.own
    (fun u hu hat hap => hok.others _ hat hap (hstore u hu))
    (fun u _ hap => hok.apart _ (h.holds.each u) hap) fun _ _ => Apart.symm
  claim he := Threads.exists_update ((hok.claim he).imp id fun hold => ⟨h.claim hold.1, hold.2⟩)
  owner p hp := Threads.exists_update
    ((hok.owner p hp).imp id fun hold => ⟨h.owner p hold.1, hold.2⟩)

/-- Only the store at the end of a `Pop` moves the read cursor. -/
theorem dequeue_tick (hat : At q pc) (spurious : Bool)
    (hpc : ∀ item pos, pc ≠ .releaseHead item pos) :
    (tick q spurious pc).1.dequeue = q.dequeue := by
  cases pc with
  | releaseHead item pos => exact absurd rfl (hpc item pos)
  | emptyStore head => exact hat
  | pushProbe | pushCas | drainClaim | popProbe | emptyCheck =>
    rw [tick]
    split
    · rfl
    · first | rfl | (split <;> rfl)
  | pushPublish pos first => cases first <;> rfl
  | _ => rfl

/-- What an event can do: a thread outside the queue enters it, or a thread makes its next
access. -/
theorem System.next_cases (h : σ.next e = some σ') :
    (∃ t pc', σ.pc t = .idle ∧ (pc' = .drainClaim ∨ ∃ item, pc' = .pushLoad item) ∧
      σ' = { σ with pc := Function.update σ.pc t pc' }) ∨
    ∃ t spurious, e = .step t spurious ∧ σ' =
      { queue := (tick σ.queue spurious (σ.pc t)).1
        pc := Function.update σ.pc t (tick σ.queue spurious (σ.pc t)).2 } := by
  cases e with
  | push t item =>
    obtain ⟨hidle, h⟩ := Option.ite_none_right_eq_some.1 h
    exact .inl ⟨t, _, Pc.isIdle_iff.1 hidle, .inr ⟨item, rfl⟩, (Option.some.inj h).symm⟩
  | drain t =>
    obtain ⟨hidle, h⟩ := Option.ite_none_right_eq_some.1 h
    exact .inl ⟨t, _, Pc.isIdle_iff.1 hidle, .inl rfl, (Option.some.inj h).symm⟩
  | step t spurious =>
    obtain ⟨-, h⟩ := Option.ite_none_left_eq_some.1 h
    exact .inr ⟨t, spurious, rfl, (Option.some.inj h).symm⟩

/-- **One event.** -/
theorem Inv.next (h : Inv σ) (hok : NoRollback σ e) (hnext : σ.next e = some σ') :
    Inv σ' ∧ σ.queue.dequeue ≤ σ'.queue.dequeue := by
  obtain ⟨t, pc', hidle, hcall, rfl⟩ | ⟨t, spurious, rfl, rfl⟩ := System.next_cases hnext
  · refine ⟨h.update t ?_ fun _ _ _ _ => rfl, le_rfl⟩
    rw [hidle]
    rcases hcall with rfl | ⟨item, rfl⟩
    · exact .silent h.holds.shared trivial Iff.rfl fun _ => Iff.rfl
    · exact .silent h.holds.shared trivial Iff.rfl fun _ => Iff.rfl
  · have htick := tick_ok h.holds.shared (h.holds.each t) spurious
    refine ⟨h.update t htick fun u hu head hpc => ?_, htick.dequeue_le⟩
    refine dequeue_tick (h.holds.each t) spurious fun item pos hrel => ?_
    exact hok item pos hrel u hu head hpc

theorem inv_run (h : Inv σ) (hrun : GuardedRun (machine T α) NoRollback σ es σ') : Inv σ' :=
  hrun.invariant (fun _ _ _ hi hok hnext => (Inv.next hi hok hnext).1) h

/-! ## A `Drain` passes on what is queued -/

/-- Everything below `n` is published. -/
def PublishedBelow (σ : System T α) (n : Nat) : Prop := ∀ p < n, ¬ Owned σ.queue p

omit [DecidableEq T] in
theorem Inv.publishedBelow_of_idle (h : Inv σ) (hidle : ∀ t, σ.pc t = .idle) (n : Nat) :
    PublishedBelow σ n := by
  intro p _ ho
  obtain ⟨t, ht⟩ := h.owner p ho
  rw [hidle t] at ht
  exact ht

/-- A `Pop` that finds nothing has passed everything published. -/
theorem tick_drainRelease (hring : Ring q) (hat : At q pc) {spurious : Bool}
    (hpub : ∀ p < n, ¬ Owned q p) (hn : n ≤ q.enqueue)
    (hrel : (tick q spurious pc).2 = .drainRelease) : n ≤ q.dequeue := by
  cases pc with
  | popProbe pos =>
    obtain ⟨hh, -, rfl⟩ := hat
    rw [tick] at hrel
    split at hrel
    · cases hrel
    · next hseq =>
      by_contra hlt
      have hlt : q.dequeue < n := by omega
      refine hpub _ hlt ⟨hh.freed.le, by omega, ?_⟩
      exact (hring.busy q.dequeue hh.freed.le (by omega)).resolve_right hseq
  | pushProbe | pushCas | drainClaim | emptyCheck =>
    rw [tick] at hrel
    split at hrel
    · cases hrel
    · first | cases hrel | (split at hrel <;> cases hrel)
  | pushPublish pos first => cases first <;> cases hrel
  | _ => cases hrel

/-- Positions below `n` are claimed and published, and whoever ends its `Pop` loop has passed
them all. -/
structure Passing (n : Nat) (σ : System T α) : Prop where
  inv : Inv σ
  claimed : n ≤ σ.queue.enqueue
  published : PublishedBelow σ n
  passed : ∀ t, σ.pc t = .drainRelease → n ≤ σ.queue.dequeue

theorem Passing.next (h : Passing n σ) (hok : NoRollback σ e) (hnext : σ.next e = some σ') :
    Passing n σ' := by
  obtain ⟨hinv, hle⟩ := h.inv.next hok hnext
  obtain ⟨t, pc', hidle, hcall, rfl⟩ | ⟨t, spurious, rfl, rfl⟩ := System.next_cases hnext
  · refine ⟨hinv, h.claimed, h.published, fun u hu => ?_⟩
    by_cases hut : u = t
    · subst hut
      simp only [Function.update_self] at hu
      rcases hcall with rfl | ⟨item, rfl⟩ <;> cases hu
    · simp only [Function.update_of_ne hut] at hu
      exact h.passed u hu
  · have hat := h.inv.holds.each t
    have htick := tick_ok h.inv.holds.shared hat spurious
    refine ⟨hinv, h.claimed.trans htick.enqueue_le, fun p hp ho => ?_, fun u hu => ?_⟩
    · rcases htick.owner p ho with hown | ⟨hold, -⟩
      · rcases htick.fresh p hown with hwas | hnew
        · exact h.published p hp (hat.owned hwas)
        · exact absurd (hp.trans_le h.claimed) (Nat.not_lt.2 hnew)
      · exact h.published p hp hold
    · refine le_trans ?_ hle
      by_cases hut : u = t
      · subst hut
        simp only [Function.update_self] at hu
        exact tick_drainRelease h.inv.holds.shared hat h.published h.claimed hu
      · simp only [Function.update_of_ne hut] at hu
        exact h.passed u hu

theorem passing_run (h : Passing n σ) (hrun : GuardedRun (machine T α) NoRollback σ es σ') :
    Passing n σ' :=
  hrun.invariant (fun _ _ _ hp hok hnext => Passing.next hp hok hnext) h

/-! ## A `Drain` on its own -/

/-- A thread inside a `Drain` that runs alone over published items: what it has left to do. -/
def Alone (q : OutboundQueue α) : Pc α → Prop
  | .drainClaim => q.encoding = false
  | .popLoad | .popProbe _ | .popMove _ | .releaseLoad _ _ | .releaseCell _ _ _
  | .releaseHead _ _ | .encode _ => True
  | .drainRelease => q.dequeue = q.enqueue
  | .idle | .emptyLoad | .emptyStore _ | .emptyCheck _ | .drainWake =>
    q.encoding = false ∧ q.dequeue = q.enqueue
  | _ => False

/-- How many accesses that is at most: a dozen for each item still queued. -/
def weight (q : OutboundQueue α) : Pc α → Nat
  | .drainClaim => 12 * (q.enqueue - q.dequeue) + 9
  | .popLoad => 12 * (q.enqueue - q.dequeue) + 8
  | .popProbe _ => 12 * (q.enqueue - q.dequeue) + 7
  | .popMove _ => 12 * (q.enqueue - q.dequeue) + 6
  | .releaseLoad _ _ => 12 * (q.enqueue - q.dequeue) + 5
  | .releaseCell _ _ _ => 12 * (q.enqueue - q.dequeue) + 4
  | .releaseHead _ _ => 12 * (q.enqueue - q.dequeue) + 3
  | .encode _ => 12 * (q.enqueue - q.dequeue) + 14
  | .drainRelease => 5
  | .emptyLoad => 4
  | .emptyStore _ => 3
  | .emptyCheck _ => 2
  | .drainWake => 1
  | _ => 0

omit [DecidableEq T] in
theorem Alone.tick (h : Alone q pc) (hring : Ring q) (hat : At q pc) (hpub : ∀ p, ¬ Owned q p)
    (hpc : pc ≠ .idle) :
    Alone (tick q false pc).1 (tick q false pc).2 ∧
      weight (tick q false pc).1 (tick q false pc).2 < weight q pc ∧
      (tick q false pc).1.claimed = q.claimed := by
  cases pc with
  | idle => exact absurd rfl hpc
  | drainClaim =>
    have he : q.encoding = false := h
    simp [Queue.tick, he, Alone, weight]
  | popProbe pos =>
    obtain ⟨hh, -, rfl⟩ := hat
    rw [Queue.tick]
    split
    · exact ⟨trivial, by simp [weight], rfl⟩
    · next hseq =>
      refine ⟨?_, by simp only [weight]; omega, rfl⟩
      have hle := hring.freed_le
      have hfreed := hh.freed
      by_contra hne
      have hne : q.dequeue ≠ q.enqueue := hne
      have hlt : q.dequeue < q.enqueue := by omega
      refine hpub q.dequeue ⟨hfreed.le, hlt, ?_⟩
      exact (hring.busy q.dequeue hfreed.le hlt).resolve_right hseq
  | releaseHead item pos =>
    obtain ⟨-, -, hfreed, -, -, rfl⟩ := hat
    have hle := hring.freed_le
    refine ⟨trivial, ?_, rfl⟩
    simp only [Queue.tick, weight]
    omega
  | emptyCheck head =>
    rw [Queue.tick]
    split <;> exact ⟨h, by simp [weight], rfl⟩
  | emptyStore head =>
    obtain rfl : head = q.dequeue := hat
    exact ⟨h, by simp [Queue.tick, weight], rfl⟩
  | drainRelease => exact ⟨⟨rfl, h⟩, by simp [Queue.tick, weight], rfl⟩
  | popLoad | popMove | releaseLoad | releaseCell | encode =>
    exact ⟨trivial, by simp [Queue.tick, weight, OutboundQueue.setCell], rfl⟩
  | emptyLoad | drainWake => exact ⟨h, by simp [Queue.tick, weight], rfl⟩
  | pushLoad | pushProbe | pushCas | pushDepth | pushWrite | pushPublish | pushWake =>
    exact absurd h id

omit [DecidableEq T] in
theorem Alone.not_owns (h : Alone q pc) (p : Nat) :
    ¬ pc.Owns p := by
  cases pc <;> first | exact id | exact absurd h id

/-- One access of a thread whose place is known. -/
theorem exec_step (q : OutboundQueue α) (pcs : T → Pc α) (t : T) (hpc : pc ≠ .idle)
    (es : List (Event T α)) :
    (machine T α).exec { queue := q, pc := Function.update pcs t pc } (.step t false :: es) =
      (machine T α).exec
        { queue := (tick q false pc).1, pc := Function.update pcs t (tick q false pc).2 } es := by
  refine (machine T α).exec_cons ?_ es
  have hidle : pc.isIdle = false := by
    rw [← Bool.not_eq_true, Pc.isIdle_iff]
    exact hpc
  simp [machine, System.next, hidle]

/-- **A `Drain` that runs alone ends, with everything passed on.** -/
theorem exec_drain_alone (w : Nat) (q : OutboundQueue α) (pc : Pc α) (hw : weight q pc ≤ w)
    (hring : Ring q) (hat : At q pc) (h : Alone q pc) (hpub : ∀ p, ¬ Owned q p) (pcs : T → Pc α)
    (t : T) :
    ∃ n q', (machine T α).exec { queue := q, pc := Function.update pcs t pc } (steps t n) =
        some { queue := q', pc := Function.update pcs t .idle } ∧
      Ring q' ∧ q'.encoding = false ∧ q'.dequeue = q'.enqueue ∧ q'.claimed = q.claimed := by
  induction w using Nat.strong_induction_on generalizing q pc with
  | _ w ih =>
    by_cases hpc : pc = .idle
    · subst hpc
      exact ⟨0, q, rfl, hring, h.1, h.2, rfl⟩
    · obtain ⟨hnext, hlt, hclaimed⟩ := h.tick hring hat hpub hpc
      have hok := tick_ok hring hat false
      have hpub' : ∀ p, ¬ Owned (tick q false pc).1 p := by
        intro p ho
        rcases hok.owner p ho with hown | ⟨hold, -⟩
        · exact hnext.not_owns p hown
        · exact hpub p hold
      obtain ⟨n, q', hexec, hring', henc, hdeq, hcl⟩ :=
        ih (weight (tick q false pc).1 (tick q false pc).2) (hlt.trans_le hw) _ _ le_rfl hok.ring
          hok.own hnext hpub'
      refine ⟨n + 1, q', ?_, hring', henc, hdeq, hcl.trans hclaimed⟩
      rw [steps, List.replicate_succ, exec_step q pcs t hpc]
      exact hexec

/-! ## The result -/

/-- What the queue is for, in a state of a run. -/
structure Orderly (σ : System T α) : Prop where
  /-- The read cursor does not move back. -/
  cursor : ∀ e σ', NoRollback σ e → σ.next e = some σ' → σ.queue.dequeue ≤ σ'.queue.dequeue
  /-- What was passed on is what was claimed first, in order and once. -/
  inOrder : σ.queue.encoded = (σ.queue.claimed.take σ.queue.encoded.length).map some
  /-- A push that returned true has a position. -/
  pushed : ∀ p ∈ σ.queue.pushed, p < σ.queue.claimed.length
  /-- What was not passed on is still ahead of the read cursor, or about to be passed on. -/
  kept : ∀ p, σ.queue.encoded.length ≤ p → p < σ.queue.claimed.length →
    σ.queue.dequeue ≤ p ∨ ∃ t, σ.pc t = .encode σ.queue.claimed[p]?
  /-- With no call in progress, a `Drain` passes on everything, the oldest item first. -/
  drains : (∀ t, σ.pc t = .idle) → ∀ t, ∃ n σ',
    (machine T α).exec σ (.drain t :: steps t n) = some σ' ∧ σ'.pc t = .idle ∧
      σ'.queue.encoded = σ.queue.claimed.map some
  /-- And so does, whatever the others do, the first `Drain` to end its `Pop` loop. -/
  passes : (∀ t, σ.pc t = .idle) → ∀ es σ' t, GuardedRun (machine T α) NoRollback σ es σ' →
    σ'.pc t = .drainRelease → ∀ p < σ.queue.claimed.length,
      σ'.queue.encoded[p]? = some σ'.queue.claimed[p]?

theorem encoded_of_drained (hring : Ring q) (henc : q.encoding = false)
    (hdeq : q.dequeue = q.enqueue) : q.encoded = q.claimed.map some := by
  obtain ⟨hlen, -, -⟩ := hring.unclaimed henc
  rw [hring.encoded, List.take_of_length_le]
  rw [hlen, hdeq, hring.length_claimed]

omit [DecidableEq T] in
theorem Inv.kept (h : Inv σ) (hp : σ.queue.encoded.length ≤ p) :
    σ.queue.dequeue ≤ p ∨ ∃ t, σ.pc t = .encode σ.queue.claimed[p]? := by
  cases he : σ.queue.encoding with
  | false =>
    rw [← (h.holds.shared.unclaimed he).1]
    exact .inl hp
  | true =>
    obtain ⟨t, hd⟩ := h.claim he
    have hat := h.holds.each t
    cases hpc : σ.pc t with
    | encode item =>
      rw [hpc] at hat
      obtain ⟨-, hlen, -, -, hitem⟩ := hat
      rcases Nat.eq_or_lt_of_le hp with rfl | hlt
      · exact .inr ⟨t, by rw [hpc, hitem]⟩
      · exact .inl (by omega)
    | popLoad | popProbe | popMove | releaseLoad | releaseCell | drainRelease =>
      rw [hpc] at hat
      exact .inl (hat.1.encoded ▸ hp)
    | releaseHead item pos =>
      rw [hpc] at hat
      exact .inl (hat.2.1 ▸ hp)
    | _ =>
      rw [hpc] at hd
      exact absurd hd id

theorem Inv.drains (h : Inv σ) (hidle : ∀ t, σ.pc t = .idle) (t : T) :
    ∃ n σ', (machine T α).exec σ (.drain t :: steps t n) = some σ' ∧ σ'.pc t = .idle ∧
      σ'.queue.encoded = σ.queue.claimed.map some := by
  have hpub : ∀ p, ¬ Owned σ.queue p := fun p =>
    h.publishedBelow_of_idle hidle (p + 1) p (Nat.lt_succ_self p)
  have henc : σ.queue.encoding = false := by
    by_contra hcon
    obtain ⟨u, hu⟩ := h.claim (by simpa using hcon)
    rw [hidle u] at hu
    exact hu
  obtain ⟨n, q', hexec, hring, henc', hdeq, hclaimed⟩ :=
    exec_drain_alone _ σ.queue .drainClaim le_rfl h.holds.shared trivial henc hpub σ.pc t
  have hcall : (machine T α).step σ (.drain t) =
      some { σ with pc := Function.update σ.pc t .drainClaim } := by
    simp [machine, System.next, hidle t, Pc.isIdle]
  refine ⟨n, { queue := q', pc := Function.update σ.pc t .idle }, ?_, Function.update_self .., ?_⟩
  · rw [(machine T α).exec_cons hcall]
    exact hexec
  · rw [← hclaimed]
    exact encoded_of_drained hring henc' hdeq

theorem Inv.passes (h : Inv σ) (hidle : ∀ t, σ.pc t = .idle) {t : T}
    (hrun : GuardedRun (machine T α) NoRollback σ es σ') (hrel : σ'.pc t = .drainRelease)
    (hp : p < σ.queue.claimed.length) :
    σ'.queue.encoded[p]? = some σ'.queue.claimed[p]? := by
  have hpass : Passing σ.queue.enqueue σ := by
    refine ⟨h, le_rfl, h.publishedBelow_of_idle hidle _, fun u hu => ?_⟩
    rw [hidle u] at hu
    cases hu
  have hend := passing_run hpass hrun
  have hring := hend.inv.holds.shared
  have hat := hend.inv.holds.each t
  rw [hrel] at hat
  have hlt : p < σ'.queue.encoded.length := by
    rw [hat.1.encoded]
    rw [h.holds.shared.length_claimed] at hp
    exact hp.trans_le (hend.passed t hrel)
  have hlen := congrArg List.length hring.encoded
  rw [List.length_map, List.length_take] at hlen
  rw [hring.encoded, List.getElem?_map, List.getElem?_take, if_pos hlt,
    List.getElem?_eq_getElem (by omega), Option.map_some]

/-- **No rollback, no loss.**  In every run in which no thread stores the read cursor at the
end of a `Pop` while another one is between the load and the store of `Empty`, the queue is
in order in every state reached. -/
theorem drain_orderly (capacity : Nat) (es : List (Event T α)) (σ : System T α)
    (hrun : GuardedRun (machine T α) NoRollback (System.start T α capacity) es σ) : Orderly σ := by
  have h := inv_run (inv_start capacity) hrun
  have hring := h.holds.shared
  refine ⟨fun e σ' hok hnext => (h.next hok hnext).2, hring.encoded, fun p hp => ?_,
    fun p hp _ => h.kept hp, h.drains, fun hidle es' σ' t hrun' hrel p hp =>
      h.passes hidle hrun' hrel hp⟩
  rw [hring.length_claimed]
  exact hring.pushed p hp

/-- Whether, of two threads, the one that moves does not store the read cursor over the other's
`Empty`. -/
def keepsCursor (σ : System (Fin 2) Nat) : Event (Fin 2) Nat → Bool
  | .step t _ =>
    match σ.pc t, σ.pc (1 - t) with
    | .releaseHead _ _, .emptyStore _ => false
    | _, _ => true
  | _ => true

theorem noRollback_of_keepsCursor (σ : System (Fin 2) Nat) (e : Event (Fin 2) Nat)
    (h : keepsCursor σ e = true) : NoRollback σ e := by
  cases e with
  | push t item | drain t => trivial
  | step t spurious =>
    intro item pos hpc u hu head hstore
    obtain rfl : u = 1 - t := by omega
    simp [keepsCursor, hpc, hstore] at h

/-- Thread 0 pushes, and thread 1 drains.  While thread 1 is inside `Empty` thread 0 pushes again;
then it drains. -/
def pushesAndDrains : List (Event (Fin 2) Nat) :=
  [.push 0 10] ++ steps 0 7 ++ [.drain 1] ++ steps 1 12 ++ [.push 0 11] ++ steps 0 7 ++
    steps 1 3 ++ [.drain 0] ++ steps 0 14

theorem drain_orderly_two_threads :
    ∃ σ, GuardedRun (machine (Fin 2) Nat) NoRollback (System.start (Fin 2) Nat 2)
      pushesAndDrains σ ∧ σ.report = ⟨true, 2, 2, [0, 1], [some 10, some 11]⟩ ∧ Orderly σ := by
  have hreport : (((machine (Fin 2) Nat).guard keepsCursor).exec (System.start (Fin 2) Nat 2)
      pushesAndDrains).map System.report = some ⟨true, 2, 2, [0, 1], [some 10, some 11]⟩ := by
    decide +kernel
  obtain ⟨σ, hexec, hσ⟩ := Option.map_eq_some_iff.1 hreport
  have hrun := GuardedRun.of_guard noRollback_of_keepsCursor hexec
  exact ⟨σ, hrun, hσ, drain_orderly 2 _ σ hrun⟩

end Runs

end Queue
end Znet

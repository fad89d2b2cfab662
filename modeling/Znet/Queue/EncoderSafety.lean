import Znet.Queue.Encoder

/-!
# No stranded packet

When does a session with a dedicated encoder always have somebody going to encode what is
queued?  Besides the rollback of the read cursor one thing has to be excluded: the encoder's
`Pop` stops at a position that is claimed and not published, by a producer that has already
read a queue depth other than zero, so that nobody raises the encoder's signal afterwards.
-/

namespace Znet
namespace Queue

variable {P α : Type}

/-! ## Which thread can be where -/

/-- Between two calls or inside `Push`. -/
def Pc.Pushing : Pc α → Prop
  | .idle | .pushLoad _ | .pushProbe _ _ | .pushCas _ _ | .pushDepth _ _ | .pushWrite _ _ _
  | .pushPublish _ _ | .pushWake _ => True
  | _ => False

/-- Between two calls or inside `Drain`. -/
def Pc.Popping : Pc α → Prop
  | .pushLoad _ | .pushProbe _ _ | .pushCas _ _ | .pushDepth _ _ | .pushWrite _ _ _
  | .pushPublish _ _ | .pushWake _ => False
  | _ => True

/-- Producers push, the encoder and the client's loop drain. -/
def Place.Fits : Thread P → Place α → Prop
  | .producer _, .at pc => pc.Pushing
  | .producer _, .raiseOwner r | .producer _, .raiseLock r | .producer _, .raiseSet r
  | .producer _, .raiseUnlock r | .producer _, .raiseDone r => ∃ pos, r = .pushWake pos
  | .producer _, _ => False
  | _, .at pc => pc.Popping
  | _, .raiseOwner r | _, .raiseLock r | _, .raiseSet r | _, .raiseUnlock r
  | _, .raiseDone r => r = .drainWake
  | .client, .procHead | .client, .procTail _ => True
  | .client, _ => False
  | .encoder, .procHead | .encoder, .procTail _ => False
  | .encoder, _ => True

variable {pc : Pc α}

variable (q : OutboundQueue α) (spurious : Bool)

theorem tick_pushing (h : pc.Pushing) : (tick q spurious pc).2.Pushing := by
  cases pc with
  | pushProbe | pushCas =>
    rw [tick]
    split
    · trivial
    · first | trivial | (split <;> trivial)
  | pushPublish pos first => cases first <;> trivial
  | idle | pushLoad | pushDepth | pushWrite | pushWake => trivial
  | _ => exact h.elim

theorem tick_popping (h : pc.Popping) : (tick q spurious pc).2.Popping := by
  cases pc with
  | drainClaim | popProbe | emptyCheck =>
    rw [tick]
    split <;> trivial
  | pushLoad | pushProbe | pushCas | pushDepth | pushWrite | pushPublish | pushWake => exact h.elim
  | _ => trivial

theorem Place.fits_tick {t : Thread P}
    (h : Place.Fits t (.at pc)) : Place.Fits t (.at (tick q spurious pc).2) := by
  cases t with
  | producer p => exact tick_pushing q spurious h
  | encoder | client => exact tick_popping q spurious h

/-! ## Who attends to the queue -/

/-- The thread is going to raise the encoder's signal. -/
def Place.WillWake (q : OutboundQueue α) : Place α → Prop
  | .at (.pushDepth _ pos) => pos = q.dequeue
  | .at (.pushWrite _ _ first) | .at (.pushPublish _ first) => first = true
  | .at (.pushWake _) | .at .drainWake | .raiseOwner _ | .raiseLock _ | .raiseSet _ => True
  | _ => False

/-- The encoder has not yet seen the end of the queue. -/
def Place.Searching : Place α → Prop
  | .encStart | .encReset | .encUnlock => True
  | .at .drainClaim | .at .popLoad | .at (.popProbe _) | .at (.popMove _)
  | .at (.releaseLoad _ _) | .at (.releaseCell _ _ _) | .at (.releaseHead _ _)
  | .at (.encode _) => True
  | _ => False

/-- The client's loop holds the claim, or is about to look whether the queue is empty. -/
def Place.Closing : Place α → Prop
  | .at .emptyLoad | .at (.emptyStore _) | .at (.emptyCheck _) => True
  | .at pc => pc.Draining
  | _ => False

/-- From here the thread wakes the encoder or drains the queue.  The encoder's own raise of
its signal does nothing, so it does not count. -/
def Attends (q : OutboundQueue α) : Thread P → Place α → Prop
  | .producer _, place => place.WillWake q
  | .client, place => place.WillWake q ∨ place.Closing
  | .encoder, place => place.Searching

/-! ## The invariant -/

/-- The steps that are allowed: no rollback of the read cursor, and when the encoder's `Pop`
stops at a position, another thread attends to the queue, or the producer that has claimed the
position has not read a depth other than zero. -/
def Timely [DecidableEq P] (σ : Session P α) : Act P α → Prop
  | .step t spurious =>
    NoRollback σ.system (.step t spurious) ∧
    ∀ pos, t = .encoder → σ.place t = .at (.popProbe pos) →
      (σ.queue.cell pos).sequence ≠ pos + 1 →
      (∃ u ≠ t, Attends σ.queue u (σ.place u)) ∨
        ∀ u, (∀ item, σ.place u ≠ .at (.pushWrite item pos false)) ∧
          σ.place u ≠ .at (.pushPublish pos false)
  | _ => True

/-- While something is queued, a wake is pending or some thread attends to the queue. -/
def Covered (σ : Session P α) : Prop :=
  σ.queue.dequeue < σ.queue.enqueue →
    σ.woken = true ∨ ∃ t, Attends σ.queue t (σ.place t)

structure SessionInv (σ : Session P α) : Prop where
  inv : Inv σ.system
  fits : ∀ t, Place.Fits t (σ.place t)
  owner : ∀ t, σ.owner = some t → t = .encoder
  covered : Covered σ

theorem sessionInv_start (capacity : Nat) : SessionInv (Session.start P α capacity) where
  inv := by
    have hsystem : (Session.start P α capacity).system = System.start (Thread P) α capacity := by
      simp only [Session.system, Session.start, System.start, System.mk.injEq, true_and]
      funext t
      cases t <;> rfl
    rw [hsystem]
    exact inv_start capacity
  fits t := by cases t <;> trivial
  owner t h := by cases h
  covered h := absurd h (lt_irrefl 0)

section Steps

variable [DecidableEq P] {σ : Session P α} {t : Thread P}

/-- A step that leaves the queue alone: what was pending before it is pending after it. -/
theorem Covered.silent (h : Covered σ) (place : Place α) (woken : Bool)
    (owner mutex : Option (Thread P))
    (hwoken : σ.woken = true → woken = true ∨ Attends σ.queue t place)
    (hown : Attends σ.queue t (σ.place t) → woken = true ∨ Attends σ.queue t place) :
    Covered (Session.goto ⟨σ.queue, woken, owner, mutex, σ.place⟩ t place) := by
  have hself : Attends σ.queue t place →
      ∃ u, Attends σ.queue u (Function.update σ.place t place u) :=
    fun ha => ⟨t, by rwa [Function.update_self]⟩
  intro hitem
  rcases h hitem with hw | ⟨u, hu⟩
  · exact (hwoken hw).imp id hself
  · by_cases hut : u = t
    · subst hut
      exact (hown hu).imp id hself
    · exact .inr ⟨u, by simpa [Session.goto, hut] using hu⟩

variable {place : Place α} {pc : Pc α} {q : OutboundQueue α} {u : Thread P}

theorem fits_goto (h : ∀ u, Place.Fits u (σ.place u)) (hfits : Place.Fits t place) (u : Thread P) :
    Place.Fits u (Function.update σ.place t place u) := by
  by_cases hut : u = t
  · subst hut
    rwa [Function.update_self]
  · rw [Function.update_of_ne hut]
    exact h u

/-- A step outside the queue's code. -/
theorem SessionInv.silent (h : SessionInv σ) (place : Place α) (woken : Bool)
    (owner mutex : Option (Thread P)) (hpc : place.pc = (σ.place t).pc)
    (hfits : Place.Fits t place) (howner : ∀ u, owner = some u → u = .encoder)
    (hwoken : σ.woken = true → woken = true ∨ Attends σ.queue t place)
    (hown : Attends σ.queue t (σ.place t) → woken = true ∨ Attends σ.queue t place) :
    SessionInv (Session.goto ⟨σ.queue, woken, owner, mutex, σ.place⟩ t place) where
  inv := by
    have hsystem : (Session.goto ⟨σ.queue, woken, owner, mutex, σ.place⟩ t place).system =
        σ.system := by
      rw [Session.system_goto, hpc]
      exact congrArg (System.mk σ.queue) (Function.update_eq_self t _)
    rw [hsystem]
    exact h.inv
  fits := fits_goto h.fits hfits
  owner := howner
  covered := h.covered.silent place woken owner mutex hwoken hown

/-- A thread between two calls enters the queue's code. -/
theorem SessionInv.call (h : SessionInv σ) (owner mutex : Option (Thread P))
    (hidle : (σ.place t).pc = .idle) (hpc : pc = .drainClaim ∨ ∃ item, pc = .pushLoad item)
    (hfits : Place.Fits t (.at pc)) (howner : ∀ u, owner = some u → u = .encoder)
    (hown : Attends σ.queue t (σ.place t) → Attends σ.queue t (.at pc)) :
    SessionInv (Session.goto ⟨σ.queue, σ.woken, owner, mutex, σ.place⟩ t (.at pc)) where
  inv := by
    rw [Session.system_goto]
    refine h.inv.update t ?_ fun _ _ _ _ => rfl
    show StepOk σ.queue (σ.place t).pc σ.queue pc
    rw [hidle]
    rcases hpc with rfl | ⟨item, rfl⟩
    · exact .silent h.inv.holds.shared trivial Iff.rfl fun _ => Iff.rfl
    · exact .silent h.inv.holds.shared trivial Iff.rfl fun _ => Iff.rfl
  fits := fits_goto h.fits hfits
  owner := howner
  covered := h.covered.silent _ _ owner mutex .inl fun ha => .inr (hown ha)

/-! ## Steps in the queue's code -/

/-- Only the compare-exchange of `Push` claims a position. -/
theorem enqueue_tick {spurious : Bool} (h : q.enqueue < (tick q spurious pc).1.enqueue) :
    ∃ item, pc = .pushCas item q.enqueue ∧
      (tick q spurious pc).2 = .pushDepth item q.enqueue := by
  cases pc with
  | pushCas item pos =>
    rw [tick] at h ⊢
    split at h
    · next hcas =>
      obtain ⟨rfl, hs⟩ := hcas
      exact ⟨item, rfl, by rw [if_pos ⟨rfl, hs⟩]⟩
    · exact absurd h (lt_irrefl _)
  | pushProbe | drainClaim | popProbe | emptyCheck =>
    rw [tick] at h
    split at h
    · exact absurd h (lt_irrefl _)
    · first | exact absurd h (lt_irrefl _) | (split at h <;> exact absurd h (lt_irrefl _))
  | pushPublish pos first => cases first <;> exact absurd h (lt_irrefl _)
  | _ => exact absurd h (lt_irrefl _)

theorem Place.WillWake.congr {q' : OutboundQueue α} (h : place.WillWake q)
    (hq : ∀ item, place = .at (.pushDepth item q.dequeue) → q'.dequeue = q.dequeue) :
    place.WillWake q' := by
  cases place with
  | «at» pc =>
    cases pc with
    | pushDepth item pos =>
      obtain rfl : pos = q.dequeue := h
      exact (hq item rfl).symm
    | _ => exact h
  | _ => exact h

omit [DecidableEq P] in
/-- A producer that will find itself first keeps the read cursor where it is. -/
theorem Inv.dequeue_tick_of_pushDepth (h : Inv σ.system) {item : α}
    (hu : σ.place u = .at (.pushDepth item σ.queue.dequeue)) (t : Thread P) (spurious : Bool) :
    (tick σ.queue spurious (σ.place t).pc).1.dequeue = σ.queue.dequeue := by
  have hown : At σ.queue (σ.place u).pc := h.holds.each u
  rw [hu] at hown
  refine dequeue_tick (h.holds.each t) spurious fun item' pos hrel => ?_
  have hat := h.holds.each t
  rw [hrel] at hat
  have hfreed : σ.queue.freed ≤ σ.queue.dequeue := hown.1.freed_le
  have hmoved : σ.queue.freed = σ.queue.dequeue + 1 := hat.2.2.1
  omega

omit [DecidableEq P] in
/-- The others still attend to the queue. -/
theorem Attends.others (h : Inv σ.system) (hu : Attends σ.queue u (σ.place u)) (t : Thread P)
    (spurious : Bool) :
    Attends (tick σ.queue spurious (σ.place t).pc).1 u (σ.place u) := by
  have hq : ∀ item, σ.place u = .at (.pushDepth item σ.queue.dequeue) →
      (tick σ.queue spurious (σ.place t).pc).1.dequeue = σ.queue.dequeue :=
    fun _ hplace => h.dequeue_tick_of_pushDepth hplace t spurious
  cases u with
  | producer p => exact Place.WillWake.congr hu hq
  | encoder => exact hu
  | client => exact hu.imp (fun hw => hw.congr hq) id

/-- **An access of the queue's code.** -/
theorem SessionInv.tick (h : SessionInv σ) {spurious : Bool}
    (hok : NoRollback σ.system (.step t spurious)) (hpc : (σ.place t).pc = pc) (hidle : pc ≠ .idle)
    (hfits : Place.Fits t (.at pc)) (hown : Attends σ.queue t (σ.place t) →
      (Queue.tick σ.queue spurious pc).1.dequeue < (Queue.tick σ.queue spurious pc).1.enqueue →
      Attends (Queue.tick σ.queue spurious pc).1 t (.at (Queue.tick σ.queue spurious pc).2) ∨
      ∃ u ≠ t, Attends σ.queue u (σ.place u)) :
    SessionInv (σ.tick t spurious pc) := by
  subst hpc
  have hnext : σ.system.next (.step t spurious) =
      some (σ.tick t spurious (σ.place t).pc).system := by
    have hi : (σ.system.pc t).isIdle = false := by
      rw [Bool.eq_false_iff, ne_eq, Pc.isIdle_iff]
      exact hidle
    rw [System.next, hi, Session.tick, Session.system_goto]
    rfl
  obtain ⟨hinv, hle⟩ := h.inv.next hok hnext
  have hself : Attends (Queue.tick σ.queue spurious (σ.place t).pc).1 t
        (.at (Queue.tick σ.queue spurious (σ.place t).pc).2) →
      ∃ u, Attends (σ.tick t spurious (σ.place t).pc).queue u
        ((σ.tick t spurious (σ.place t).pc).place u) :=
    fun ha => ⟨t, by simpa [Session.tick, Session.goto] using ha⟩
  have hother : ∀ u ≠ t, Attends σ.queue u (σ.place u) →
      ∃ u, Attends (σ.tick t spurious (σ.place t).pc).queue u
        ((σ.tick t spurious (σ.place t).pc).place u) := fun u hu ha =>
    ⟨u, by simpa [Session.tick, Session.goto, hu] using ha.others h.inv t spurious⟩
  refine ⟨hinv, fits_goto h.fits (Place.fits_tick _ _ hfits), h.owner, fun hitem => ?_⟩
  by_cases hbefore : σ.queue.dequeue < σ.queue.enqueue
  · rcases h.covered hbefore with hw | ⟨u, hu⟩
    · exact .inl hw
    · by_cases hut : u = t
      · subst hut
        rcases hown hu hitem with ha | ⟨v, hv, ha⟩
        · exact .inr (hself ha)
        · exact .inr (hother v hv ha)
      · exact .inr (hother u hut hu)
  · -- the queue was empty, so this is the claim of its first position
    have hring := h.inv.holds.shared
    have hempty : σ.queue.dequeue = σ.queue.enqueue :=
      le_antisymm (hring.dequeue_le.trans hring.freed_le) (Nat.le_of_not_lt hbefore)
    obtain ⟨item, hcas, hdepth⟩ := enqueue_tick (lt_of_le_of_lt (hempty.ge.trans hle) hitem)
    refine .inr (hself ?_)
    have hdeq := dequeue_tick (h.inv.holds.each t) spurious fun i p hrel => by
      have hrel : (σ.place t).pc = .releaseHead i p := hrel
      rw [hcas] at hrel
      cases hrel
    rw [hdepth]
    rw [hcas] at hfits
    cases t with
    | producer p => exact hempty.symm.trans hdeq.symm
    | encoder | client => exact hfits.elim

/-! ## The hand-overs -/

omit [DecidableEq P] in
/-- A thread that holds the claim or owns a position is in the queue's code itself. -/
theorem Place.Fits.eq_at (h : Place.Fits t place) (hin : place.pc.Draining ∨ ∃ p, place.pc.Owns p) :
    place = .at place.pc := by
  cases place with
  | «at» pc => rfl
  | raiseOwner r | raiseLock r | raiseSet r | raiseUnlock r | raiseDone r =>
    cases t with
    | producer p =>
      obtain ⟨pos, rfl⟩ := h
      simp [Place.pc, Pc.Draining, Pc.Owns] at hin
    | encoder | client =>
      obtain rfl : r = .drainWake := h
      simp [Place.pc, Pc.Draining, Pc.Owns] at hin
  | _ => simp [Place.pc, Pc.Draining, Pc.Owns] at hin

omit [DecidableEq P] in
/-- Whoever else holds the claim while the encoder does not is the client's loop. -/
theorem SessionInv.closing_of_encoding (h : SessionInv σ) (henc : σ.queue.encoding = true)
    (hnot : ¬ (σ.place .encoder).pc.Draining) : (σ.place .client).Closing := by
  obtain ⟨u, hu⟩ := h.inv.claim henc
  have hu : (σ.place u).pc.Draining := hu
  have hfits := h.fits u
  have hat := hfits.eq_at (.inl hu)
  rw [hat] at hfits
  cases u with
  | producer p =>
    have hfits : (σ.place (.producer p)).pc.Pushing := hfits
    cases hpc : (σ.place (.producer p)).pc <;> rw [hpc] at hu hfits <;>
      first | exact hu.elim | exact hfits.elim
  | encoder => exact absurd hu hnot
  | client =>
    rw [hat]
    cases hpc : (σ.place .client).pc <;> rw [hpc] at hu <;> first | exact hu.elim | trivial

omit [DecidableEq P] in
/-- The producer that holds up the head of the queue will raise the signal, unless it has
read a depth other than zero. -/
theorem SessionInv.owner_wakes (h : SessionInv σ) (ho : Owned σ.queue σ.queue.dequeue)
    (hfirst : ∀ u, (∀ item, σ.place u ≠ .at (.pushWrite item σ.queue.dequeue false)) ∧
      σ.place u ≠ .at (.pushPublish σ.queue.dequeue false)) :
    ∃ p, (σ.place (.producer p)).WillWake σ.queue := by
  obtain ⟨u, hu⟩ := h.inv.owner _ ho
  have hu : (σ.place u).pc.Owns σ.queue.dequeue := hu
  have hfits := h.fits u
  have hat := hfits.eq_at (.inr ⟨_, hu⟩)
  rw [hat] at hfits
  cases u with
  | producer p =>
    refine ⟨p, ?_⟩
    cases hpc : (σ.place (.producer p)).pc with
    | pushDepth item pos =>
      rw [hpc] at hat hu
      rw [hat]
      exact hu
    | pushWrite item pos first =>
      rw [hpc] at hat hu
      obtain rfl : pos = σ.queue.dequeue := hu
      cases first with
      | true => rw [hat]; rfl
      | false => exact absurd hat ((hfirst _).1 item)
    | pushPublish pos first =>
      rw [hpc] at hat hu
      obtain rfl : pos = σ.queue.dequeue := hu
      cases first with
      | true => rw [hat]; rfl
      | false => exact absurd hat (hfirst _).2
    | _ =>
      rw [hpc] at hu
      exact hu.elim
  | encoder =>
    have hfits : (σ.place .encoder).pc.Popping := hfits
    cases hpc : (σ.place .encoder).pc <;> rw [hpc] at hu hfits <;>
      first | exact hu.elim | exact hfits.elim
  | client =>
    have hfits : (σ.place .client).pc.Popping := hfits
    cases hpc : (σ.place .client).pc <;> rw [hpc] at hu hfits <;>
      first | exact hu.elim | exact hfits.elim

/-- The encoder goes on, or leaves the queue to somebody else. -/
theorem SessionInv.searching_tick (h : SessionInv σ) {spurious : Bool}
    (hok : Timely σ (.step .encoder spurious)) (hplace : σ.place .encoder = .at pc)
    (hs : Place.Searching (.at pc)) (hitem : (Queue.tick σ.queue spurious pc).1.dequeue <
      (Queue.tick σ.queue spurious pc).1.enqueue) :
    Place.Searching (.at (Queue.tick σ.queue spurious pc).2) ∨
      ∃ u ≠ Thread.encoder, Attends σ.queue u (σ.place u) := by
  have hat : At σ.queue (σ.place .encoder).pc := h.inv.holds.each _
  rw [hplace] at hat
  cases pc with
  | drainClaim =>
    rw [Queue.tick] at hitem ⊢
    split
    · next henc =>
      -- the exchange fails, so the client's loop has the claim
      have hclient := h.closing_of_encoding henc (by rw [hplace]; exact id)
      exact .inr ⟨.client, by simp, .inr hclient⟩
    · exact .inl trivial
  | popProbe pos =>
    obtain ⟨hheld, -, rfl⟩ := hat
    rw [Queue.tick] at hitem ⊢
    split
    · exact .inl trivial
    · next hseq =>
      -- the head is claimed and not published, so its owner is still inside `Push`
      rw [if_neg hseq] at hitem
      have hbusy := h.inv.holds.shared.busy _ hheld.freed.le hitem
      rcases hok.2 _ rfl hplace hseq with hattends | hfirst
      · exact .inr hattends
      · obtain ⟨p, hp⟩ :=
          h.owner_wakes ⟨hheld.freed.le, hitem, hbusy.resolve_right hseq⟩ hfirst
        exact .inr ⟨.producer p, by simp, hp⟩
  | popLoad | popMove | releaseLoad | releaseCell | releaseHead | encode => exact .inl trivial
  | _ => exact hs.elim

/-- The client's loop goes on until it has seen an empty queue or raises the signal. -/
theorem closing_tick {spurious : Bool} (hat : At q pc) (hc : Place.Closing (.at pc))
    (hitem : (Queue.tick q spurious pc).1.dequeue < (Queue.tick q spurious pc).1.enqueue) :
    Place.WillWake (Queue.tick q spurious pc).1 (.at (Queue.tick q spurious pc).2) ∨
      Place.Closing (.at (Queue.tick q spurious pc).2) := by
  cases pc with
  | popProbe pos =>
    rw [Queue.tick]
    split <;> exact .inr trivial
  | emptyCheck head =>
    rw [Queue.tick] at hitem ⊢
    split
    · next heq =>
      rw [if_pos heq] at hitem
      have hle : head ≤ q.dequeue := hat
      exact absurd (heq.le.trans hle) (Nat.not_le.2 hitem)
    · exact .inl trivial
  | popLoad | popMove | releaseLoad | releaseCell | releaseHead | encode | drainRelease
  | emptyLoad | emptyStore => exact .inr trivial
  | _ => exact hc.elim

/-- A producer on its way to raise the signal stays on it. -/
theorem willWake_tick {spurious : Bool} (hpush : pc.Pushing) (hwake : ∀ pos, pc ≠ .pushWake pos)
    (hw : Place.WillWake q (.at pc)) :
    Place.WillWake (Queue.tick q spurious pc).1 (.at (Queue.tick q spurious pc).2) := by
  cases pc with
  | pushDepth item pos => exact decide_eq_true hw
  | pushWrite item pos first => exact hw
  | pushPublish pos first =>
    obtain rfl : first = true := hw
    trivial
  | pushWake pos => exact absurd rfl (hwake pos)
  | drainWake => exact hpush.elim
  | _ => exact hw.elim

/-- **Attention is kept.** -/
theorem SessionInv.attends_tick (h : SessionInv σ) {spurious : Bool}
    (hok : Timely σ (.step t spurious)) (hplace : σ.place t = .at pc)
    (hpush : ∀ pos, pc ≠ .pushWake pos) (hdrain : pc ≠ .drainWake) (ha : Attends σ.queue t (.at pc))
    (hitem : (Queue.tick σ.queue spurious pc).1.dequeue <
      (Queue.tick σ.queue spurious pc).1.enqueue) :
    Attends (Queue.tick σ.queue spurious pc).1 t (.at (Queue.tick σ.queue spurious pc).2) ∨
      ∃ u ≠ t, Attends σ.queue u (σ.place u) := by
  have hfits := h.fits t
  rw [hplace] at hfits
  cases t with
  | producer p => exact .inl (willWake_tick hfits hpush ha)
  | encoder => exact h.searching_tick hok hplace ha hitem
  | client =>
    have hat : At σ.queue (σ.place .client).pc := h.inv.holds.each _
    rw [hplace] at hat
    rcases ha with hw | hc
    · have hfits : pc.Popping := hfits
      cases pc <;> first | exact hw.elim | exact hfits.elim | exact absurd rfl hdrain
    · exact .inl (closing_tick hat hc hitem)

/-! ## Whole runs -/

theorem Session.step_at (hplace : σ.place t = .at pc) (spurious : Bool) (hidle : pc ≠ .idle)
    (hpush : ∀ pos, pc ≠ .pushWake pos) (hdrain : pc ≠ .drainWake) :
    σ.step t spurious = some (σ.tick t spurious pc) := by
  cases pc with
  | idle => exact absurd rfl hidle
  | pushWake pos => exact absurd rfl (hpush pos)
  | drainWake => exact absurd rfl hdrain
  | _ => simp only [Session.step, hplace]

/-- A step outside the queue's code that touches nothing but the mutex. -/
theorem SessionInv.keep (h : SessionInv σ) {old : Place α} (hplace : σ.place t = old)
    (place : Place α) (mutex : Option (Thread P)) (hpc : place.pc = old.pc)
    (hfits : Place.Fits t place) (hown : Attends σ.queue t old → Attends σ.queue t place) :
    SessionInv (Session.goto ⟨σ.queue, σ.woken, σ.owner, mutex, σ.place⟩ t place) := by
  subst hplace
  exact h.silent place σ.woken σ.owner mutex hpc hfits h.owner .inl fun ha => .inr (hown ha)

section OneStep

variable {spurious : Bool} {σ' : Session P α}

variable {pc r : Pc α}

variable (h : SessionInv σ)
include h

/-- At the end of a call that wakes the encoder, the callback is entered. -/
theorem SessionInv.step_wake (hplace : σ.place t = .at pc)
    (hpc : (∃ pos, pc = .pushWake pos) ∨ pc = .drainWake) :
    SessionInv (σ.goto t (.raiseOwner pc)) := by
  have hfits := h.fits t
  rw [hplace] at hfits
  refine h.keep hplace (.raiseOwner pc) σ.mutex rfl ?_ ?_
  · rcases hpc with ⟨pos, rfl⟩ | rfl
    · cases t with
      | producer p => exact ⟨pos, rfl⟩
      | encoder | client => exact hfits.elim
    · cases t with
      | producer p => exact hfits.elim
      | encoder | client => rfl
  · intro ha
    cases t with
    | producer p => trivial
    | client => exact .inl trivial
    | encoder => rcases hpc with ⟨pos, rfl⟩ | rfl <;> exact ha.elim

/-- A step in the queue's code. -/
theorem SessionInv.step_queue (hplace : σ.place t = .at pc)
    (hok : Timely σ (.step t spurious)) (hstep : σ.step t spurious = some σ') :
    SessionInv σ' := by
  by_cases hidle : pc = .idle
  · subst hidle
    simp only [Session.step, hplace] at hstep
    obtain ⟨ht, hstep⟩ := Option.ite_none_right_eq_some.1 hstep
    subst ht
    cases hstep
    exact h.keep hplace .encLock σ.mutex rfl trivial id
  by_cases hdrain : pc = .drainWake
  · subst hdrain
    simp only [Session.step, hplace] at hstep
    cases hstep
    exact h.step_wake hplace (.inr rfl)
  by_cases hpush : ∃ pos, pc = .pushWake pos
  · obtain ⟨pos, rfl⟩ := hpush
    simp only [Session.step, hplace] at hstep
    cases hstep
    exact h.step_wake hplace (.inl ⟨pos, rfl⟩)
  have hpush : ∀ pos, pc ≠ .pushWake pos := fun pos heq => hpush ⟨pos, heq⟩
  rw [Session.step_at hplace spurious hidle hpush hdrain] at hstep
  cases hstep
  have hfits := h.fits t
  rw [hplace] at hfits
  refine h.tick hok.1 (by rw [hplace]; rfl) hidle hfits fun ha => ?_
  rw [hplace] at ha
  exact h.attends_tick hok hplace hpush hdrain ha

/-- The wake callback returns to the end of `Push` or `Drain`. -/
theorem SessionInv.step_raiseDone (hplace : σ.place t = .raiseDone r)
    (hok : NoRollback σ.system (.step t false)) : SessionInv (σ.tick t false r) := by
  have hfits := h.fits t
  rw [hplace] at hfits
  refine h.tick hok (by rw [hplace]; rfl) ?_ ?_ fun ha => ?_
  · rintro rfl
    cases t with
    | producer p => exact absurd hfits (by rintro ⟨pos, hpos⟩; cases hpos)
    | encoder | client => cases hfits
  · cases t with
    | producer p =>
      obtain ⟨pos, rfl⟩ := hfits
      trivial
    | encoder | client =>
      obtain rfl : r = .drainWake := hfits
      trivial
  · rw [hplace] at ha
    cases t with
    | producer p | encoder => exact ha.elim
    | client => exact (ha.elim id id).elim

/-- A step of `Raise`. -/
theorem SessionInv.step_raise
    (hplace : σ.place t = .raiseOwner r ∨ σ.place t = .raiseLock r ∨ σ.place t = .raiseSet r ∨
      σ.place t = .raiseUnlock r ∨ σ.place t = .raiseDone r) (hok : Timely σ (.step t spurious))
    (hstep : σ.step t spurious = some σ') :
    SessionInv σ' := by
  have hfits := h.fits t
  rcases hplace with hp | hp | hp | hp | hp <;> rw [hp] at hfits <;>
    simp only [Session.step, hp] at hstep
  · split at hstep
    · next howner =>
      -- the signal's owner is the encoder, whose own raise counts for nothing
      obtain rfl := h.owner t howner
      cases hstep
      exact h.keep hp (.raiseDone r) σ.mutex rfl hfits False.elim
    · cases hstep
      cases t <;> exact h.keep hp (.raiseLock r) σ.mutex rfl hfits id
  · split at hstep
    · cases hstep
      cases t <;> exact h.keep hp (.raiseSet r) _ rfl hfits id
    · cases hstep
  · cases hstep
    refine h.silent (.raiseUnlock r) true σ.owner σ.mutex (by rw [hp]; rfl) ?_ h.owner
      (fun _ => .inl rfl) fun _ => .inl rfl
    cases t <;> exact hfits
  · cases hstep
    cases t <;> exact h.keep hp (.raiseDone r) none rfl hfits id
  · cases hstep
    exact h.step_raiseDone hp hok.1

/-- A step of the encoder's loop. -/
theorem SessionInv.step_loop
    (hplace : σ.place .encoder ∈ [.encStart, .encLock, .encTest, .encBlocked, .encReset,
      .encUnlock])
    (hstep : σ.step .encoder spurious = some σ') : SessionInv σ' := by
  simp only [List.mem_cons, List.not_mem_nil, or_false] at hplace
  rcases hplace with hp | hp | hp | hp | hp | hp <;> simp only [Session.step, hp] at hstep
  · cases hstep
    exact h.call (some .encoder) σ.mutex (by rw [hp]; rfl) (.inl rfl) trivial
      (fun u hu => (Option.some.inj hu).symm) fun _ => trivial
  · split at hstep
    · cases hstep
      exact h.keep hp .encTest _ rfl trivial id
    · cases hstep
  · split at hstep
    · cases hstep
      exact h.keep hp .encReset σ.mutex rfl trivial False.elim
    · cases hstep
      exact h.keep hp .encBlocked none rfl trivial id
  · split at hstep
    · cases hstep
      exact h.keep hp .encTest _ rfl trivial id
    · cases hstep
  · -- the flag is lost, but the encoder now drains before it tests it again
    cases hstep
    exact h.silent .encUnlock false σ.owner σ.mutex (by rw [hp]; rfl) trivial h.owner
      (fun _ => .inr trivial) fun _ => .inr trivial
  · cases hstep
    exact h.call σ.owner none (by rw [hp]; rfl) (.inl rfl) trivial h.owner fun _ => trivial

/-- The two loads of `ShouldEncodeInline`. -/
theorem SessionInv.step_process
    (hplace : σ.place .client = .procHead ∨ ∃ head, σ.place .client = .procTail head)
    (hstep : σ.step .client spurious = some σ') : SessionInv σ' := by
  rcases hplace with hp | ⟨head, hp⟩ <;> simp only [Session.step, hp] at hstep
  · cases hstep
    exact h.keep hp (.procTail σ.queue.dequeue) σ.mutex rfl trivial id
  · split at hstep
    · cases hstep
      refine h.call σ.owner σ.mutex (by rw [hp]; rfl) (.inl rfl) trivial h.owner ?_
      rw [hp]
      exact fun ha => (ha.elim id id).elim
    · cases hstep
      exact h.keep hp (.at .idle) σ.mutex rfl trivial fun ha => (ha.elim id id).elim

/-- **One step of one thread.** -/
theorem SessionInv.step (hok : Timely σ (.step t spurious))
    (hstep : σ.step t spurious = some σ') : SessionInv σ' := by
  have hfits := h.fits t
  cases hp : σ.place t with
  | «at» pc => exact h.step_queue hp hok hstep
  | raiseOwner r | raiseLock r | raiseSet r | raiseUnlock r | raiseDone r =>
    exact h.step_raise (r := r) (by simp [hp]) hok hstep
  | encStart | encLock | encTest | encBlocked | encReset | encUnlock =>
    rw [hp] at hfits
    cases t with
    | producer p | client => exact hfits.elim
    | encoder => exact h.step_loop (by simp [hp]) hstep
  | procHead | procTail =>
    rw [hp] at hfits
    cases t with
    | producer p | encoder => exact hfits.elim
    | client => exact h.step_process (by simp [hp]) hstep

/-- **One event.** -/
theorem SessionInv.next {a : Act P α} (hok : Timely σ a)
    (hnext : σ.next a = some σ') : SessionInv σ' := by
  cases a with
  | push p item =>
    obtain ⟨hidle, hnext⟩ := Option.ite_none_right_eq_some.1 hnext
    have hidle := Place.isIdle_iff.1 hidle
    cases hnext
    refine h.call σ.owner σ.mutex (by rw [hidle]; rfl) (.inr ⟨item, rfl⟩) trivial h.owner ?_
    rw [hidle]
    exact False.elim
  | process =>
    obtain ⟨hidle, ⟨⟩⟩ := Option.ite_none_right_eq_some.1 hnext
    exact h.keep (Place.isIdle_iff.1 hidle) .procHead σ.mutex rfl trivial
      fun ha => (ha.elim id id).elim
  | step t spurious => exact h.step hok hnext

end OneStep

theorem sessionInv_run {σ' : Session P α} {es : List (Act P α)} (h : SessionInv σ)
    (hrun : GuardedRun (sessionMachine P α) Timely σ es σ') : SessionInv σ' :=
  hrun.invariant (fun _ _ _ hi hok hnext => SessionInv.next hi hok hnext) h

/-- **No stranded packet.**  In every run of allowed steps: when no producer is inside `Push`,
the encoder is blocked and the client's loop is between two calls, a queued packet has a
wake pending, or is encoded by the next `Process`. -/
theorem no_stranded_packet (capacity : Nat) (es : List (Act P α)) (σ : Session P α)
    (hrun : GuardedRun (sessionMachine P α) Timely (Session.start P α capacity) es σ)
    (hproducers : ∀ p, σ.place (.producer p) = .at .idle)
    (hencoder : σ.place .encoder = .encBlocked)
    (hclient : σ.place .client = .at .idle) (hitem : σ.queue.dequeue < σ.queue.enqueue) :
    σ.woken = true ∨ shouldEncodeInline true σ.queue.dequeue σ.queue.enqueue = true := by
  refine .inl (((sessionInv_run (sessionInv_start capacity) hrun).covered hitem).resolve_right ?_)
  rintro ⟨t, ht⟩
  cases t with
  | producer p =>
    rw [hproducers p] at ht
    exact ht
  | encoder =>
    rw [hencoder] at ht
    exact ht
  | client =>
    rw [hclient] at ht
    exact ht.elim id id

end Steps

/-! ## A session in which one thread moves at a time -/

/-- Outside the queue's code and the signal. -/
def Place.quiet : Place α → Bool
  | .at .idle | .encStart | .encBlocked => true
  | _ => false

theorem Place.pc_of_quiet {place : Place α} (h : place.quiet = true) : place.pc = .idle := by
  cases place with
  | «at» pc => cases pc <;> first | rfl | cases h
  | _ => first | rfl | cases h

theorem timely_of_quiet [DecidableEq P] {σ : Session P α} {t : Thread P} (spurious : Bool)
    (h : ∀ u ≠ t, (σ.place u).quiet = true) : Timely σ (.step t spurious) := by
  refine ⟨fun item pos _ u hu head hstore => ?_, fun pos ht hplace _ => .inr fun u => ?_⟩
  · have hpc : (σ.place u).pc = .emptyStore head := hstore
    rw [Place.pc_of_quiet (h u hu)] at hpc
    cases hpc
  · by_cases hut : u = t
    · subst hut
      rw [hplace]
      simp
    · have hpc := Place.pc_of_quiet (h u hut)
      refine ⟨fun item hp => ?_, fun hp => ?_⟩ <;> rw [hp] at hpc <;> cases hpc

/-- Whether every thread but the one that moves is quiet. -/
def alone (σ : Session (Fin 2) Nat) : Act (Fin 2) Nat → Bool
  | .step t _ => [.producer 0, .producer 1, .encoder, .client].all fun u =>
    decide (u = t) || (σ.place u).quiet
  | _ => true

theorem timely_of_alone (σ : Session (Fin 2) Nat) (a : Act (Fin 2) Nat) (h : alone σ a = true) :
    Timely σ a := by
  cases a with
  | push p item | process => trivial
  | step t spurious =>
    refine timely_of_quiet spurious fun u hu => ?_
    have hmem : u ∈ [Thread.producer (0 : Fin 2), .producer 1, .encoder, .client] := by
      cases u with
      | producer p => fin_cases p <;> simp
      | encoder => simp
      | client => simp
    simpa [hu] using List.all_eq_true.1 h u hmem

/-- The encoder goes to sleep and a producer pushes: the packet is queued and the wake is
pending. -/
theorem no_stranded_packet_pushed :
    ∃ es σ, GuardedRun (sessionMachine (Fin 2) Nat) Timely (Session.start (Fin 2) Nat 4) es σ ∧
      σ.queue.dequeue < σ.queue.enqueue ∧
      (σ.woken = true ∨ shouldEncodeInline true σ.queue.dequeue σ.queue.enqueue = true) := by
  have hreport : (((sessionMachine (Fin 2) Nat).guard alone).exec (Session.start (Fin 2) Nat 4)
      (go .encoder 11 ++ [.push 0 10] ++ go (.producer 0) 12)).map Session.report =
        some ⟨true, true, true, true, 0, 1, [0]⟩ := by
    decide +kernel
  obtain ⟨σ, hexec, hσ⟩ := Option.map_eq_some_iff.1 hreport
  simp only [Session.report, SessionReport.mk.injEq, Bool.and_eq_true, Place.isIdle_iff,
    decide_eq_true_eq] at hσ
  obtain ⟨hproducers, hencoder, hclient, -, hdequeue, henqueue, -⟩ := hσ
  have hrun := GuardedRun.of_guard timely_of_alone hexec
  have hitem : σ.queue.dequeue < σ.queue.enqueue := by omega
  refine ⟨_, σ, hrun, hitem, no_stranded_packet 4 _ σ hrun (fun p => ?_) hencoder hclient hitem⟩
  fin_cases p
  · exact hproducers.1
  · exact hproducers.2

end Queue
end Znet

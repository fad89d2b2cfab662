import Znet.Queue.MpscRing
import Znet.Queue.OutboundInvariant

/-!
# The outbound queue's numbers and the source's

`Znet.Queue.Outbound` counts positions and sequences without bound, `Znet.Queue.Mpsc` modulo
`2 ^ 64` as the source does.

* `wraps_new`, `Wraps.push`, `Wraps.pop` — **an access to the one queue is that access to the
  other**, while the numbers it compares are below `2 ^ 63`.
* `Wraps.short` — they are, in every state of a run in which fewer than `2 ^ 62` items were claimed.
-/

namespace Znet
namespace Queue

variable {α : Type}

def Cell.wrap (c : Cell α) : MpscCell α := ⟨.ofNat 64 c.sequence, c.value⟩

/-- The same queue modulo `2 ^ 64`. -/
structure Wraps (q : OutboundQueue α) (m : MpscQueue α) : Prop where
  pow : ∃ k, k ≤ 62 ∧ q.slots = 2 ^ k
  slots : m.slots = q.slots
  cells : ∀ i < q.slots, m.cells (.ofNat 64 i) = (q.cells i).wrap
  enqueue : m.enqueue = .ofNat 64 q.enqueue
  dequeue : m.dequeue = .ofNat 64 q.dequeue
  claimed : m.claimed = q.claimed

/-- A place inside `Push`.  The call's history is not part of it. -/
def Pc.wrapPush (call : PushCall α) (n : Nat) : Pc α → PushPc α
  | .pushLoad item => .load { call with item }
  | .pushProbe item pos => .probe { call with item } (.ofNat 64 pos)
  | .pushCas item pos => .cas { call with item } (.ofNat 64 pos)
  | .pushDepth item pos => .depth item (.ofNat 64 pos) n
  | .pushWrite item pos _ => .write item (.ofNat 64 pos) n
  | .pushPublish pos _ => .publish call.item (.ofNat 64 pos) n
  | _ => .idle

/-- A place inside `Pop` or `Empty`. -/
def Pc.wrapPop : Pc α → PopPc
  | .popLoad => .load false
  | .popProbe pos => .probe false (.ofNat 64 pos)
  | .popMove pos => .move false (.ofNat 64 pos)
  | .releaseLoad i _ => .releaseLoad false (.ofNat 64 i)
  | .releaseCell i _ pos => .releaseCell false (.ofNat 64 i) (.ofNat 64 pos)
  | .releaseHead _ pos => .releaseHead false (.ofNat 64 pos)
  | .emptyLoad => .emptyLoad
  | .emptyStore head => .emptyStore (.ofNat 64 head)
  | .emptyCheck head => .emptyCheck (.ofNat 64 head)
  | _ => .idle

/-- No number that is compared reaches half the range. -/
def Short (q : OutboundQueue α) : Pc α → Prop
  | .pushProbe _ pos | .popProbe pos => pos < 2 ^ 63 ∧ (q.cell pos).sequence < 2 ^ 63
  | .pushCas _ pos | .emptyCheck pos => pos < 2 ^ 63 ∧ q.enqueue < 2 ^ 63
  | .pushDepth _ pos => pos < 2 ^ 63 ∧ q.dequeue < 2 ^ 63
  | .releaseCell i _ _ => i < q.slots
  | _ => True

/-- Two fresh queues. -/
theorem wraps_new {capacity : Nat} (hcapacity : capacity ≤ 2 ^ 62) :
    Wraps (OutboundQueue.new capacity : OutboundQueue α) (.new capacity) := by
  obtain ⟨k, -, hk, hslots⟩ := exists_roundUpPowerOfTwo_le hcapacity
  have hpos := Nat.two_pow_pos k
  have hle : 2 ^ k ≤ 2 ^ 62 := Nat.pow_le_pow_right (by decide) hk
  refine ⟨⟨k, hk, hslots⟩, ?_, fun i _ => rfl, rfl, rfl, rfl⟩
  show (BitVec.ofNat 64 (roundUpPowerOfTwo capacity - 1)).toNat + 1 = roundUpPowerOfTwo capacity
  rw [BitVec.toNat_ofNat, hslots]
  omega

section Wraps

variable {q : OutboundQueue α} {m : MpscQueue α} (h : Wraps q m)
include h

theorem Wraps.index (pos : Nat) : BitVec.ofNat 64 pos &&& m.mask = .ofNat 64 (q.index pos) := by
  obtain ⟨k, hk, hslots⟩ := h.pow
  rw [MpscQueue.index_eq hk (h.slots.trans hslots), h.slots, OutboundQueue.index_eq_mod hslots]

theorem Wraps.index_lt (pos : Nat) : q.index pos < q.slots := by
  obtain ⟨k, -, hslots⟩ := h.pow
  rw [OutboundQueue.index_eq_mod hslots, hslots]
  exact Nat.mod_lt _ (Nat.two_pow_pos k)

theorem Wraps.cell (pos : Nat) : m.cell (.ofNat 64 pos) = (q.cell pos).wrap := by
  rw [MpscQueue.cell, h.index]
  exact h.cells _ (h.index_lt pos)

theorem Wraps.setCell {i : Nat} (hi : i < q.slots) (c : Cell α) :
    Wraps (q.setCell i c) (m.setCell (.ofNat 64 i) c.wrap) := by
  obtain ⟨k, hk, hslots⟩ := h.pow
  have hsmall : q.slots ≤ 2 ^ 62 := hslots ▸ Nat.pow_le_pow_right (by decide) hk
  refine { h with cells := fun j (hj : j < q.slots) => ?_ }
  show Function.update m.cells _ _ _ = (Function.update q.cells i c j).wrap
  simp only [Function.update_apply, ofNat_inj (show j < _ by omega) (show i < _ by omega)]
  split
  · rfl
  · exact h.cells j hj

/-- The position of the current lap that has a slot says what its sequence can be. -/
theorem Wraps.short {pc : Pc α} (hring : Ring q) (hat : At q pc) (hfew : q.enqueue < 2 ^ 62) :
    Short q pc := by
  obtain ⟨k, hk, hslots⟩ := h.pow
  have hsmall : q.slots ≤ 2 ^ 62 := hslots ▸ Nat.pow_le_pow_right (by decide) hk
  have hfreed := hring.freed_le
  have hdequeue := hring.dequeue_le
  have hsequence : ∀ pos, (q.cell pos).sequence < 2 ^ 63 := by
    intro pos
    obtain ⟨r, hr, hr', hmod⟩ := exists_mod_eq (h.index_lt 0).pos q.freed pos
    have hcell : q.cell pos = q.cell r := by
      rw [OutboundQueue.cell, OutboundQueue.cell, OutboundQueue.index_eq_mod hslots,
        OutboundQueue.index_eq_mod hslots, hmod]
    rw [hcell]
    rcases Nat.lt_or_ge r q.enqueue with hlt | hge
    · rcases hring.busy r hr hlt with hseq | hseq <;> omega
    · rw [hring.free r hge hr']
      omega
  cases pc with
  | pushProbe item pos => exact ⟨lt_of_le_of_lt hat (by omega), hsequence pos⟩
  | popProbe pos => exact ⟨hat.2.2 ▸ (by omega), hsequence pos⟩
  | pushCas item pos => exact ⟨lt_of_le_of_lt hat.1 (by omega), by omega⟩
  | emptyCheck head => exact ⟨lt_of_le_of_lt hat (by omega), by omega⟩
  | pushDepth item pos => exact ⟨hat.1.lt_enqueue.trans (by omega), by omega⟩
  | releaseCell i item pos => exact hat.2.2.1 ▸ h.index_lt q.dequeue
  | _ => trivial

/-- **An access of `Push`.**  With `out_queued` it reads whether its position is the read cursor. -/
theorem Wraps.push {pc : Pc α} (hshort : Short q pc) (spurious : Bool) {call : PushCall α}
    (hwants : call.wants = true) {n : Nat} (hinside : pc.wrapPush call n ≠ .idle) :
    Wraps (tick q spurious pc).1 (pushStep m spurious (pc.wrapPush call n)).1 ∧
      (∃ call' n', (pushStep m spurious (pc.wrapPush call n)).2 =
        (tick q spurious pc).2.wrapPush call' n') ∧
      ∀ item pos, pc = .pushDepth item pos →
        ((pc.wrapPush call n).outQueued m = some 0 ↔ pos = q.dequeue) := by
  cases pc with
  | pushLoad item => exact ⟨h, ⟨call, n, by simp [Pc.wrapPush, tick, pushStep, h.enqueue]⟩, nofun⟩
  | pushProbe item pos =>
    obtain ⟨hpos, hseq⟩ := hshort
    simp only [tick, pushStep, Pc.wrapPush, h.cell, Cell.wrap]
    rcases Nat.lt_trichotomy (q.cell pos).sequence pos with hlt | heq | hgt
    · obtain ⟨hne, hbehind⟩ := distance_behind hlt (by omega)
      rw [if_neg (by omega), if_pos hlt, if_neg hne, if_pos hbehind]
      exact ⟨h, ⟨call, n, rfl⟩, nofun⟩
    · rw [if_pos heq, heq, if_pos (sub_self _)]
      exact ⟨h, ⟨call, n, rfl⟩, nofun⟩
    · obtain ⟨hne, hahead⟩ := distance_ahead hgt (by omega)
      rw [if_neg (by omega), if_neg (by omega), if_neg hne, if_neg hahead]
      exact ⟨h, ⟨call, n, rfl⟩, nofun⟩
  | pushCas item pos =>
    obtain ⟨hpos, henqueue⟩ := hshort
    simp only [tick, pushStep, Pc.wrapPush, h.enqueue, hwants, if_true,
      ofNat_inj (show q.enqueue < _ by omega) (show pos < _ by omega)]
    split
    · refine ⟨{ h with enqueue := ofNat_succ pos, claimed := ?_ }, ⟨call, _, rfl⟩, nofun⟩
      exact congrArg (· ++ [item]) h.claimed
    · exact ⟨h, ⟨{ call with wants := true }, n, rfl⟩, nofun⟩
  | pushDepth item pos =>
    obtain ⟨hpos, hdequeue⟩ := hshort
    refine ⟨h, ⟨call, n, rfl⟩, ?_⟩
    rintro _ _ ⟨⟩
    simp only [Pc.wrapPush, PushPc.outQueued, Option.some_inj, sub_eq_zero, h.dequeue]
    exact ofNat_inj (by omega) (by omega)
  | pushWrite item pos first =>
    simp only [tick, pushStep, Pc.wrapPush, h.cell, h.index]
    exact ⟨h.setCell (h.index_lt pos) { q.cell pos with value := some item },
      ⟨{ call with item }, n, rfl⟩, nofun⟩
  | pushPublish pos first =>
    simp only [tick, pushStep, Pc.wrapPush, h.cell, h.index, ofNat_succ]
    have hstored := h.setCell (h.index_lt pos) { q.cell pos with sequence := pos + 1 }
    cases first with
    | true | false => exact ⟨{ hstored with }, ⟨call, n, rfl⟩, nofun⟩
  | _ => exact absurd rfl hinside

/-- **An access of `Pop` or `Empty`.** -/
theorem Wraps.pop {pc : Pc α} (hshort : Short q pc) (spurious : Bool)
    (hinside : pc.wrapPop ≠ .idle) :
    Wraps (tick q spurious pc).1 (popStep m pc.wrapPop).1 ∧
      (popStep m pc.wrapPop).2 = (tick q spurious pc).2.wrapPop ∧
      ∀ head, pc = .emptyCheck head → pc.wrapPop.empty m = some (decide (q.enqueue = head)) := by
  cases pc with
  | popLoad | releaseLoad i item
  | emptyLoad => exact ⟨h, by simp [Pc.wrapPop, tick, popStep, h.dequeue], nofun⟩
  | popProbe pos =>
    obtain ⟨hpos, hseq⟩ := hshort
    simp only [tick, popStep, Pc.wrapPop, h.cell, Cell.wrap, ofNat_succ,
      ofNat_inj (show (q.cell pos).sequence < _ by omega) (show pos + 1 < _ by omega)]
    split <;> exact ⟨h, rfl, nofun⟩
  | popMove pos =>
    simp only [tick, popStep, Pc.wrapPop, h.cell, h.index]
    have hstored := h.setCell (h.index_lt pos) { q.cell pos with value := none }
    exact ⟨{ hstored with }, trivial, nofun⟩
  | releaseCell i item pos =>
    simp only [tick, popStep, Pc.wrapPop, h.cells i hshort, handed_back, h.slots]
    have hstored := h.setCell hshort { q.cells i with sequence := pos + q.slots }
    exact ⟨{ hstored with }, trivial, nofun⟩
  | releaseHead item pos => exact ⟨{ h with dequeue := ofNat_succ pos }, rfl, nofun⟩
  | emptyStore head => exact ⟨{ h with dequeue := rfl }, rfl, nofun⟩
  | emptyCheck head =>
    obtain ⟨hhead, henqueue⟩ := hshort
    refine ⟨?_, ?_, ?_⟩
    · simp only [tick]
      split <;> exact h
    · simp only [tick]
      split <;> rfl
    · rintro _ ⟨⟩
      simp only [Pc.wrapPop, PopPc.empty, h.enqueue,
        ofNat_inj (show q.enqueue < _ by omega) (show head < _ by omega)]
  | _ => exact absurd rfl hinside

end Wraps

end Queue
end Znet

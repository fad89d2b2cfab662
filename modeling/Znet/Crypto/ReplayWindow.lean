import Znet.Lib.Word

/-!
# The cipher layer: nonce counters and the anti-replay window

`EncryptionLayer` and `ReplayWindow` of `encryption.{h,cc}`.  Every encrypted
message carries the stream it travels in (over ZDT, its channel) and a counter
that runs per stream; the receiver keeps one `ReplayWindow` per stream, the
highest counter seen and a bitmap of the 64 below it, and drops a message whose
counter the window refuses.

* `accept_iff` — **a counter is accepted exactly when it is new and no counter
  fed before it is more than 64 ahead.**
-/

namespace Znet
namespace Crypto

/-! ## The window -/

/-- Anti-replay for one stream of counters. -/
structure ReplayWindow where
  highest : Nat := 0
  window : BitVec 64 := 0
  seenAny : Bool := false
  deriving DecidableEq, Repr

namespace ReplayWindow

def kWidth : Nat := 64

/-- Whether a counter is new, and the window that has recorded it when so. -/
def accept (w : ReplayWindow) (counter : Nat) : Bool × ReplayWindow :=
  if !w.seenAny then (true, { highest := counter, window := 0, seenAny := true })
  else if w.highest < counter then
    let shift := counter - w.highest
    let window : BitVec 64 :=
      if kWidth < shift then 0
      else if shift = kWidth then Word.bit (kWidth - 1)
      else w.window <<< shift ||| Word.bit (shift - 1)
    (true, { w with highest := counter, window := window })
  else
    let back := w.highest - counter
    if back = 0 ∨ kWidth < back then (false, w)
    else if w.window &&& Word.bit (back - 1) ≠ 0 then (false, w)
    else (true, { w with window := w.window ||| Word.bit (back - 1) })

/-- A refused counter changes nothing. -/
theorem accept_refused {w : ReplayWindow} {counter : Nat} (h : (w.accept counter).1 = false) :
    (w.accept counter).2 = w := by
  unfold accept at h ⊢
  split at h
  · cases h
  split at h
  · cases h
  rw [if_neg ‹_›, if_neg ‹_›]
  dsimp only at h ⊢
  split at h
  · rw [if_pos ‹_›]
  split at h
  · rw [if_neg ‹_›, if_pos ‹_›]
  · cases h

/-- The window after a run of counters. -/
def acceptAll (w : ReplayWindow) (counters : List Nat) : ReplayWindow :=
  counters.foldl (fun w c => (w.accept c).2) w

@[simp] theorem acceptAll_nil (w : ReplayWindow) : w.acceptAll [] = w := rfl

end ReplayWindow

/-! ## What a window knows -/

namespace ReplayWindow

/-- The window describes the counters it was fed: its highest is their largest,
and bit `b` says whether the counter `b + 1` below it is among them. -/
structure Remembers (w : ReplayWindow) (fed : List Nat) : Prop where
  seenAny : w.seenAny = true ↔ fed ≠ []
  highest_mem : fed ≠ [] → w.highest ∈ fed
  le_highest : ∀ c ∈ fed, c ≤ w.highest
  bit : ∀ b < 64, w.window.getLsbD b = true ↔ ∃ c ∈ fed, c + (b + 1) = w.highest

theorem remembers_init : Remembers {} [] := by
  constructor <;> simp

variable {w : ReplayWindow} {fed : List Nat} {c : Nat}

/-- What `accept` answers. -/
theorem accept_fst_iff (h : Remembers w fed) (c : Nat) :
    (w.accept c).1 = true ↔ c ∉ fed ∧ ∀ d ∈ fed, d ≤ c + kWidth := by
  unfold accept
  by_cases hany : w.seenAny = true
  · have hne := h.seenAny.1 hany
    simp only [hany, Bool.not_true, Bool.false_eq_true, if_false]
    by_cases hahead : w.highest < c
    · rw [if_pos hahead]
      simp only [true_iff]
      refine ⟨fun hmem => ?_, fun d hd => ?_⟩
      · have := h.le_highest c hmem
        omega
      · have := h.le_highest d hd
        omega
    · rw [if_neg hahead]
      by_cases hout : w.highest - c = 0 ∨ kWidth < w.highest - c
      · rw [if_pos hout]
        simp only [Bool.false_eq_true, false_iff, not_and]
        intro hmem hclose
        have hhigh := h.highest_mem hne
        rcases hout with hzero | hold
        · exact hmem (by rwa [show c = w.highest by omega])
        · have := hclose _ hhigh
          omega
      · rw [if_neg hout]
        unfold kWidth at hout ⊢
        obtain ⟨b, hb⟩ : ∃ b, w.highest - c = b + 1 := ⟨w.highest - c - 1, by omega⟩
        have hmem : w.window &&& Word.bit (w.highest - c - 1) ≠ 0 ↔ c ∈ fed := by
          rw [hb, Nat.add_sub_cancel, Word.and_bit_ne_zero _ (by omega), h.bit b (by omega)]
          constructor
          · rintro ⟨d, hd, hdb⟩
            rwa [show c = d by omega]
          · intro hc
            exact ⟨c, hc, by omega⟩
        by_cases hseen : c ∈ fed
        · rw [if_pos (hmem.2 hseen)]
          simp [hseen]
        · rw [if_neg (mt hmem.1 hseen)]
          simp only [true_iff]
          refine ⟨hseen, fun d hd => ?_⟩
          have := h.le_highest d hd
          omega
  · have hnil : fed = [] := by
      by_contra hne
      exact hany (h.seenAny.2 hne)
    simp [hany, hnil]

/-- The first counter. -/
theorem accept_remembers_first (h : Remembers w []) (c : Nat) :
    Remembers (w.accept c).2 [c] := by
  have hany : w.seenAny = false := by
    simpa using mt h.seenAny.1 (by simp)
  unfold accept
  simp only [hany, Bool.not_false, if_true]
  constructor
  · simp
  · simp
  · simp
  · intro b hb
    simp

/-- A counter above all before it shifts the bitmap. -/
theorem accept_remembers_ahead (h : Remembers w fed) (hany : w.seenAny = true)
    (hc : w.highest < c) :
    Remembers (w.accept c).2 (fed ++ [c]) := by
  have hhigh := h.highest_mem (h.seenAny.1 hany)
  have hbit : ∀ b < 64, (w.accept c).2.window.getLsbD b = true ↔ ∃ d ∈ fed, d + (b + 1) = c := by
    intro b hb
    unfold accept kWidth
    simp only [hany, Bool.not_true, Bool.false_eq_true, if_false, if_pos hc]
    by_cases hfar : 64 < c - w.highest
    · rw [if_pos hfar]
      simp only [show (0 : BitVec 64) = 0#64 from rfl, BitVec.getLsbD_zero, Bool.false_eq_true,
        false_iff, not_exists, not_and]
      intro d hd heq
      have := h.le_highest d hd
      omega
    · rw [if_neg hfar]
      by_cases hedge : c - w.highest = 64
      · rw [if_pos hedge, Word.getLsbD_bit (by omega), decide_eq_true_eq]
        constructor
        · rintro rfl
          exact ⟨w.highest, hhigh, by omega⟩
        · rintro ⟨d, hd, heq⟩
          have := h.le_highest d hd
          omega
      · rw [if_neg hedge, BitVec.getLsbD_or, Word.getLsbD_bit (by omega),
          BitVec.getLsbD_shiftLeft]
        simp only [hb, decide_true, Bool.true_and, Bool.or_eq_true, Bool.and_eq_true,
          Bool.not_eq_true', decide_eq_false_iff_not, decide_eq_true_eq]
        constructor
        · rintro (⟨hge, hold⟩ | rfl)
          · obtain ⟨d, hd, heq⟩ := (h.bit _ (by omega)).1 hold
            exact ⟨d, hd, by omega⟩
          · exact ⟨w.highest, hhigh, by omega⟩
        · rintro ⟨d, hd, heq⟩
          have := h.le_highest d hd
          rcases Nat.lt_or_ge b (c - w.highest) with hlt | hge
          · exact .inr (by omega)
          · exact .inl ⟨by omega, (h.bit _ (by omega)).2 ⟨d, hd, by omega⟩⟩
  have hnew : (w.accept c).2.highest = c ∧ (w.accept c).2.seenAny = true := by
    unfold accept
    simp [hany, hc]
  constructor
  · simp [hnew.2]
  · intro _
    rw [hnew.1]
    simp
  · intro d hd
    rw [hnew.1]
    rcases List.mem_append.1 hd with hd | hd
    · have := h.le_highest d hd
      omega
    · exact (List.mem_singleton.1 hd).le
  · intro b hb
    rw [hbit b hb, hnew.1]
    constructor
    · rintro ⟨d, hd, heq⟩
      exact ⟨d, List.mem_append_left _ hd, heq⟩
    · rintro ⟨d, hd, heq⟩
      rcases List.mem_append.1 hd with hd | hd
      · exact ⟨d, hd, heq⟩
      · have := List.mem_singleton.1 hd
        omega

/-- A counter inside the window, or behind it, at most sets its own bit. -/
theorem accept_remembers_behind (h : Remembers w fed) (hany : w.seenAny = true)
    (hc : c ≤ w.highest) :
    Remembers (w.accept c).2 (fed ++ [c]) := by
  have hne := h.seenAny.1 hany
  have hfields : (w.accept c).2.highest = w.highest ∧ (w.accept c).2.seenAny = true := by
    unfold accept
    simp only [hany, Bool.not_true, Bool.false_eq_true, if_false, if_neg (Nat.not_lt.2 hc)]
    split
    · exact ⟨rfl, hany⟩
    · split
      · exact ⟨rfl, hany⟩
      · exact ⟨rfl, rfl⟩
  have hbit : ∀ b < 64, (w.accept c).2.window.getLsbD b = true ↔
      w.window.getLsbD b = true ∨ c + (b + 1) = w.highest := by
    intro b hb
    unfold accept kWidth
    simp only [hany, Bool.not_true, Bool.false_eq_true, if_false, if_neg (Nat.not_lt.2 hc)]
    by_cases hout : w.highest - c = 0 ∨ 64 < w.highest - c
    · rw [if_pos hout]
      constructor
      · exact .inl
      · rintro (hold | heq)
        · exact hold
        · omega
    · rw [if_neg hout]
      by_cases hseen : w.window &&& Word.bit (w.highest - c - 1) ≠ 0
      · rw [if_pos hseen]
        constructor
        · exact .inl
        · rintro (hold | heq)
          · exact hold
          · have hset := (Word.and_bit_ne_zero w.window (by omega)).1 hseen
            rwa [show w.highest - c - 1 = b by omega] at hset
      · rw [if_neg hseen, BitVec.getLsbD_or, Word.getLsbD_bit (by omega), Bool.or_eq_true,
          decide_eq_true_eq]
        constructor
        · rintro (hold | rfl)
          · exact .inl hold
          · exact .inr (by omega)
        · rintro (hold | heq)
          · exact .inl hold
          · exact .inr (by omega)
  constructor
  · simp [hfields.2]
  · intro _
    rw [hfields.1]
    exact List.mem_append_left _ (h.highest_mem hne)
  · intro d hd
    rw [hfields.1]
    rcases List.mem_append.1 hd with hd | hd
    · exact h.le_highest d hd
    · rwa [List.mem_singleton.1 hd]
  · intro b hb
    rw [hbit b hb, h.bit b hb, hfields.1]
    constructor
    · rintro (⟨d, hd, heq⟩ | heq)
      · exact ⟨d, List.mem_append_left _ hd, heq⟩
      · exact ⟨c, List.mem_append_right _ (List.mem_singleton_self c), heq⟩
    · rintro ⟨d, hd, heq⟩
      rcases List.mem_append.1 hd with hd | hd
      · exact .inl ⟨d, hd, heq⟩
      · rw [List.mem_singleton.1 hd] at heq
        exact .inr heq

/-- One counter, wherever it lies. -/
theorem accept_remembers (h : Remembers w fed) (c : Nat) :
    Remembers (w.accept c).2 (fed ++ [c]) := by
  by_cases hany : w.seenAny = true
  · rcases Nat.lt_or_ge w.highest c with hlt | hge
    · exact accept_remembers_ahead h hany hlt
    · exact accept_remembers_behind h hany hge
  · obtain rfl : fed = [] := by
      by_contra hne
      exact hany (h.seenAny.2 hne)
    exact accept_remembers_first h c

theorem acceptAll_remembers (counters : List Nat) (h : Remembers w fed) :
    Remembers (w.acceptAll counters) (fed ++ counters) := by
  induction counters generalizing w fed with
  | nil => simpa using h
  | cons c counters ih =>
    rw [List.append_cons]
    exact ih (accept_remembers h c)

/-- **What the window accepts.**  After any run of counters, the next one is
accepted exactly when it is new and lies at most 64 behind each of them. -/
theorem accept_iff (fed : List Nat) (c : Nat) :
    ((acceptAll {} fed).accept c).1 = true ↔ c ∉ fed ∧ ∀ d ∈ fed, d ≤ c + kWidth :=
  accept_fst_iff (by simpa using acceptAll_remembers fed remembers_init) c

end ReplayWindow

/-! ## The class at its own widths -/

/-- `ReplayWindow` with its members as the source declares them. -/
structure ReplayWindow64 where
  highest : BitVec 64 := 0
  window : BitVec 64 := 0
  seenAny : Bool := false
  deriving DecidableEq, Repr

namespace ReplayWindow64

/-- `Accept`, in 64-bit arithmetic. -/
def accept (w : ReplayWindow64) (counter : BitVec 64) : Bool × ReplayWindow64 :=
  if !w.seenAny then (true, { highest := counter, window := 0, seenAny := true })
  else if w.highest < counter then
    let shift := counter - w.highest
    let window : BitVec 64 :=
      if 64#64 < shift then 0
      else if shift = 64#64 then 1#64 <<< (64#64 - 1#64)
      else w.window <<< shift ||| 1#64 <<< (shift - 1#64)
    (true, { w with highest := counter, window := window })
  else
    let back := w.highest - counter
    if back = 0 ∨ 64#64 < back then (false, w)
    else if w.window &&& 1#64 <<< (back - 1#64) ≠ 0 then (false, w)
    else (true, { w with window := w.window ||| 1#64 <<< (back - 1#64) })

/-- The window over natural numbers that it stands for. -/
def view (w : ReplayWindow64) : ReplayWindow where
  highest := w.highest.toNat
  window := w.window
  seenAny := w.seenAny

theorem shiftLeft_eq_bit {n : BitVec 64} (h : 0 < n.toNat) :
    1#64 <<< (n - 1#64) = Word.bit (n.toNat - 1) := by
  have hsub : (n - 1#64).toNat = n.toNat - 1 := by
    rw [BitVec.toNat_sub_of_le (by rw [BitVec.le_def]; exact h)]
    rfl
  rw [BitVec.shiftLeft_eq', hsub]
  rfl

/-- **No wrap.**  The 64-bit arithmetic of one call is the one over the natural
numbers. -/
theorem view_accept (w : ReplayWindow64) (c : BitVec 64) :
    (w.accept c).1 = (w.view.accept c.toNat).1 ∧
      (w.accept c).2.view = (w.view.accept c.toNat).2 := by
  unfold accept ReplayWindow.accept
  by_cases hany : w.seenAny = true
  · have hany' : w.view.seenAny = true := hany
    simp only [hany, hany', Bool.not_true, Bool.false_eq_true, if_false]
    by_cases hahead : w.highest < c
    · have hlt : w.view.highest < c.toNat := BitVec.lt_def.1 hahead
      have hshift : (c - w.highest).toNat = c.toNat - w.view.highest :=
        BitVec.toNat_sub_of_le (BitVec.le_def.2 hlt.le)
      have hedge : c - w.highest = 64#64 ↔ c.toNat - w.view.highest = ReplayWindow.kWidth := by
        rw [← BitVec.toNat_inj, hshift]
        rfl
      have hfar : 64#64 < c - w.highest ↔ ReplayWindow.kWidth < c.toNat - w.view.highest := by
        rw [BitVec.lt_def, hshift]
        rfl
      have hbit : 1#64 <<< (c - w.highest - 1#64) = Word.bit (c.toNat - w.view.highest - 1) := by
        rw [shiftLeft_eq_bit (by omega), hshift]
      have hold : w.window <<< (c - w.highest) = w.view.window <<< (c.toNat - w.view.highest) := by
        rw [BitVec.shiftLeft_eq', hshift]
        rfl
      have htop : 1#64 <<< (64#64 - 1#64) = Word.bit (ReplayWindow.kWidth - 1) := by
        decide
      rw [if_pos hahead, if_pos hlt]
      simp only [hfar, hedge, hbit, hold, htop]
      exact ⟨trivial, rfl⟩
    · have hge : c.toNat ≤ w.view.highest := Nat.not_lt.1 (mt BitVec.lt_def.2 hahead)
      have hback : (w.highest - c).toNat = w.view.highest - c.toNat :=
        BitVec.toNat_sub_of_le (BitVec.le_def.2 hge)
      have hout : (w.highest - c = 0 ∨ 64#64 < w.highest - c) ↔
          (w.view.highest - c.toNat = 0 ∨ ReplayWindow.kWidth < w.view.highest - c.toNat) := by
        rw [← BitVec.toNat_inj, BitVec.lt_def, hback]
        rfl
      rw [if_neg hahead, if_neg (Nat.not_lt.2 hge)]
      simp only [hout]
      split
      · exact ⟨rfl, rfl⟩
      · next hin =>
        have hbit : 1#64 <<< (w.highest - c - 1#64) = Word.bit (w.view.highest - c.toNat - 1) := by
          rw [shiftLeft_eq_bit (by omega), hback]
        rw [hbit]
        by_cases hseen : w.window &&& Word.bit (w.view.highest - c.toNat - 1) ≠ 0
        · rw [if_pos hseen, if_pos (show w.view.window &&& _ ≠ 0 from hseen)]
          exact ⟨rfl, rfl⟩
        · rw [if_neg hseen, if_neg (show ¬ w.view.window &&& _ ≠ 0 from hseen)]
          exact ⟨rfl, rfl⟩
  · simp [hany, view]

/-- A window with the counters it accepted. -/
structure Fed where
  window : ReplayWindow64 := {}
  accepted : List (BitVec 64) := []

/-- One counter is fed. -/
def Fed.feed (s : Fed) (counter : BitVec 64) : Fed where
  window := (s.window.accept counter).2
  accepted := if (s.window.accept counter).1 then s.accepted ++ [counter] else s.accepted

/-- A run of counters on a fresh window. -/
def feedAll (counters : List (BitVec 64)) : Fed := counters.foldl Fed.feed {}

/-- The largest counter accepted so far, if there is one. -/
def Fed.highestAccepted (s : Fed) : Option Nat := (s.accepted.map BitVec.toNat).max?

theorem feedAll_concat (counters : List (BitVec 64)) (c : BitVec 64) :
    feedAll (counters ++ [c]) = (feedAll counters).feed c := by
  simp [feedAll]

variable {s : Fed}

theorem feed_refused {c : BitVec 64} (h : (s.window.accept c).1 = false) :
    (s.feed c).window.view = s.window.view ∧ (s.feed c).accepted = s.accepted := by
  have hview := view_accept s.window c
  rw [h] at hview
  refine ⟨hview.2.trans (ReplayWindow.accept_refused hview.1.symm), ?_⟩
  simp [Fed.feed, h]

/-- **One counter.**  What the window remembers are the counters it accepted. -/
theorem remembers_feed (h : s.window.view.Remembers (s.accepted.map BitVec.toNat)) (c : BitVec 64) :
    (s.feed c).window.view.Remembers ((s.feed c).accepted.map BitVec.toNat) := by
  cases hanswer : (s.window.accept c).1 with
  | true =>
    have hnew := ReplayWindow.accept_remembers h c.toNat
    rw [← (view_accept s.window c).2] at hnew
    simpa [Fed.feed, hanswer] using hnew
  | false =>
    obtain ⟨hwindow, haccepted⟩ := feed_refused hanswer
    rw [hwindow, haccepted]
    exact h

variable (counters : List (BitVec 64))

theorem remembers_feedAll :
    (feedAll counters).window.view.Remembers ((feedAll counters).accepted.map BitVec.toNat) := by
  induction counters using List.reverseRecOn with
  | nil => exact ReplayWindow.remembers_init
  | append_singleton counters c ih =>
    rw [feedAll_concat]
    exact remembers_feed ih c

/-- What `Accept` answers after a run. -/
theorem accept_feedAll_iff (c : BitVec 64) : ((feedAll counters).window.accept c).1 = true ↔
      c ∉ (feedAll counters).accepted ∧
        ∀ d ∈ (feedAll counters).accepted, d.toNat ≤ c.toNat + ReplayWindow.kWidth := by
  rw [(view_accept _ _).1, ReplayWindow.accept_fst_iff (remembers_feedAll counters)]
  simp [BitVec.toNat_inj]

theorem forall_accepted_le_iff (s : Fed) (n : Nat) :
    (∀ d ∈ s.accepted, d.toNat ≤ n) ↔
      ∀ highest, s.highestAccepted = some highest → highest ≤ n := by
  constructor
  · intro hall highest hmax
    obtain ⟨d, hd, rfl⟩ := List.mem_map.1 (List.max?_mem hmax)
    exact hall d hd
  · intro hmax d hd
    have hmem : d.toNat ∈ s.accepted.map BitVec.toNat := List.mem_map_of_mem hd
    obtain ⟨highest, hhighest⟩ := Option.isSome_iff_exists.1 (List.isSome_max?_of_mem hmem)
    exact ((List.max?_le_iff hhighest).1 le_rfl _ hmem).trans (hmax highest hhighest)

theorem nodup_accepted : (feedAll counters).accepted.Nodup := by
  induction counters using List.reverseRecOn with
  | nil => exact List.nodup_nil
  | append_singleton counters c ih =>
    rw [feedAll_concat]
    unfold Fed.feed
    split
    · next hanswer =>
      have hnew := ((accept_feedAll_iff counters c).1 hanswer).1
      rw [List.nodup_append]
      refine ⟨ih, List.nodup_singleton c, ?_⟩
      rintro d hd e he rfl
      exact hnew (List.mem_singleton.1 he ▸ hd)
    · exact ih

/-- New counters that each lie at most 64 below those before them are all accepted. -/
theorem accepted_of_within (hnodup : counters.Nodup)
    (hwithin : counters.Pairwise fun d c => d.toNat ≤ c.toNat + ReplayWindow.kWidth) :
    (feedAll counters).accepted = counters := by
  induction counters using List.reverseRecOn with
  | nil => rfl
  | append_singleton counters c ih =>
    rw [List.nodup_append] at hnodup
    rw [List.pairwise_append] at hwithin
    have hsame := ih hnodup.1 hwithin.1
    have hanswer : ((feedAll counters).window.accept c).1 = true := by
      rw [accept_feedAll_iff, hsame]
      refine ⟨fun hmem => ?_, fun d hd => hwithin.2.2 d hd c (List.mem_singleton_self c)⟩
      exact hnodup.2.2 c hmem c (List.mem_singleton_self c) rfl
    rw [feedAll_concat, Fed.feed, if_pos hanswer, hsame]

/-- **The replay window.**  After any run of 64-bit counters:

* the next one is accepted exactly when it was not accepted before and no counter
  was accepted yet or the highest accepted one is at most 64 ahead of it;
* no counter has been accepted twice;
* if the counters are distinct and each lies at most 64 below those before it,
  all of them were accepted. -/
theorem accept_iff_within_reach (counters : List (BitVec 64)) :
    (∀ c : BitVec 64, ((feedAll counters).window.accept c).1 = true ↔
      c ∉ (feedAll counters).accepted ∧
        ((feedAll counters).highestAccepted = none ∨
          ∃ highest, (feedAll counters).highestAccepted = some highest ∧
            highest ≤ c.toNat + 64)) ∧
    (feedAll counters).accepted.Nodup ∧
    (counters.Nodup → counters.Pairwise (fun d c => d.toNat ≤ c.toNat + 64) →
      (feedAll counters).accepted = counters) := by
  refine ⟨fun c => ?_, nodup_accepted counters, accepted_of_within counters⟩
  rw [accept_feedAll_iff, forall_accepted_le_iff]
  cases (feedAll counters).highestAccepted with
  | none => simp
  | some highest => simp [ReplayWindow.kWidth]

end ReplayWindow64

/-! ## The layer -/

/-- An authenticated cipher, keyed for one direction of a session.  A message
that was really encrypted decrypts under its own stream and counter. -/
structure Aead (Plain Cipher : Type) where
  encrypt : BitVec 8 → Nat → Plain → Cipher
  decrypt : BitVec 8 → Nat → Cipher → Option Plain
  decrypt_encrypt : ∀ stream counter p,
    decrypt stream counter (encrypt stream counter p) = some p

/-- A message as the transport carries it, by its mode byte. -/
inductive Message (Plain Cipher : Type) where
  | plaintext (p : Plain)
  | aesCbc
  | aesGcm (stream : BitVec 8) (counter : Nat) (cipher : Cipher)
  /-- The GCM mode with fewer bytes than a header and a tag take. -/
  | tooShort
  | unknownMode (mode : BitVec 8)

/-- 7 bytes of counter. -/
def kMaxCounter : Nat := 2 ^ 56 - 1

/-- The state of the layer that the message path reads and writes. -/
structure EncryptionLayer where
  enableEncryption : Bool := false
  keyFilled : Bool := false
  txCounter : BitVec 8 → Nat := fun _ => 0
  rxWindow : BitVec 8 → ReplayWindow := fun _ => {}

namespace EncryptionLayer

variable {Plain Cipher : Type}

variable (aead : Aead Plain Cipher)

/-- Wrap one outgoing message; `none` when its stream has no counter left. -/
def handleOut (layer : EncryptionLayer) (p : Plain)
    (stream : BitVec 8) : Option (Message Plain Cipher) × EncryptionLayer :=
  if layer.enableEncryption then
    if layer.txCounter stream = kMaxCounter then (none, layer)
    else
      let counter := layer.txCounter stream
      (some (.aesGcm stream counter (aead.encrypt stream counter p)),
        { layer with txCounter := Function.update layer.txCounter stream (counter + 1) })
  else (some (.plaintext p), layer)

/-- Unwrap one incoming message; `none` when it is dropped. -/
def handleDecrypt (layer : EncryptionLayer) : Message Plain Cipher → Option Plain × EncryptionLayer
  | .plaintext p => if layer.keyFilled then (none, layer) else (some p, layer)
  | .aesCbc => (none, layer)
  | .unknownMode _ => (none, layer)
  | .tooShort => (none, layer)
  | .aesGcm stream counter cipher =>
    if !layer.keyFilled then (none, layer)
    else
      match aead.decrypt stream counter cipher with
      | none => (none, layer)
      | some p =>
        let (accepted, window) := (layer.rxWindow stream).accept counter
        let layer := { layer with rxWindow := Function.update layer.rxWindow stream window }
        if accepted then (some p, layer) else (none, layer)

/-- The layer after a run of incoming messages. -/
def decryptAll (layer : EncryptionLayer)
    (messages : List (Message Plain Cipher)) : EncryptionLayer :=
  messages.foldl (fun layer m => (handleDecrypt aead layer m).2) layer

/-- The genuine message with the given counter. -/
def genuine (stream : BitVec 8) (plains : Nat → Plain) (counter : Nat) : Message Plain Cipher :=
  .aesGcm stream counter (aead.encrypt stream counter (plains counter))

variable (aead : Aead Plain Cipher) (stream : BitVec 8) (plains : Nat → Plain)

theorem genuine_injective {c d : Nat}
    (h : genuine aead stream plains c = genuine aead stream plains d) : c = d := by
  injection h

variable {layer : EncryptionLayer}

/-- A genuine message is dropped only by its window. -/
theorem handleDecrypt_genuine (hkey : layer.keyFilled = true) (counter : Nat) :
    handleDecrypt aead layer (genuine aead stream plains counter) =
      (if ((layer.rxWindow stream).accept counter).1 then some (plains counter) else none,
        { layer with
          rxWindow := Function.update layer.rxWindow stream
            ((layer.rxWindow stream).accept counter).2 }) := by
  simp only [genuine, handleDecrypt, hkey, Bool.not_true, Bool.false_eq_true, if_false,
    aead.decrypt_encrypt]
  split <;> rfl

/-- A run of genuine messages feeds their counters to the window. -/
theorem decryptAll_genuine (counters : List Nat) (hkey : layer.keyFilled = true) :
    (decryptAll aead layer (counters.map (genuine aead stream plains))).keyFilled = true ∧
      (decryptAll aead layer (counters.map (genuine aead stream plains))).rxWindow stream =
        (layer.rxWindow stream).acceptAll counters := by
  induction counters generalizing layer with
  | nil => exact ⟨hkey, rfl⟩
  | cons c counters ih =>
    have hkey' :
        (handleDecrypt aead layer (genuine aead stream plains c)).2.keyFilled = true := by
      rw [handleDecrypt_genuine aead stream plains hkey]
      exact hkey
    have hstep := ih hkey'
    refine ⟨hstep.1, hstep.2.trans ?_⟩
    rw [handleDecrypt_genuine aead stream plains hkey]
    simp only [Function.update_self]
    rfl

end EncryptionLayer

end Crypto
end Znet

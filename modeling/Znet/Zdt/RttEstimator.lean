import Znet.Zdt.Transport

/-!
# The round-trip estimator

`ZDTRttEstimator` (`zdt_congestion.h`, `zdt_congestion.cc`), over the rationals: a smoothed round
trip for the retransmission timeout, and two windowed minimums that say whether a queue stands.
The clock and the samples count nanoseconds; when a sample comes, and what it says, may be anything.
A window is full by the time it took, and may hold a single sample.

* `IsFloor`, `IsFull` — what the two minimums are taken from, in the samples so far.
* `queueing_earned` — **a queue shows in every round trip of a full window.**
-/

namespace Znet
namespace Zdt

/-! ## The estimator -/

def kZDTRttMinWindowMs : Int := 10000

def kZDTQueueingRttRatio : ℚ := 5 / 4

def kZDTQueueingWindowFloorMs : ℚ := 10

structure ZDTRttEstimator where
  srttMs : ℚ := 0
  rttvarMs : ℚ := 0
  rttMinMs : ℚ := 0
  rttMinStamp : TimePoint := 0
  windowMinMs : ℚ := 0
  collectingMinMs : ℚ := 0
  windowStart : TimePoint := 0
  hasRtt : Bool := false
  /-- In milliseconds. -/
  rto : Int := 200

/-- A duration in milliseconds. -/
def inMs (duration : Int) : ℚ := duration / 1000000

/-- A round trip that was measured, and when. -/
structure Sample where
  sample : Int
  now : TimePoint

def Sample.ms (x : Sample) : ℚ := inMs x.sample

namespace ZDTRttEstimator

section Steps

variable (r : ZDTRttEstimator) (x : Sample)

/-- Whether the floor is lowered, or taken anew. -/
def probes : Bool :=
  decide (x.ms < r.rttMinMs) || decide (r.rttMinMs ≤ 0) ||
    decide (kZDTRttMinWindowMs * 1000000 < x.now - r.rttMinStamp)

/-- What the smoothed round trip becomes. -/
def smoothed : ℚ := 7 / 8 * r.srttMs + 1 / 8 * x.ms

/-- Whether the window is closed, two round trips after it was opened. -/
def closes : Bool :=
  decide (max (2 * r.smoothed x) kZDTQueueingWindowFloorMs ≤ inMs (x.now - r.windowStart))

/-- `OnSample`, the first one and the others. -/
def fold : ZDTRttEstimator :=
  if !r.hasRtt then
    { r with
      hasRtt := true
      srttMs := x.ms
      rttvarMs := x.ms / 2
      rttMinMs := x.ms
      rttMinStamp := x.now
      collectingMinMs := x.ms
      windowStart := x.now }
  else
    { r with
      rttMinMs := if r.probes x then x.ms else r.rttMinMs
      rttMinStamp := if r.probes x then x.now else r.rttMinStamp
      rttvarMs := 3 / 4 * r.rttvarMs + 1 / 4 * |r.srttMs - x.ms|
      srttMs := r.smoothed x
      windowMinMs := if r.closes x then r.collectingMinMs else r.windowMinMs
      collectingMinMs :=
        if r.closes x ∨ x.ms < r.collectingMinMs then x.ms else r.collectingMinMs
      windowStart := if r.closes x then x.now else r.windowStart }

/-- `OnSample`.  What is rounded down is not negative. -/
def onSample (rtoMin rtoMax : Int) : ZDTRttEstimator :=
  if x.ms < 0 then r
  else
    let r := r.fold x
    let rto := ⌊r.srttMs + 4 * r.rttvarMs⌋
    { r with rto := if rto < rtoMin then rtoMin else if rtoMax < rto then rtoMax else rto }

/-- `IsQueueing`. -/
def isQueueing : Bool :=
  r.hasRtt && decide (0 < r.rttMinMs) && decide (0 < r.windowMinMs) &&
    decide (r.rttMinMs * kZDTQueueingRttRatio < r.windowMinMs)

end Steps

variable {rto rtoMin rtoMax : Int} {r : ZDTRttEstimator} {xs : List Sample}

/-- An estimator after `Reset` and some samples, the latest first. -/
def after (rto rtoMin rtoMax : Int) (xs : List Sample) : ZDTRttEstimator :=
  xs.foldr (fun x r => r.onSample x rtoMin rtoMax) { rto }

/-- The samples that count. -/
def taken (xs : List Sample) : List Sample := xs.filter fun x => decide (0 ≤ x.ms)

/-! ## The queueing verdict -/

/-- A floor: each later sample is no shorter, and came before the floor was stale. -/
def IsFloor (xs : List Sample) (floor : Sample) : Prop :=
  ∃ since before, xs = since ++ floor :: before ∧
    ∀ y ∈ since, floor.ms ≤ y.ms ∧ y.now - floor.now ≤ kZDTRttMinWindowMs * 1000000

/-- A window of full length in front of the sample that closed it. -/
def IsFull (window : List Sample) (closing : Sample) : Prop :=
  ∃ y ∈ window.getLast?, kZDTQueueingWindowFloorMs ≤ inMs (closing.now - y.now)

/-- Both minimums come from the samples: the last full window, and the one being collected since. -/
structure Explained (xs : List Sample) (r : ZDTRttEstimator) : Prop where
  hasRtt : r.hasRtt = true
  floor : ∃ floor, IsFloor xs floor ∧ r.rttMinMs = floor.ms ∧ r.rttMinStamp = floor.now
  window : ∃ newer first window older, xs = newer ++ first :: (window ++ older) ∧
    r.windowStart = first.now ∧ (∀ y ∈ newer ++ [first], r.collectingMinMs ≤ y.ms) ∧
    (r.windowMinMs ≠ 0 → IsFull window first ∧ ∀ y ∈ window, r.windowMinMs ≤ y.ms)

/-- Another sample is in front of both windows, or starts one. -/
theorem Explained.fold (h : Explained xs r) (x : Sample) : Explained (x :: xs) (r.fold x) := by
  obtain ⟨hr, ⟨floor, ⟨since, before, hxs, hsince⟩, hms, hstamp⟩,
    newer, first, window, older, hxs', hstart, hcollecting, hwindow⟩ := h
  simp only [ZDTRttEstimator.fold, hr, Bool.not_true, Bool.false_eq_true, if_false]
  refine ⟨rfl, ?_, ?_⟩
  · cases hprobes : r.probes x with
    | true => exact ⟨x, ⟨[], xs, rfl, by simp⟩, rfl, rfl⟩
    | false =>
      simp only [probes, Bool.or_eq_false_iff, decide_eq_false_iff_not, not_lt, hms,
        hstamp] at hprobes
      exact ⟨floor, ⟨x :: since, before, congrArg (x :: ·) hxs,
        List.forall_mem_cons.2 ⟨⟨hprobes.1.1, hprobes.2⟩, hsince⟩⟩, hms, hstamp⟩
  · cases hcloses : r.closes x with
    | true =>
      -- what was collected is the full window now
      refine ⟨[], x, newer ++ [first], window ++ older, by simp [hxs'], rfl, by simp, fun _ => ?_⟩
      refine ⟨⟨first, by simp, ?_⟩, hcollecting⟩
      rw [← hstart]
      exact (le_max_right _ _).trans (of_decide_eq_true hcloses)
    | false =>
      refine ⟨x :: newer, first, window, older, congrArg (x :: ·) hxs', hstart, ?_, hwindow⟩
      simp only [Bool.false_eq_true, false_or]
      split
      · next hless =>
        exact List.forall_mem_cons.2 ⟨le_rfl, fun y hy => hless.le.trans (hcollecting y hy)⟩
      · next hless => exact List.forall_mem_cons.2 ⟨not_lt.1 hless, hcollecting⟩

/-- Before the first sample there is nothing to explain, and no verdict. -/
theorem explained_after (rto rtoMin rtoMax : Int) (xs : List Sample) :
    let r := after rto rtoMin rtoMax xs
    r.hasRtt = false ∧ r.windowMinMs = 0 ∨ Explained (taken xs) r := by
  induction xs with
  | nil => exact .inl ⟨rfl, rfl⟩
  | cons x xs ih =>
    simp only [after, List.foldr_cons] at ih ⊢
    generalize xs.foldr _ _ = r at ih ⊢
    rw [onSample]
    by_cases hneg : x.ms < 0
    · rw [if_pos hneg, taken, List.filter_cons_of_neg (by simpa using hneg)]
      exact ih
    · rw [if_neg hneg, taken, List.filter_cons_of_pos (by simpa using hneg), ← taken]
      right
      rcases ih with ⟨hnone, hzero⟩ | hr
      · simp only [ZDTRttEstimator.fold, hnone]
        exact ⟨rfl, ⟨x, ⟨[], _, rfl, by simp⟩, rfl, rfl⟩,
          ⟨[], x, [], _, rfl, rfl, by simp, fun hne => absurd hzero hne⟩⟩
      · exact { hr.fold x with }

/-- A queue stands: the samples of a full window are all longer than the floor by a quarter. -/
def Standing (xs : List Sample) : Prop :=
  ∃ newer first window older floor, xs = newer ++ first :: (window ++ older) ∧ IsFull window first ∧
    IsFloor xs floor ∧ ∀ y ∈ window, floor.ms * kZDTQueueingRttRatio < y.ms

/-- **A queue shows in every round trip of a full window.**  Whatever the samples and their times,
the estimator speaks of a queue only where one stands: against a floor that was not stale at any
sample since, and over a window, closed by a later sample, of ten milliseconds or more. -/
theorem queueing_earned (h : (after rto rtoMin rtoMax xs).isQueueing = true) :
    Standing (taken xs) := by
  simp only [isQueueing, Bool.and_eq_true, decide_eq_true_eq] at h
  obtain ⟨⟨⟨hsome, -⟩, hpos⟩, hless⟩ := h
  rcases explained_after rto rtoMin rtoMax xs with ⟨hnone, -⟩ | hr
  · exact absurd (hsome.symm.trans hnone) (by decide)
  · obtain ⟨floor, hfloor, hms, -⟩ := hr.floor
    obtain ⟨newer, first, window, older, hxs, -, -, hwindow⟩ := hr.window
    obtain ⟨hfull, hmin⟩ := hwindow hpos.ne'
    rw [hms] at hless
    exact ⟨newer, first, window, older, floor, hxs, hfull, hfloor,
      fun y hy => hless.trans_le (hmin y hy)⟩

/-- Round trips that go up from one millisecond to four. -/
theorem queueing_earned_rise :
    Standing (taken [⟨4000000, 40000000⟩, ⟨4000000, 20000000⟩, ⟨1000000, 0⟩]) :=
  @queueing_earned 200 10 2000 _ (by decide +kernel)

end ZDTRttEstimator

end Zdt
end Znet

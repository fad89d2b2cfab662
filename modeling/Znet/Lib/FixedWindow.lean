import Znet.Lib.Keyed

/-!
# Counting in fixed windows

A limiter counts what one source does in a window that starts at its first hit and is over when
more than `width` has passed; the next hit starts another.  A hit is granted while the count is
within a limit.  The place of a window may be forgotten once it is over.
-/

namespace FixedWindow

/-- A hit, with the start of the window it was counted in. -/
structure Hit where
  time : Int
  start : Int
  granted : Bool

/-- The window after a hit: its start and its count. -/
def enter (width now : Int) : Option (Int × Nat) → Int × Nat
  | some (start, n) => if now - start ≤ width then (start, n + 1) else (now, 1)
  | none => (now, 1)

/-- How many hits a window has had. -/
def hits (log : List Hit) (start : Int) : Nat := log.countP fun h => h.start = start

/-- How many hits a window has granted. -/
def grants (log : List Hit) (start : Int) : Nat := log.countP fun h => h.start = start ∧ h.granted

/-- The current window of a source, and its hits so far. -/
structure Tracks (width : Int) (limit : Nat) (now : Int) (window : Option (Int × Nat))
    (log : List Hit) : Prop where
  inside : ∀ h ∈ log, h.start ≤ h.time ∧ h.time ≤ h.start + width
  apart : ∀ h ∈ log, ∀ g ∈ log, h.start < g.start → h.start + width < g.start
  past : window = none → ∀ h ∈ log, h.start + width < now
  current : ∀ start n, window = some (start, n) → start ≤ now ∧ 0 < n ∧ n = hits log start ∧
    ∀ h ∈ log, h.start = start ∨ h.start + width < start
  limited : ∀ start, grants log start ≤ min limit (hits log start)

variable {width now : Int} {limit : Nat} {window : Option (Int × Nat)} {log : List Hit}

theorem tracks_nil (width now : Int) (limit : Nat) : Tracks width limit now none [] where
  inside := by simp
  apart := by simp
  past := by simp
  current := by simp
  limited := by simp [grants]

theorem Tracks.later {now' : Int} (h : Tracks width limit now window log) (hnow : now ≤ now') :
    Tracks width limit now' window log :=
  { h with
    past hnone x hx := (h.past hnone x hx).trans_le hnow
    current start n hsome :=
      have hcurrent := h.current start n hsome
      ⟨hcurrent.1.trans hnow, hcurrent.2⟩ }

/-- A window that is over is forgotten. -/
theorem Tracks.drop {start : Int} {n : Nat} (h : Tracks width limit now (some (start, n)) log)
    (hover : width < now - start) : Tracks width limit now none log :=
  { h with
    past _ x hx := by
      obtain ⟨-, -, -, hothers⟩ := h.current start n rfl
      rcases hothers x hx with heq | hlt
      · omega
      · have := h.inside x hx
        omega
    current := by simp }

/-- A sweep forgets the window if it is over. -/
theorem Tracks.sweep (h : Tracks width limit now window log) :
    Tracks width limit now (window.filter fun w => decide (now - w.1 ≤ width)) log := by
  match window, h with
  | none, h => exact h
  | some (start, n), h =>
    rw [Option.filter_some]
    split
    · exact h
    · next hover => exact h.drop (not_le.1 fun hlive => hover (decide_eq_true hlive))

theorem hits_cons (x : Hit) (log : List Hit) (start : Int) :
    hits (x :: log) start = hits log start + if x.start = start then 1 else 0 := by
  simp [hits, List.countP_cons]

theorem grants_cons (x : Hit) (log : List Hit) (start : Int) :
    grants (x :: log) start =
      grants log start + if x.start = start ∧ x.granted = true then 1 else 0 := by
  simp [grants, List.countP_cons]

/-- A hit in a window that is open, or opens now. -/
theorem Tracks.push (h : Tracks width limit now window log) {start : Int} (hle : start ≤ now)
    (hlive : now ≤ start + width) (hothers : ∀ x ∈ log, x.start = start ∨ x.start + width < start) :
    Tracks width limit now (some (start, hits log start + 1))
      (⟨now, start, decide (hits log start + 1 ≤ limit)⟩ :: log) := by
  refine ⟨?_, ?_, by simp, ?_, fun s => ?_⟩
  · simpa [hle, hlive] using h.inside
  · intro x hx y hy hlt
    rcases List.mem_cons.1 hx with rfl | hx
    · rcases List.mem_cons.1 hy with rfl | hy
      · exact absurd hlt (lt_irrefl _)
      · dsimp only at hlt ⊢
        have := hothers y hy
        omega
    · rcases List.mem_cons.1 hy with rfl | hy
      · dsimp only at hlt ⊢
        have := hothers x hx
        omega
      · exact h.apart x hx y hy hlt
  · rintro s n hsome
    cases hsome
    refine ⟨hle, Nat.succ_pos _, ?_, ?_⟩
    · rw [hits_cons, if_pos rfl]
    · simpa using hothers
  · have hlimited := h.limited s
    rw [hits_cons, grants_cons]
    by_cases hs : start = s
    · subst hs
      simp only [decide_eq_true_eq, true_and, if_true] at hlimited ⊢
      split
      · omega
      · omega
    · simpa [hs] using hlimited

/-- A hit that starts a window. -/
theorem Tracks.restart (h : Tracks width limit now none log) (hwidth : 0 ≤ width) :
    Tracks width limit now (some (now, 1)) (⟨now, now, decide (1 ≤ limit)⟩ :: log) := by
  have hpast := h.past rfl
  have hnew : hits log now = 0 := by
    simp only [hits, List.countP_eq_zero, decide_eq_true_eq]
    intro x hx heq
    have := hpast x hx
    omega
  have hpush := h.push le_rfl (by omega) fun x hx => .inr (hpast x hx)
  rwa [hnew] at hpush

/-- **One hit.** -/
theorem Tracks.enter (h : Tracks width limit now window log) (hwidth : 0 ≤ width) :
    Tracks width limit now (some (enter width now window))
      (⟨now, (enter width now window).1, decide ((enter width now window).2 ≤ limit)⟩ :: log) := by
  match window, h with
  | none, h => exact h.restart hwidth
  | some (start, n), h =>
    rw [FixedWindow.enter]
    split
    · next hlive =>
      obtain ⟨hle, -, hn, hothers⟩ := h.current start n rfl
      rw [hn]
      exact h.push hle (by omega) hothers
    · next hover => exact (h.drop (not_le.1 hover)).restart hwidth

/-- **Each window grants at most the limit.** -/
theorem Tracks.grants_le (h : Tracks width limit now window log) (start : Int) :
    grants log start ≤ limit :=
  (h.limited start).trans (min_le_left _ _)

/-- A stretch of time no longer than a window meets at most two of them. -/
theorem Tracks.two_windows (h : Tracks width limit now window log) (T : Int) :
    ∃ a b, ∀ x ∈ log, T ≤ x.time → x.time < T + width → x.start = a ∨ x.start = b := by
  let met := log.filter fun x => decide (T ≤ x.time ∧ x.time < T + width)
  have hmet : ∀ x, x ∈ met ↔ x ∈ log ∧ T ≤ x.time ∧ x.time < T + width := by simp [met]
  cases hmin : met.argmin Hit.start with
  | none =>
    refine ⟨0, 0, fun x hx hT hlt => ?_⟩
    have hx := (hmet x).2 ⟨hx, hT, hlt⟩
    rw [List.argmin_eq_none.1 hmin] at hx
    cases hx
  | some a =>
    cases hmax : met.argmax Hit.start with
    | none =>
      rw [List.argmax_eq_none.1 hmax] at hmin
      cases hmin
    | some b =>
      refine ⟨a.start, b.start, fun x hx hT hlt => ?_⟩
      by_contra hother
      -- a third window between the first and the last is too much for the stretch
      obtain ⟨ha, hTa, -⟩ := (hmet a).1 (List.argmin_mem hmin)
      obtain ⟨hb, -, hTb⟩ := (hmet b).1 (List.argmax_mem hmax)
      have hfirst := List.le_of_mem_argmin ((hmet x).2 ⟨hx, hT, hlt⟩) hmin
      have hlast := List.le_of_mem_argmax ((hmet x).2 ⟨hx, hT, hlt⟩) hmax
      have hbefore := h.apart a ha x hx (by omega)
      have hafter := h.apart x hx b hb (by omega)
      have := h.inside a ha
      have := h.inside b hb
      omega

theorem countP_le_add {α : Type*} {p q r : α → Bool} {l : List α}
    (h : ∀ x ∈ l, p x = true → q x = true ∨ r x = true) :
    l.countP p ≤ l.countP q + l.countP r := by
  induction l with
  | nil => simp
  | cons x l ih =>
    have hrest := ih fun y hy => h y (List.mem_cons_of_mem x hy)
    simp only [List.countP_cons]
    split_ifs with hp hq hr hr
    all_goals first | omega | simp_all

/-- **A stretch of time as long as a window is granted at most twice the limit.** -/
theorem Tracks.interval (h : Tracks width limit now window log) (T : Int) :
    (log.countP fun x => decide (T ≤ x.time ∧ x.time < T + width) && x.granted) ≤ 2 * limit := by
  obtain ⟨a, b, hab⟩ := h.two_windows T
  calc (log.countP fun x => decide (T ≤ x.time ∧ x.time < T + width) && x.granted)
      ≤ grants log a + grants log b := by
        refine countP_le_add fun x hx hp => ?_
        simp only [Bool.and_eq_true, decide_eq_true_eq] at hp ⊢
        rcases hab x hx hp.1.1 hp.1.2 with heq | heq
        · exact .inl ⟨heq, hp.2⟩
        · exact .inr ⟨heq, hp.2⟩
    _ ≤ 2 * limit := by
        have := h.grants_le a
        have := h.grants_le b
        omega

/-! ## A table of windows -/

section Table

variable {K V : Type*} {cmp : K → K → Ordering} [Std.TransCmp cmp] {view : V → Int × Nat}
  {m : Std.ExtTreeMap K V cmp} {log : K → List Hit}

/-- Every source of a table is tracked; `view` reads the start and the count of an entry. -/
def Limited (width : Int) (limit : Nat) (view : V → Int × Nat) (now : Int)
    (m : Std.ExtTreeMap K V cmp) (log : K → List Hit) : Prop :=
  ∀ k, Tracks width limit now (m[k]?.map view) (log k)

theorem limited_empty (width now : Int) (limit : Nat) (view : V → Int × Nat) :
    Limited width limit view now (∅ : Std.ExtTreeMap K V cmp) fun _ => [] := by
  intro k
  simpa using tracks_nil width now limit

theorem Limited.later {now' : Int} (h : Limited width limit view now m log) (hnow : now ≤ now') :
    Limited width limit view now' m log :=
  fun k => (h k).later hnow

/-- An entry has been hit. -/
theorem Limited.count_pos (h : Limited width limit view now m log) {k : K} {v : V}
    (hv : m[k]? = some v) : 0 < (view v).2 :=
  ((h k).current _ _ (by rw [hv]; rfl)).2.1

variable [Std.LawfulEqCmp cmp]

theorem Limited.sweep (h : Limited width limit view now m log) :
    Limited width limit view now (m.filter fun _ v => decide (now - (view v).1 ≤ width)) log := by
  intro k
  have hsweep := (h k).sweep
  rw [Option.filter_map] at hsweep
  rw [Std.ExtTreeMap.getElem?_filter']
  exact hsweep

theorem Limited.insert [DecidableEq K] (h : Limited width limit view now m log) (hwidth : 0 ≤ width)
    {k : K} {v : V} (hv : view v = FixedWindow.enter width now (m[k]?.map view)) :
    Limited width limit view now (m.insert k v)
      (Function.update log k (⟨now, (view v).1, decide ((view v).2 ≤ limit)⟩ :: log k)) := by
  intro k'
  by_cases hk : k = k'
  · subst hk
    rw [Std.ExtTreeMap.getElem?_insert_self, Function.update_self, Option.map_some, hv]
    exact (h k).enter hwidth
  · rw [Keyed.getElem?_insert_of_ne hk, Function.update_of_ne (Ne.symm hk)]
    exact h k'

end Table

end FixedWindow

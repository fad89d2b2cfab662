import Mathlib

/-!
# Runs of a machine, and threads over a shared state

A machine is a step function on states: an event either takes a state to the next
one or is not enabled there.  Runs are lists of events.  A *guarded* run meets a
condition before each of its steps, which is how an assumption about the
environment, or about a schedule, is stated.
-/

/-- A step function: what each event does to a state, if it is enabled there. -/
structure Machine (S E : Type*) where
  step : S → E → Option S

namespace Machine

variable {S E : Type*} (M : Machine S E)

/-- The state after a list of events. -/
def exec : S → List E → Option S
  | s, [] => some s
  | s, e :: es => (M.step s e).bind fun s' => exec s' es

@[simp] theorem exec_nil (s : S) : M.exec s [] = some s := rfl

variable {s s' : S} {es : List E}

theorem exec_cons {e : E} (h : M.step s e = some s') (es : List E) :
    M.exec s (e :: es) = M.exec s' es := by
  rw [exec, h, Option.bind_some]

theorem exec_append (h : M.exec s es = some s') (fs : List E) :
    M.exec s (es ++ fs) = M.exec s' fs := by
  induction es generalizing s with
  | nil =>
    cases h
    rfl
  | cons e es ih =>
    obtain ⟨s₁, hstep, hrest⟩ := Option.bind_eq_some_iff.1 h
    rw [List.cons_append, M.exec_cons hstep, ih hrest]

/-- What each step preserves, a run preserves. -/
theorem exec_invariant {I : S → Prop} (hstep : ∀ s e s', I s → M.step s e = some s' → I s')
    (h : M.exec s es = some s') (hs : I s) : I s' := by
  induction es generalizing s with
  | nil =>
    cases h
    exact hs
  | cons e es ih =>
    obtain ⟨s₁, hnext, hrest⟩ := Option.bind_eq_some_iff.1 h
    exact ih hrest (hstep s e s₁ hs hnext)

/-- A run on given events: what is decided of the state it ends in, and what follows from that. -/
theorem exists_exec {M : Machine S E} {P Q : S → Prop} [DecidablePred P]
    (h : (M.exec s es).any (fun t => decide (P t)) = true)
    (hQ : ∀ t, M.exec s es = some t → P t → Q t) : ∃ t, M.exec s es = some t ∧ Q t := by
  obtain ⟨t, ht, hP⟩ := (Option.any_eq_true _ _).1 h
  exact ⟨t, ht, hQ t ht (of_decide_eq_true hP)⟩

/-- A run on given events, and one step more. -/
theorem exists_exec_step {M : Machine S E} {P Q : S → S → Prop} [∀ t t', Decidable (P t t')]
    (h : (M.exec s es).any (fun t => (M.step t e).any fun t' => decide (P t t')) = true)
    (hQ : ∀ t t', M.exec s es = some t → M.step t e = some t' → P t t' → Q t t') :
    ∃ t t', M.exec s es = some t ∧ M.step t e = some t' ∧ Q t t' := by
  obtain ⟨t, ht, h⟩ := (Option.any_eq_true _ _).1 h
  obtain ⟨t', ht', hP⟩ := (Option.any_eq_true _ _).1 h
  exact ⟨t, t', ht, ht', hQ t t' ht ht' (of_decide_eq_true hP)⟩

end Machine

/-- Runs whose every step meets the guard `ok`. -/
inductive GuardedRun {S E : Type*} (M : Machine S E) (ok : S → E → Prop) :
    S → List E → S → Prop
  | nil (s : S) : GuardedRun M ok s [] s
  | cons {s s' s'' : S} {e : E} {es : List E} : ok s e → M.step s e = some s' →
      GuardedRun M ok s' es s'' → GuardedRun M ok s (e :: es) s''

namespace GuardedRun

variable {S E : Type*} {M : Machine S E} {ok : S → E → Prop}

variable {s s' : S} {es : List E}

/-- What each guarded step preserves, a guarded run preserves. -/
theorem invariant {I : S → Prop} (hstep : ∀ s e s', I s → ok s e → M.step s e = some s' → I s')
    (hrun : GuardedRun M ok s es s') (hs : I s) : I s' := by
  induction hrun with
  | nil => exact hs
  | cons hok hnext _ ih => exact ih (hstep _ _ _ hs hok hnext)

/-- A guarded run is a run. -/
theorem exec (hrun : GuardedRun M ok s es s') : M.exec s es = some s' := by
  induction hrun with
  | nil => rfl
  | cons _ hnext _ ih => rw [M.exec_cons hnext, ih]

end GuardedRun

/-- The machine that stops where the check `ok` fails. -/
def Machine.guard {S E : Type*} (M : Machine S E) (ok : S → E → Bool) : Machine S E :=
  ⟨fun s e => if ok s e then M.step s e else none⟩

/-- A run that passes the check is a run that meets what the check stands for. -/
theorem GuardedRun.of_guard {S E : Type*} {M : Machine S E} {check : S → E → Bool}
    {ok : S → E → Prop} (hok : ∀ s e, check s e = true → ok s e) {s s' : S} {es : List E}
    (h : (M.guard check).exec s es = some s') : GuardedRun M ok s es s' := by
  induction es generalizing s with
  | nil =>
    obtain rfl : s = s' := by simpa using h
    exact .nil s
  | cons e es ih =>
    obtain ⟨s₁, hstep, hrest⟩ := Option.bind_eq_some_iff.1 h
    obtain ⟨hcheck, hstep⟩ := Option.ite_none_right_eq_some.1 hstep
    exact .cons (hok s e hcheck) hstep (ih hrest)

/-- A guarded run on given events. -/
theorem GuardedRun.exists_run {S E : Type*} {M : Machine S E} {ok : S → E → Prop}
    [∀ s e, Decidable (ok s e)] {P Q : S → Prop} [DecidablePred P] {s : S} {es : List E}
    (h : ((M.guard fun s e => decide (ok s e)).exec s es).any (fun t => decide (P t)) = true)
    (hQ : ∀ t, GuardedRun M ok s es t → P t → Q t) : ∃ t, GuardedRun M ok s es t ∧ Q t := by
  obtain ⟨t, ht, hP⟩ := (Option.any_eq_true _ _).1 h
  have hrun := GuardedRun.of_guard (fun _ _ h => of_decide_eq_true h) ht
  exact ⟨t, hrun, hQ t hrun (of_decide_eq_true hP)⟩

/-! ## Threads -/

namespace Threads

variable {T Q P : Type*}

/-- An invariant of threads over a shared state `q`: `glob` of the state alone, `loc` of
each thread's program counter with it, `apart` of each two program counters. -/
structure Holds (glob : Q → Prop) (loc : Q → P → Prop) (apart : P → P → Prop) (q : Q)
    (pc : T → P) : Prop where
  shared : glob q
  each : ∀ t, loc q (pc t)
  pairs : ∀ t u, t ≠ u → apart (pc t) (pc u)

variable {pc : T → P} {p' : P}

/-- **A step of one thread.**  It has to leave the shared part true, reach a place where its
own part is true and keep apart from the others; the others' parts have only to survive
the change of the shared state. -/
theorem Holds.update [DecidableEq T] {glob : Q → Prop} {loc : Q → P → Prop} {apart : P → P → Prop}
    {q : Q} (h : Holds glob loc apart q pc) (t : T) {q' : Q} (hglob : glob q') (hown : loc q' p')
    (hother : ∀ u, u ≠ t → loc q (pc u) → apart (pc t) (pc u) → loc q' (pc u))
    (hapart : ∀ u, u ≠ t → apart (pc t) (pc u) → apart p' (pc u))
    (hsymm : ∀ p p', apart p p' → apart p' p) :
    Holds glob loc apart q' (Function.update pc t p') := by
  refine ⟨hglob, fun u => ?_, fun u v huv => ?_⟩
  · by_cases hut : u = t
    · subst hut
      rwa [Function.update_self]
    · rw [Function.update_of_ne hut]
      exact hother u hut (h.each u) (h.pairs t u (Ne.symm hut))
  · by_cases hut : u = t
    · subst hut
      rw [Function.update_self, Function.update_of_ne (Ne.symm huv)]
      exact hapart v (Ne.symm huv) (h.pairs u v huv)
    · by_cases hvt : v = t
      · subst hvt
        rw [Function.update_self, Function.update_of_ne hut]
        exact hsymm _ _ (hapart u hut (h.pairs v u (Ne.symm hut)))
      · rw [Function.update_of_ne hut, Function.update_of_ne hvt]
        exact h.pairs u v huv

/-- A thread with some property is still there after a step of `t`, if `t` now has it, or if
another thread had it. -/
theorem exists_update [DecidableEq T] {t : T} {prop : P → Prop}
    (h : prop p' ∨ (∃ u, prop (pc u)) ∧ ¬ prop (pc t)) :
    ∃ u, prop (Function.update pc t p' u) := by
  rcases h with hp | ⟨⟨u, hu⟩, ht⟩
  · exact ⟨t, by rwa [Function.update_self]⟩
  · have hut : u ≠ t := by
      rintro rfl
      exact ht hu
    exact ⟨u, by rwa [Function.update_of_ne hut]⟩

end Threads

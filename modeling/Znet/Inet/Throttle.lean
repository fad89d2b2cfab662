import Znet.Inet.Admission
import Znet.Lib.FixedWindow
import Znet.Lib.Keyed
import Znet.Lib.Machine

/-!
# The throttle over whole runs

`AdmissionControl::Admit` called again and again, by sources that pass the lists, while the clock
goes forward.  One host's calls are counted in fixed windows; the table of windows is swept when it
holds more than `kMaxTrackedSources`, and a host that finds it full of live windows passes
uncounted.
-/

namespace Znet

structure Door where
  admission : AdmissionControl
  clock : Int
  /-- History: the calls of each host that were counted, the last one first. -/
  hits : List UInt8 → List FixedWindow.Hit := fun _ => []

/-- The answer to a call.  The call was counted if its host has an entry now. -/
def Door.answered (d : Door) (source : InetAddress) (now : Int)
    (answer : Verdict × AdmissionControl) : Door where
  admission := answer.2
  clock := now
  hits :=
    match answer.2.sources[source.hostKey]? with
    | some entry => Function.update d.hits source.hostKey
        (⟨now, entry.windowStart, decide (answer.1 = .allow)⟩ :: d.hits source.hostKey)
    | none => d.hits

/-- A call by a source that passes the lists, not before the last one. -/
def Door.attempt (d : Door) (source : InetAddress) (now : Int) : Option Door :=
  if now < d.clock ∨ d.admission.screen source ≠ .allow then none
  else some (d.answered source now (d.admission.admitSource source now))

def attempts : Machine Door (InetAddress × Int) := ⟨fun d call => d.attempt call.1 call.2⟩

/-- Fewer than 2^31 calls are counted in any one window. -/
def Door.FewCalls (d : Door) : Prop :=
  ∀ key start, FixedWindow.hits (d.hits key) start < 2 ^ 31

namespace AdmissionControl

/-! ## One call -/

variable {a : AdmissionControl} {source : InetAddress} {now : Int} {key : List UInt8}

/-- The table after the sweep, if there is one. -/
def swept (a : AdmissionControl) (now : Int) : AdmissionControl :=
  if kMaxTrackedSources < a.sources.size then a.prune now else a

/-- A call sweeps the table if it is large, and counts unless the table is still large and does not
have the host. -/
theorem admitSource_eq (hscreen : a.screen source = .allow) (hmax : a.maxAttempts ≠ 0)
    (hwindow : 0 < a.window) (hkey : source.hostKey ≠ []) :
    a.admitSource source now =
      if kMaxTrackedSources < (a.swept now).sources.size ∧
          (a.swept now).sources[source.hostKey]? = none then (.allow, a.swept now)
      else (a.swept now).attempt source.hostKey now := by
  have hcontains : ∀ b : AdmissionControl, (¬ b.sources.contains source.hostKey = true) ↔
      b.sources[source.hostKey]? = none := by
    intro b
    simp
  rw [admitSource, if_neg (not_not.2 hscreen), if_neg (by simpa [hwindow] using hmax), swept]
  rw [if_neg hkey]
  split
  · simp only [hcontains]
  · next hsmall => rw [if_neg fun hfull => hsmall hfull.1]

theorem swept_some {entry : SourceWindow} (h : (a.swept now).sources[key]? = some entry) :
    a.sources[key]? = some entry ∧
      (kMaxTrackedSources < a.sources.size → now - entry.windowStart ≤ a.window) := by
  rw [swept] at h
  split at h
  · have hkept := Keyed.getElem?_filter_some.1 h
    exact ⟨hkept.1, fun _ => of_decide_eq_true hkept.2⟩
  · next hsmall => exact ⟨h, fun hlarge => absurd hlarge hsmall⟩

theorem swept_of_live {entry : SourceWindow} (h : a.sources[key]? = some entry)
    (hlive : now - entry.windowStart ≤ a.window) : (a.swept now).sources[key]? = some entry := by
  rw [swept]
  split
  · exact Keyed.getElem?_filter_some.2 ⟨h, decide_eq_true hlive⟩
  · exact h

theorem size_swept : (a.swept now).sources.size ≤ a.sources.size := by
  rw [swept]
  split
  · exact Std.ExtTreeMap.size_filter_le_size
  · exact le_rfl

/-- The entry of a host after its attempt was counted. -/
def counted (a : AdmissionControl) (key : List UInt8) (now : Int) : SourceWindow :=
  let entry := a.sources.getD key {}
  let entry : SourceWindow :=
    if entry.count = 0 ∨ a.window < now - entry.windowStart then ⟨now, 0⟩ else entry
  { entry with count := entry.count + 1 }

theorem attempt_eq : a.attempt key now =
    (if (a.counted key now).count ≤ a.maxAttempts then .allow else .throttled,
      { a with sources := a.sources.insert key (a.counted key now) }) := rfl

end AdmissionControl

/-- An entry, as start and count. -/
def SourceWindow.view (entry : SourceWindow) : Int × Nat := (entry.windowStart, entry.count.toNat)

/-- The entry that is counted, in the terms of one source. -/
theorem AdmissionControl.view_counted {a : AdmissionControl} {key : List UInt8} (now : Int)
    (hcount : ∀ entry, a.sources[key]? = some entry →
      0 < entry.count.toNat ∧ entry.count.toNat < 2 ^ 31) :
    (a.counted key now).view =
      FixedWindow.enter a.window now (a.sources[key]?.map SourceWindow.view) := by
  rw [counted, Std.ExtTreeMap.getD_eq_getD_getElem?]
  cases hentry : a.sources[key]? with
  | none => simp [FixedWindow.enter, SourceWindow.view]
  | some entry =>
    obtain ⟨hpos, hlt⟩ := hcount entry hentry
    have hne : entry.count ≠ 0#32 := fun hzero => by simp [hzero] at hpos
    by_cases hlive : now - entry.windowStart ≤ a.window
    · have hnot : ¬ a.window < now - entry.windowStart := not_lt.2 hlive
      simp [FixedWindow.enter, SourceWindow.view, hlive, hnot, hne]
      omega
    · simp [FixedWindow.enter, SourceWindow.view, hlive, not_le.1 hlive]

/-! ## The throttle between calls -/

/-- What holds of the throttle: every host's entry is the current one of its windows. -/
structure Door.Sound (limit : BitVec 32) (width : Int) (d : Door) : Prop where
  maxAttempts : d.admission.maxAttempts = limit
  window : d.admission.window = width
  size : d.admission.sources.size ≤ kMaxTrackedSources + 1
  hosts : d.admission.sources[([] : List UInt8)]? = none
  limited : FixedWindow.Limited width limit.toNat SourceWindow.view d.clock d.admission.sources
    d.hits

/-- What a call does to the throttle. -/
inductive Door.Admitted (d : Door) (source : InetAddress) (now : Int) : Door → Prop
  /-- A Unix path has no host. -/
  | unnamed (hkey : source.hostKey = []) :
      Admitted d source now (d.answered source now (.allow, d.admission))
  | full (hkey : source.hostKey ≠ [])
      (hsize : kMaxTrackedSources < (d.admission.swept now).sources.size)
      (habsent : (d.admission.swept now).sources[source.hostKey]? = none) :
      Admitted d source now (d.answered source now (.allow, d.admission.swept now))
  | counts (hkey : source.hostKey ≠ [])
      (hroom : (d.admission.swept now).sources[source.hostKey]? = none →
        (d.admission.swept now).sources.size ≤ kMaxTrackedSources) :
      Admitted d source now
        (d.answered source now ((d.admission.swept now).attempt source.hostKey now))

variable {limit : BitVec 32} {width : Int} {d d' : Door} {source : InetAddress} {now : Int}

section

variable (h : d.Sound limit width)
include h

theorem Door.Sound.admit_cases (hlimit : limit ≠ 0) (hwidth : 0 < width)
    (hstep : d.attempt source now = some d') : d.clock ≤ now ∧ d.Admitted source now d' := by
  obtain ⟨hpass, hstep⟩ := Option.ite_none_left_eq_some.1 hstep
  push Not at hpass
  refine ⟨hpass.1, ?_⟩
  cases hstep
  by_cases hkey : source.hostKey = []
  · have hallow : d.admission.admitSource source now = (.allow, d.admission) := by
      rw [AdmissionControl.admitSource, if_neg (not_not.2 hpass.2)]
      simp [hkey]
    rw [hallow]
    exact .unnamed hkey
  · rw [AdmissionControl.admitSource_eq hpass.2 (h.maxAttempts ▸ hlimit) (h.window ▸ hwidth) hkey]
    split
    · next hfull => exact .full hkey hfull.1 hfull.2
    · next hnot => exact .counts hkey fun habsent => not_lt.1 fun hsize => hnot ⟨hsize, habsent⟩

/-- The throttle after the sweep. -/
theorem Door.Sound.swept (hnow : d.clock ≤ now) :
    Door.Sound limit width { d with admission := d.admission.swept now, clock := now } := by
  rw [AdmissionControl.swept]
  split
  · refine ⟨h.maxAttempts, h.window, ?_, ?_, ?_⟩
    · exact Std.ExtTreeMap.size_filter_le_size.trans h.size
    · simp [AdmissionControl.prune, h.hosts]
    · have hsweep := (h.limited.later hnow).sweep
      rw [← h.window] at hsweep ⊢
      exact hsweep
  · exact { h with limited := h.limited.later hnow }

/-- The entry of the host that is counted. -/
theorem Door.Sound.view_counted (hfew : d.FewCalls) (key : List UInt8) :
    (d.admission.counted key d.clock).view =
      FixedWindow.enter width d.clock (d.admission.sources[key]?.map SourceWindow.view) := by
  rw [← h.window]
  apply AdmissionControl.view_counted
  intro entry hentry
  obtain ⟨-, hpos, hhits, -⟩ := (h.limited key).current entry.windowStart entry.count.toNat
    (by rw [hentry]; rfl)
  refine ⟨hpos, ?_⟩
  rw [hhits]
  exact hfew key _

/-- A call that is counted. -/
theorem Door.Sound.attempt (hwidth : 0 < width) (hfew : d.FewCalls)
    (hkey : source.hostKey ≠ []) (hroom : d.admission.sources[source.hostKey]? = none →
      d.admission.sources.size ≤ kMaxTrackedSources) :
    Door.Sound limit width
      (d.answered source d.clock (d.admission.attempt source.hostKey d.clock)) := by
  have hview := h.view_counted hfew source.hostKey
  have hinsert := h.limited.insert hwidth.le hview
  have hverdict : decide ((d.admission.attempt source.hostKey d.clock).1 = .allow) =
      decide ((d.admission.counted source.hostKey d.clock).view.2 ≤ limit.toNat) := by
    rw [AdmissionControl.attempt_eq, h.maxAttempts]
    split
    · next hle => exact (decide_eq_true (BitVec.le_def.1 hle)).symm
    · next hgt => exact (decide_eq_false fun hle => hgt (BitVec.le_def.2 hle)).symm
  rw [← hverdict, AdmissionControl.attempt_eq] at hinsert
  rw [AdmissionControl.attempt_eq, Door.answered]
  simp only [Std.ExtTreeMap.getElem?_insert_self]
  refine ⟨h.maxAttempts, h.window, ?_, ?_, hinsert⟩
  · rw [Std.ExtTreeMap.size_insert]
    split
    · exact h.size
    · next habsent =>
      have := hroom (Std.ExtTreeMap.getElem?_eq_none habsent)
      omega
  · rw [Keyed.getElem?_insert_of_ne hkey]
    exact h.hosts

/-- **One call.** -/
theorem Door.Sound.attempted (hwidth : 0 < width) (hfew : d.FewCalls)
    (hnow : d.clock ≤ now) (hstep : d.Admitted source now d') : d'.Sound limit width := by
  have hswept := h.swept hnow
  cases hstep with
  | unnamed hkey =>
    rw [Door.answered, hkey, h.hosts]
    exact { h with limited := h.limited.later hnow }
  | full hkey hlarge habsent =>
    rw [Door.answered, habsent]
    exact hswept
  | counts hkey hroom => exact hswept.attempt hwidth hfew hkey hroom

/-- A window that has not elapsed is neither removed nor started again. -/
theorem Door.Sound.live_kept (hfew : d.FewCalls) (hnow : d.clock ≤ now)
    (hstep : d.Admitted source now d') {key : List UInt8} {entry : SourceWindow}
    (hentry : d.admission.sources[key]? = some entry) (hlive : now - entry.windowStart ≤ width) :
    ∃ entry', d'.admission.sources[key]? = some entry' ∧
      entry'.windowStart = entry.windowStart ∧ entry.count.toNat ≤ entry'.count.toNat := by
  have hkept := AdmissionControl.swept_of_live hentry (hlive.trans_eq h.window.symm)
  cases hstep with
  | unnamed hkey => exact ⟨entry, hentry, rfl, le_rfl⟩
  | full hkey hlarge habsent => exact ⟨entry, hkept, rfl, le_rfl⟩
  | counts hkey hroom =>
    rw [Door.answered, AdmissionControl.attempt_eq]
    by_cases heq : source.hostKey = key
    · subst heq
      have hview := (h.swept hnow).view_counted hfew source.hostKey
      simp only [hkept, Option.map_some, SourceWindow.view, FixedWindow.enter, if_pos hlive,
        Prod.mk.injEq] at hview
      exact ⟨_, Std.ExtTreeMap.getElem?_insert_self, hview.1, by omega⟩
    · exact ⟨entry, (Keyed.getElem?_insert_of_ne heq _).trans hkept, rfl, le_rfl⟩

/-- A host that passes uncounted finds the table full of other hosts' live windows. -/
theorem Door.Sound.uncounted (hstep : d.Admitted source now d')
    (huncounted : d'.admission.sources[source.hostKey]? = none) :
    source.hostKey = [] ∨ d'.admission.sources.size = kMaxTrackedSources + 1 ∧
      ∀ key entry, d'.admission.sources[key]? = some entry →
        key ≠ source.hostKey ∧ now - entry.windowStart ≤ width := by
  cases hstep with
  | unnamed hkey => exact .inl hkey
  | full hkey hlarge habsent =>
    have hsize : (d.admission.swept now).sources.size ≤ d.admission.sources.size :=
      AdmissionControl.size_swept
    refine .inr ⟨le_antisymm (hsize.trans h.size) hlarge, fun key entry hentry => ⟨?_, ?_⟩⟩
    · rintro rfl
      cases habsent.symm.trans hentry
    · rw [← h.window]
      exact (AdmissionControl.swept_some hentry).2 (hlarge.trans_le hsize)
  | counts hkey hroom =>
    simp [Door.answered, AdmissionControl.attempt_eq] at huncounted

end

/-! ## Whole runs -/

/-- The throttle before its first call. -/
def opened (allowlist denylist : List CIDRBlock) (maxAttempts : BitVec 32) (window : Int)
    (clock : Int) : Door :=
  { admission := .new allowlist denylist maxAttempts window, clock }

/-- A call adds at most one hit. -/
theorem Door.hits_attempt (hstep : d.attempt source now = some d') (key : List UInt8)
    (start : Int) :
    FixedWindow.hits (d.hits key) start ≤ FixedWindow.hits (d'.hits key) start ∧
      FixedWindow.hits (d'.hits key) start ≤ FixedWindow.hits (d.hits key) start + 1 := by
  obtain ⟨-, ⟨⟩⟩ := Option.ite_none_left_eq_some.1 hstep
  rw [Door.answered]
  split
  · by_cases hkey : key = source.hostKey
    · subst hkey
      simp only [Function.update_self, FixedWindow.hits_cons]
      split
      · omega
      · omega
    · simp [hkey]
  · simp

theorem Door.hits_le_calls {calls : List (InetAddress × Int)}
    (hrun : attempts.exec d calls = some d') (key : List UInt8) (start : Int) :
    FixedWindow.hits (d'.hits key) start ≤ FixedWindow.hits (d.hits key) start + calls.length := by
  induction calls generalizing d with
  | nil =>
    cases hrun
    exact le_rfl
  | cons call calls ih =>
    obtain ⟨d₁, hstep, hrest⟩ := Option.bind_eq_some_iff.1 hrun
    have hone := (Door.hits_attempt hstep key start).2
    have := ih hrest
    rw [List.length_cons]
    omega

theorem sound_of_attempts {allowlist denylist : List CIDRBlock} {start : Int}
    {calls : List (InetAddress × Int)} (hlimit : limit ≠ 0) (hwidth : 0 < width)
    (hrun : attempts.exec (opened allowlist denylist limit width start) calls = some d)
    (hfew : d.FewCalls) : d.Sound limit width := by
  refine attempts.exec_invariant (I := fun d => d.FewCalls → d.Sound limit width) ?_ hrun ?_ hfew
  · rintro d ⟨source, now⟩ d' ih hstep hfew'
    have hfew : d.FewCalls := fun key start =>
      (Door.hits_attempt hstep key start).1.trans_lt (hfew' key start)
    obtain ⟨hnow, hadmitted⟩ := (ih hfew).admit_cases hlimit hwidth hstep
    exact (ih hfew).attempted hwidth hfew hnow hadmitted
  · intro _
    refine ⟨rfl, rfl, ?_, ?_, FixedWindow.limited_empty _ _ _ _⟩
    · simp [opened, AdmissionControl.new]
    · simp [opened, AdmissionControl.new]

/-- **The throttle holds, and stays bounded.**  After every run of calls that pass the lists: the
table has at most 4097 entries; the next call neither removes nor restarts a window that has not
elapsed, and passes uncounted only for a Unix path, or if 4097 other hosts have live windows; of a
host's counted calls no more than `maxAttempts` were allowed in one of its windows, and no more than
twice as many in any stretch of a window's length. -/
theorem throttle_holds {allowlist denylist : List CIDRBlock} {start : Int}
    {calls : List (InetAddress × Int)} (hlimit : limit ≠ 0) (hwidth : 0 < width)
    (hrun : attempts.exec (opened allowlist denylist limit width start) calls = some d)
    (hfew : d.FewCalls) :
    d.admission.sources.size ≤ 4097 ∧
    (∀ source now d', d.attempt source now = some d' →
      (∀ (key : List UInt8) (entry : SourceWindow), d.admission.sources[key]? = some entry →
        now - entry.windowStart ≤ width → ∃ entry' : SourceWindow,
          d'.admission.sources[key]? = some entry' ∧ entry'.windowStart = entry.windowStart ∧
            entry.count.toNat ≤ entry'.count.toNat) ∧
      (d'.admission.sources[source.hostKey]? = none →
        (∃ path, source = .unix path) ∨ d'.admission.sources.size = 4097 ∧
          ∀ (key : List UInt8) (entry : SourceWindow), d'.admission.sources[key]? = some entry →
            key ≠ source.hostKey ∧ now - entry.windowStart ≤ width)) ∧
    (∀ key first, ((d.hits key).countP fun x =>
        decide (first ≤ x.time ∧ x.time < first + width) && x.granted) ≤ 2 * limit.toNat) ∧
    (∀ key start, FixedWindow.grants (d.hits key) start ≤ limit.toNat) := by
  have h := sound_of_attempts hlimit hwidth hrun hfew
  refine ⟨h.size, fun source now d' hstep => ?_, fun key => (h.limited key).interval,
    fun key => (h.limited key).grants_le⟩
  obtain ⟨hnow, hadmitted⟩ := h.admit_cases hlimit hwidth hstep
  refine ⟨fun key entry => h.live_kept hfew hnow hadmitted, fun huncounted => ?_⟩
  rcases h.uncounted hadmitted huncounted with hunnamed | hfull
  · left
    cases source with
    | unix path => exact ⟨path, rfl⟩
    | inet endpoint =>
      have hlength := endpoint.host.length_key
      rw [show endpoint.host.key = [] from hunnamed] at hlength
      simp at hlength
  · exact .inr hfull

/-- Three calls of one host, of which the second is too much for its window. -/
theorem throttle_holds_twice :
    ∃ d, attempts.exec (opened [] [] 1 10 0)
        [(.inet ⟨.ipv4 #v[10, 0, 0, 1], 4000⟩, 0), (.inet ⟨.ipv4 #v[10, 0, 0, 1], 4001⟩, 1),
          (.inet ⟨.ipv4 #v[10, 0, 0, 1], 4002⟩, 20)] = some d ∧
      (d.hits [10, 0, 0, 1]).map FixedWindow.Hit.granted = [true, false, true] ∧
      ∀ key start, FixedWindow.grants (d.hits key) start ≤ 1 := by
  apply Machine.exists_exec (P := fun d =>
    (d.hits [10, 0, 0, 1]).map FixedWindow.Hit.granted = [true, false, true]) (by decide +kernel)
  intro d hrun hgranted
  have hfew : d.FewCalls := fun key start =>
    (Door.hits_le_calls hrun key start).trans_lt (by simp [opened, FixedWindow.hits])
  exact ⟨hgranted, (throttle_holds (by decide) (by decide) hrun hfew).2.2.2⟩

/-- **A Unix path passes uncounted**, whatever the table holds. -/
theorem unix_path_uncounted :
    ∃ d, attempts.exec (opened [] [] 1 10 0) [(.unix [47], 0)] = some d ∧
      (AdmissionControl.admitSource (.new [] [] 1 10) (.unix [47]) 0).1 = .allow ∧
      d.admission.sources.size = 0 :=
  Machine.exists_exec (by decide +kernel) fun _ _ => id

end Znet

import Znet.Inet.Address

/-!
# The NAT verdict of a gather

`ClassifyNat` of `gather.cc`: a gather asks several reflectors which public mapping they see for its
socket, and concludes from their reports how the NAT in between maps.  The loop takes the first
report as its baseline and commits on the first report of another host.
-/

namespace Znet
namespace P2p

inductive NatType where
  | unknown
  | endpointIndependent
  | addressDependent
  deriving DecidableEq, Repr

/-- The reflector that was asked and the mapping it saw; both are pointers. -/
structure Reflection where
  reflector : Option InetAddress
  mapping : Option InetAddress
  deriving DecidableEq

/-- The loop of `ClassifyNat`, with its baseline. -/
def classifyLoop (baseline : Option (InetAddress × InetAddress)) : List Reflection → NatType
  | [] => .unknown
  | ⟨some reflector, some mapping⟩ :: rest =>
    match baseline with
    | none => classifyLoop (some (reflector, mapping)) rest
    | some (first, seen) =>
      if first.hostKey = reflector.hostKey then classifyLoop baseline rest
      else if seen = mapping then .endpointIndependent
      else .addressDependent
  | _ :: rest => classifyLoop baseline rest

/-- `ClassifyNat`. -/
def classifyNat (reflections : List Reflection) : NatType := classifyLoop none reflections

/-- One reflector a probe asks. -/
structure Target where
  reflector : InetAddress
  answered : Bool := false
  observed : Option InetAddress := none

/-- `ReflectProbe::nat_type`. -/
def ReflectProbe.natType (targets : List Target) : NatType :=
  classifyNat ((targets.filter fun t => t.answered && t.observed.isSome).map
    fun t => ⟨some t.reflector, t.observed⟩)

/-! ## What a verdict rests on -/

/-- Both reports are usable, and their reflectors are on different hosts. -/
def Reflection.apart : Reflection → Reflection → Bool
  | ⟨some a, some _⟩, ⟨some b, some _⟩ => a.hostKey != b.hostKey
  | _, _ => false

/-- What a list of reports contains when it has this verdict. -/
def Shows (rs : List Reflection) : NatType → Prop
  | .unknown => ∀ a ∈ rs, ∀ b ∈ rs, a.apart b = false
  | .endpointIndependent => ∃ a ∈ rs, ∃ b ∈ rs, a.apart b = true ∧ a.mapping = b.mapping
  | .addressDependent => ∃ a ∈ rs, ∃ b ∈ rs, a.apart b = true ∧ a.mapping ≠ b.mapping

variable {rs rs' : List Reflection} {a b : Reflection} {verdict : NatType}

theorem Shows.perm (h : Shows rs verdict) (hperm : rs'.Perm rs) : Shows rs' verdict := by
  cases verdict with
  | unknown | endpointIndependent | addressDependent => simpa only [Shows, hperm.mem_iff] using h

/-- What the loop has found when it compares with one report. -/
def Against (a : Reflection) (rs : List Reflection) : NatType → Prop
  | .unknown => ∀ b ∈ rs, a.apart b = false
  | .endpointIndependent => ∃ b ∈ rs, a.apart b = true ∧ a.mapping = b.mapping
  | .addressDependent => ∃ b ∈ rs, a.apart b = true ∧ a.mapping ≠ b.mapping

theorem Against.skip (h : Against a rs verdict) (hb : a.apart b = false) :
    Against a (b :: rs) verdict := by
  cases verdict with
  | unknown => simpa [Against, hb] using h
  | endpointIndependent | addressDependent =>
    obtain ⟨x, hx, hfound⟩ := h
    exact ⟨x, List.mem_cons_of_mem b hx, hfound⟩

theorem against_classifyLoop (first seen : InetAddress) (rs : List Reflection) :
    Against ⟨some first, some seen⟩ rs (classifyLoop (some (first, seen)) rs) := by
  induction rs with
  | nil => simp [classifyLoop, Against]
  | cons b rest ih =>
    rcases b with ⟨_ | reflector, _ | mapping⟩
    · exact ih.skip rfl
    · exact ih.skip rfl
    · exact ih.skip rfl
    · rw [classifyLoop]
      split
      · next hhost => exact ih.skip (by simp [Reflection.apart, hhost])
      · next hhost =>
        split
        · next hseen => simp [Against, Reflection.apart, hhost, hseen]
        · next hseen => simp [Against, Reflection.apart, hhost, hseen]

theorem apart_iff : a.apart b = true ↔ ∃ x m y n,
    a = ⟨some x, some m⟩ ∧ b = ⟨some y, some n⟩ ∧ x.hostKey ≠ y.hostKey := by
  rcases a with ⟨_ | x, _ | m⟩ <;> rcases b with ⟨_ | y, _ | n⟩ <;> simp [Reflection.apart]

theorem apart_self (a : Reflection) : a.apart a = false := by
  rw [Bool.eq_false_iff]
  intro h
  obtain ⟨x, m, y, n, rfl, hsame, hne⟩ := apart_iff.1 h
  cases hsame
  exact hne rfl

/-- Two reports of the baseline's host are not of different hosts. -/
theorem apart_of_baseline {first seen : InetAddress}
    (ha : Reflection.apart ⟨some first, some seen⟩ a = false)
    (hb : Reflection.apart ⟨some first, some seen⟩ b = false) : a.apart b = false := by
  rw [Bool.eq_false_iff]
  intro h
  obtain ⟨x, m, y, n, rfl, rfl, hne⟩ := apart_iff.1 h
  simp only [Reflection.apart, bne_eq_false_iff_eq] at ha hb
  exact hne (ha.symm.trans hb)

theorem Against.shows {first seen : InetAddress} (h : Against ⟨some first, some seen⟩ rs verdict) :
    Shows (⟨some first, some seen⟩ :: rs) verdict := by
  cases verdict with
  | unknown =>
    have hsame : ∀ x ∈ (⟨some first, some seen⟩ : Reflection) :: rs,
        Reflection.apart ⟨some first, some seen⟩ x = false := by
      intro x hx
      rcases List.mem_cons.1 hx with rfl | hx
      · exact apart_self _
      · exact h x hx
    intro a ha b hb
    exact apart_of_baseline (hsame a ha) (hsame b hb)
  | endpointIndependent | addressDependent =>
    obtain ⟨b, hb, hfound⟩ := h
    exact ⟨_, List.mem_cons_self, b, List.mem_cons_of_mem _ hb, hfound⟩

/-- The verdict is shown by the reports. -/
theorem shows_classifyNat (rs : List Reflection) : Shows rs (classifyNat rs) := by
  induction rs with
  | nil => simp [classifyNat, classifyLoop, Shows]
  | cons b rest ih =>
    have hskip : (∀ x, b.apart x = false) → (∀ x : Reflection, x.apart b = false) →
        Shows (b :: rest) (classifyNat rest) := by
      intro hleft hright
      revert ih
      cases classifyNat rest with
      | unknown | endpointIndependent | addressDependent => simp [Shows, hleft, hright]
    rcases b with ⟨_ | reflector, _ | mapping⟩
    · exact hskip (fun _ => rfl) (by rintro ⟨_ | _, _ | _⟩ <;> rfl)
    · exact hskip (fun _ => rfl) (by rintro ⟨_ | _, _ | _⟩ <;> rfl)
    · exact hskip (fun _ => rfl) (by rintro ⟨_ | _, _ | _⟩ <;> rfl)
    · exact (against_classifyLoop reflector mapping rest).shows

/-! ## The order of the list -/

/-- Two reports of different hosts settle the verdict when they come first. -/
theorem classifyNat_cons_cons (h : a.apart b = true) (rest : List Reflection) :
    classifyNat (a :: b :: rest) =
      if a.mapping = b.mapping then .endpointIndependent else .addressDependent := by
  obtain ⟨x, m, y, n, rfl, rfl, hne⟩ := apart_iff.1 h
  simp [classifyNat, classifyLoop, hne]

theorem perm_first (ha : a ∈ rs) (hb : b ∈ rs) (h : a.apart b = true) :
    ∃ rest, (a :: b :: rest).Perm rs := by
  have hne : b ≠ a := by
    rintro rfl
    simp [apart_self] at h
  have hb' : b ∈ rs.erase a := (List.mem_erase_of_ne hne).2 hb
  exact ⟨_, ((List.perm_cons_erase hb').symm.cons a).trans (List.perm_cons_erase ha).symm⟩

/-- **The NAT verdict and the order of the list.**  The verdict is the same for every order of the
reports, and says of all of them what it means, exactly if the reports of different hosts all agree
on the mapping or all disagree. -/
theorem nat_verdict_settled_iff (rs : List Reflection) :
    ((∀ rs' : List Reflection, rs'.Perm rs → classifyNat rs' = classifyNat rs) ∧
      (classifyNat rs = .endpointIndependent →
        ∀ a ∈ rs, ∀ b ∈ rs, a.apart b = true → a.mapping = b.mapping) ∧
      (classifyNat rs = .addressDependent →
        ∃ a ∈ rs, ∃ b ∈ rs, a.apart b = true ∧ a.mapping ≠ b.mapping) ∧
      (classifyNat rs = .unknown → ∀ a ∈ rs, ∀ b ∈ rs, a.apart b = false)) ↔
    (∀ a ∈ rs, ∀ b ∈ rs, a.apart b = true → a.mapping = b.mapping) ∨
      (∀ a ∈ rs, ∀ b ∈ rs, a.apart b = true → a.mapping ≠ b.mapping) := by
  constructor
  · rintro ⟨horder, -⟩
    by_contra hmixed
    push Not at hmixed
    obtain ⟨⟨a, ha, b, hb, hab, hdiffer⟩, c, hc, d, hd, hcd, hagree⟩ := hmixed
    -- either pair settles the verdict once it is put first
    obtain ⟨rest, hperm⟩ := perm_first ha hb hab
    obtain ⟨rest', hperm'⟩ := perm_first hc hd hcd
    have hsame := (horder _ hperm).trans (horder _ hperm').symm
    rw [classifyNat_cons_cons hab, classifyNat_cons_cons hcd, if_neg hdiffer,
      if_pos hagree] at hsame
    cases hsame
  · intro huniform
    have hunique : ∀ v w, Shows rs v → Shows rs w → v = w := by
      intro v w hv hw
      cases v with
      | unknown | endpointIndependent | addressDependent =>
        cases w with
        | unknown | endpointIndependent | addressDependent => grind [Shows]
    have hshown := shows_classifyNat rs
    refine ⟨fun rs' hperm => ?_, fun hverdict => ?_, fun hverdict => ?_, fun hverdict => ?_⟩
    · exact hunique _ _ ((shows_classifyNat rs').perm hperm.symm) hshown
    · rw [hverdict] at hshown
      obtain ⟨a, ha, b, hb, hab, hagree⟩ := hshown
      rcases huniform with hall | hnone
      · exact hall
      · exact absurd hagree (hnone a ha b hb hab)
    · rwa [hverdict] at hshown
    · rwa [hverdict] at hshown

/-- A report of the reflector at 198.51.100.`host`. -/
def report (host : UInt8) (port : BitVec 16) : Reflection where
  reflector := some (.inet ⟨.ipv4 #v[198, 51, 100, host], 3478⟩)
  mapping := some (.inet ⟨.ipv4 #v[203, 0, 113, 7], port⟩)

/-- **Three reflectors, one of which sees another port.**  Which of the other two is listed before
it decides the verdict. -/
theorem nat_verdict_by_order :
    [report 1 55000, report 3 55001, report 2 55000].Perm
        [report 1 55000, report 2 55000, report 3 55001] ∧
      classifyNat [report 1 55000, report 2 55000, report 3 55001] = .endpointIndependent ∧
      classifyNat [report 1 55000, report 3 55001, report 2 55000] = .addressDependent := by
  refine ⟨(List.Perm.swap _ _ _).cons _, ?_, ?_⟩
  · decide
  · decide

end P2p
end Znet

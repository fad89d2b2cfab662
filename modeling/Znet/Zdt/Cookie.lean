import Znet.Inet.Address

/-!
# Return-routability cookies

The `CookieSecret` of `zdt_cookie.cc`: a secret that is replaced when `MaybeRotate` finds its
interval over, with the one before it kept.  A cookie is an HMAC of a key and an epoch; the
server sends it to an address and asks for it back.  Secrets and cookies are of any types
here, the HMAC is a parameter, and `random` gives the secrets that are drawn, one after the
other.

* `compute_minted_iff` — **a cookie passes exactly until the second rotation after it was
  minted**, whatever the epoch counter does, unless two of the secrets drawn sign its key alike.
-/

namespace Znet
namespace Zdt

/-- The signing secret.  `previous` is `previous_` where `has_previous_` is set. -/
structure CookieSecret (Secret : Type) where
  current : Secret
  previous : Option Secret := none
  epoch : BitVec 32 := 0
  lastRotation : Int
  /-- History: how many times the secret was replaced. -/
  rotations : Nat := 0

variable {Secret Cookie : Type}

/-- What is signed: a key, a bar, and the epoch, low byte first. -/
def cookieMessage (key : List UInt8) (epoch : BitVec 32) : List UInt8 :=
  key ++ bar :: Bytes.le 4 epoch.toNat

/-- `ComputeCookie`. -/
def computeCookie (hmac : Secret → List UInt8 → Cookie) (secret : Secret) (key : List UInt8)
    (epoch : BitVec 32) : Cookie :=
  hmac secret (cookieMessage key epoch)

/-- The text in front of a path key. -/
def pathPrefix : List UInt8 := [112, 97, 116, 104, 124]

/-- `PathCookieKey`. -/
def pathCookieKey (peerReadable : List UInt8) (cid : BitVec 64) : List UInt8 :=
  pathPrefix ++ (peerReadable ++ bar :: Text.decimal cid.toNat)

namespace CookieSecret

/-- The constructor. -/
def new (random : Nat → Secret) (now : Int) : CookieSecret Secret :=
  { current := random 0, lastRotation := now }

/-- `CookieSecret::MaybeRotate`. -/
def maybeRotate (random : Nat → Secret) (interval now : Int) (c : CookieSecret Secret) :
    CookieSecret Secret :=
  if now - c.lastRotation < interval then c
  else
    { current := random (c.rotations + 1)
      previous := some c.current
      epoch := c.epoch + 1
      lastRotation := now
      rotations := c.rotations + 1 }

/-- `CookieSecret::Compute`. -/
def compute (hmac : Secret → List UInt8 → Cookie) (c : CookieSecret Secret) (key : List UInt8)
    (epoch : BitVec 32) : Cookie :=
  match c.previous with
  | some previous =>
    if epoch ≠ c.epoch ∧ epoch = c.epoch - 1 then computeCookie hmac previous key epoch
    else computeCookie hmac c.current key epoch
  | none => computeCookie hmac c.current key epoch

/-- The cookie that is issued: under the current secret, with the epoch that goes with it. -/
def mint (hmac : Secret → List UInt8 → Cookie) (c : CookieSecret Secret) (key : List UInt8) :
    Cookie :=
  c.compute hmac key c.epoch

/-! ## The secrets that are drawn -/

theorem epoch_succ (n : Nat) : BitVec.ofNat 32 (n + 1) = BitVec.ofNat 32 n + 1 :=
  BitVec.ofNat_add n 1

/-- The secrets are those that were drawn last. -/
structure Drawn (random : Nat → Secret) (c : CookieSecret Secret) : Prop where
  current : c.current = random c.rotations
  previous : c.previous = if c.rotations = 0 then none else some (random (c.rotations - 1))
  epoch : c.epoch = BitVec.ofNat 32 c.rotations

variable {random : Nat → Secret} {c : CookieSecret Secret}

theorem drawn_new (random : Nat → Secret) (now : Int) : Drawn random (new random now) :=
  ⟨rfl, rfl, rfl⟩

theorem Drawn.maybeRotate (h : Drawn random c) (interval now : Int) :
    Drawn random (c.maybeRotate random interval now) := by
  unfold CookieSecret.maybeRotate
  split
  · exact h
  · refine ⟨rfl, ?_, ?_⟩
    · rw [if_neg (Nat.succ_ne_zero _), Nat.add_sub_cancel, h.current]
    · rw [epoch_succ, h.epoch]

/-- Rotating is drawing once, or not at all. -/
theorem rotations_maybeRotate (random : Nat → Secret) (interval now : Int)
    (c : CookieSecret Secret) :
    c.rotations ≤ (c.maybeRotate random interval now).rotations := by
  unfold CookieSecret.maybeRotate
  split
  · exact le_rfl
  · exact Nat.le_succ _

/-- **The secret a check uses.**  It is the current one, or the one before it, and then the
epoch is the one before. -/
theorem Drawn.compute_eq (h : Drawn random c) (hmac : Secret → List UInt8 → Cookie)
    (key : List UInt8) (epoch : BitVec 32) :
    c.compute hmac key epoch = computeCookie hmac (random c.rotations) key epoch ∨
      0 < c.rotations ∧ epoch = BitVec.ofNat 32 (c.rotations - 1) ∧
        c.compute hmac key epoch = computeCookie hmac (random (c.rotations - 1)) key epoch := by
  unfold compute
  rw [h.previous, h.current]
  by_cases hzero : c.rotations = 0
  · rw [if_pos hzero]
    exact .inl rfl
  · rw [if_neg hzero]
    simp only
    split
    · next hepoch =>
      refine .inr ⟨Nat.pos_of_ne_zero hzero, ?_, rfl⟩
      obtain ⟨n, hn⟩ := Nat.exists_eq_succ_of_ne_zero hzero
      rw [hepoch.2, h.epoch, hn, Nat.succ_sub_one, Nat.succ_eq_add_one, epoch_succ,
        BitVec.add_sub_cancel]
    · exact .inl rfl

theorem Drawn.mint_eq (h : Drawn random c) (hmac : Secret → List UInt8 → Cookie)
    (key : List UInt8) :
    c.mint hmac key = computeCookie hmac (random c.rotations) key c.epoch := by
  unfold mint compute
  rw [h.current]
  split
  · rw [if_neg (fun hne => hne.1 rfl)]
  · rfl

/-- The epoch before is checked with the secret before. -/
theorem Drawn.compute_previous (h : Drawn random c) (hmac : Secret → List UInt8 → Cookie)
    (key : List UInt8) {n : Nat} (hn : c.rotations = n + 1) :
    c.compute hmac key (BitVec.ofNat 32 n) =
      computeCookie hmac (random n) key (BitVec.ofNat 32 n) := by
  have hepoch : c.epoch = BitVec.ofNat 32 n + 1 := by rw [h.epoch, hn, epoch_succ]
  have hne : BitVec.ofNat 32 n ≠ c.epoch := by
    rw [hepoch]
    bv_omega
  have hsub : BitVec.ofNat 32 n = c.epoch - 1 := by rw [hepoch, BitVec.add_sub_cancel]
  unfold compute
  rw [h.previous, hn, if_neg (Nat.succ_ne_zero n), Nat.add_sub_cancel]
  simp only
  rw [if_pos ⟨hne, hsub⟩]

section Checks

variable {hmac : Secret → List UInt8 → Cookie} {key : List UInt8} {later : CookieSecret Secret}

/-- No other secret drawn until the check signs `key` with the cookie that `c` mints. -/
def Distinct (hmac : Secret → List UInt8 → Cookie) (random : Nat → Secret) (key : List UInt8)
    (c later : CookieSecret Secret) : Prop :=
  ∀ n ≤ later.rotations, n ≠ c.rotations →
    computeCookie hmac (random n) key c.epoch ≠ c.mint hmac key

theorem Drawn.compute_minted (h : Drawn random c) (hlater : Drawn random later)
    (hle : c.rotations ≤ later.rotations) (hnear : later.rotations ≤ c.rotations + 1) :
    later.compute hmac key c.epoch = c.mint hmac key := by
  rw [h.mint_eq, h.epoch]
  rcases Nat.lt_or_ge c.rotations later.rotations with hlt | hge
  · exact hlater.compute_previous hmac key (by omega)
  · have hsame : later.rotations = c.rotations := by omega
    have hepoch : later.epoch = BitVec.ofNat 32 c.rotations := by rw [hlater.epoch, hsame]
    have hmint := hlater.mint_eq hmac key
    unfold mint at hmint
    rwa [hepoch, hsame] at hmint

/-- **A cookie passes until the second rotation.**  Neither side depends on the epoch counter
staying below its period. -/
theorem Drawn.compute_minted_iff (hdistinct : Distinct hmac random key c later)
    (h : Drawn random c) (hlater : Drawn random later) (hle : c.rotations ≤ later.rotations) :
    later.compute hmac key c.epoch = c.mint hmac key ↔ later.rotations ≤ c.rotations + 1 := by
  refine ⟨fun heq => ?_, h.compute_minted hlater hle⟩
  by_contra hfar
  rcases hlater.compute_eq hmac key c.epoch with hcurrent | ⟨-, -, hprevious⟩
  · exact hdistinct later.rotations le_rfl (by omega) (hcurrent.symm.trans heq)
  · exact hdistinct (later.rotations - 1) (by omega) (by omega) (hprevious.symm.trans heq)

end Checks

/-! ## Calls at different times -/

/-- Calls of `MaybeRotate`, one after the other. -/
def rotateAt (random : Nat → Secret) (interval : Int) (calls : List Int) (c : CookieSecret Secret) :
    CookieSecret Secret :=
  calls.foldl (fun c now => c.maybeRotate random interval now) c

theorem Drawn.rotateAt (h : Drawn random c) (interval : Int) (calls : List Int) :
    Drawn random (c.rotateAt random interval calls) := by
  induction calls generalizing c with
  | nil => exact h
  | cons now calls ih => exact ih (h.maybeRotate interval now)

theorem rotations_rotateAt (random : Nat → Secret) (interval : Int) (calls : List Int)
    (c : CookieSecret Secret) : c.rotations ≤ (c.rotateAt random interval calls).rotations := by
  induction calls generalizing c with
  | nil => exact le_rfl
  | cons now calls ih => exact (rotations_maybeRotate random interval now c).trans (ih _)

variable {interval now v : Int} {calls : List Int}

theorem maybeRotate_early (h : now - c.lastRotation < interval) :
    c.maybeRotate random interval now = c :=
  if_pos h

/-- A call that is not early replaces the secret. -/
theorem maybeRotate_late (random : Nat → Secret) (h : ¬ now - c.lastRotation < interval) :
    (c.maybeRotate random interval now).rotations = c.rotations + 1 ∧
      (c.maybeRotate random interval now).lastRotation = now := by
  unfold maybeRotate
  rw [if_neg h]
  exact ⟨rfl, rfl⟩

/-- Calls that are all early do nothing. -/
theorem rotateAt_early (h : ∀ call ∈ calls, call - c.lastRotation < interval) :
    c.rotateAt random interval calls = c := by
  induction calls with
  | nil => rfl
  | cons now calls ih =>
    rw [List.forall_mem_cons] at h
    show (c.maybeRotate random interval now).rotateAt random interval calls = c
    rw [maybeRotate_early h.1, ih h.2]

/-- Within one interval there is at most one rotation. -/
theorem rotations_within_interval {t : Int} (h : ∀ call ∈ calls, t ≤ call ∧ call < t + interval) :
    (c.rotateAt random interval calls).rotations ≤ c.rotations + 1 := by
  induction calls with
  | nil => exact Nat.le_succ _
  | cons now calls ih =>
    rw [List.forall_mem_cons] at h
    show ((c.maybeRotate random interval now).rotateAt random interval calls).rotations ≤ _
    by_cases hearly : now - c.lastRotation < interval
    · rw [maybeRotate_early hearly]
      exact ih h.2
    · -- the rotation is at `now`, and the calls that follow are all early
      obtain ⟨hrotations, hlast⟩ := maybeRotate_late random hearly
      rw [rotateAt_early, hrotations]
      intro call hcall
      have := h.2 call hcall
      omega

/-- Calls in order, the last of them at `v`: one rotates exactly if `v` is late enough. -/
theorem rotates_iff (random : Nat → Secret) (interval : Int) (c : CookieSecret Secret)
    (h : ∀ call ∈ calls, call ≤ v) :
    c.rotations + 1 ≤ (c.rotateAt random interval (calls ++ [v])).rotations ↔
      c.lastRotation + interval ≤ v := by
  constructor
  · intro hrotates
    by_contra hearly
    have hall : ∀ call ∈ calls ++ [v], call - c.lastRotation < interval := by
      intro call hcall
      rcases List.mem_append.1 hcall with hcall | hcall
      · have := h call hcall
        omega
      · rw [List.mem_singleton.1 hcall]
        omega
    rw [rotateAt_early hall] at hrotates
    omega
  · intro hlate
    induction calls generalizing c with
    | nil =>
      have hv : ¬ v - c.lastRotation < interval := by omega
      exact (maybeRotate_late random hv).1.ge
    | cons now calls ih =>
      rw [List.forall_mem_cons] at h
      show _ ≤ ((c.maybeRotate random interval now).rotateAt random interval
        (calls ++ [v])).rotations
      by_cases hearly : now - c.lastRotation < interval
      · rw [maybeRotate_early hearly]
        exact ih _ h.2 hlate
      · rw [← (maybeRotate_late random hearly).1]
        exact rotations_rotateAt _ _ _ _

/-- Calls in order, the last of them at `v`: two rotate exactly if one before `v` is late enough
itself and early enough for `v`. -/
theorem rotates_twice_iff (random : Nat → Secret) (interval : Int) (c : CookieSecret Secret)
    (hsorted : (calls ++ [v]).Pairwise (· ≤ ·)) :
    c.rotations + 2 ≤ (c.rotateAt random interval (calls ++ [v])).rotations ↔
      ∃ call ∈ calls, c.lastRotation + interval ≤ call ∧ call + interval ≤ v := by
  induction calls with
  | nil =>
    have hone : (c.rotateAt random interval [v]).rotations ≤ c.rotations + 1 := by
      show (c.maybeRotate random interval v).rotations ≤ _
      unfold maybeRotate
      split
      · exact Nat.le_succ _
      · exact le_rfl
    refine iff_of_false ?_ (by simp)
    rw [List.nil_append]
    omega
  | cons now calls ih =>
    rw [List.cons_append, List.pairwise_cons] at hsorted
    have hcalls : ∀ call ∈ calls, call ≤ v :=
      fun call hcall => (List.pairwise_append.1 hsorted.2).2.2 call hcall v (by simp)
    show _ ≤ ((c.maybeRotate random interval now).rotateAt random interval
      (calls ++ [v])).rotations ↔ _
    by_cases hearly : now - c.lastRotation < interval
    · rw [maybeRotate_early hearly, ih hsorted.2, List.exists_mem_cons_iff]
      have hnot : ¬ (c.lastRotation + interval ≤ now ∧ now + interval ≤ v) := by omega
      rw [or_iff_right hnot]
    · obtain ⟨hrotations, hlast⟩ := maybeRotate_late random hearly
      have hone := rotates_iff random interval (c.maybeRotate random interval now) hcalls
      rw [hrotations, hlast] at hone
      rw [hone]
      constructor
      · intro hv
        exact ⟨now, List.mem_cons_self, by omega, hv⟩
      · rintro ⟨call, hcall, -, hv⟩
        rcases List.mem_cons.1 hcall with rfl | hcall
        · exact hv
        · have := hsorted.1 call (List.mem_append_left _ hcall)
          omega

/-- **The lifetime of a cookie.**  It is minted at `t`, after some calls; further calls follow,
and it is checked at `v`.  Before `t + interval` it passes.  From `t + 2 * interval` on, with
a call at `v` just before the check, it fails exactly if one of the calls in between came an
interval or more after the last rotation and an interval or more before `v`; here the secrets
drawn give different cookies. -/
theorem cookie_lifetime (hmac : Secret → List UInt8 → Cookie) (random : Nat → Secret)
    (interval start t v : Int) (before after : List Int)
    (hsorted : (start :: (before ++ t :: (after ++ [v]))).Pairwise (· ≤ ·)) (key : List UInt8) :
    (v < t + interval →
      (((new random start).rotateAt random interval before).rotateAt random interval after).compute
          hmac key ((new random start).rotateAt random interval before).epoch =
        ((new random start).rotateAt random interval before).mint hmac key) ∧
    (t + 2 * interval ≤ v →
      Distinct hmac random key ((new random start).rotateAt random interval before)
        (((new random start).rotateAt random interval before).rotateAt random interval
          (after ++ [v])) →
      ((((new random start).rotateAt random interval before).rotateAt random interval
            (after ++ [v])).compute hmac key
            ((new random start).rotateAt random interval before).epoch ≠
          ((new random start).rotateAt random interval before).mint hmac key ↔
        ∃ call ∈ after,
          ((new random start).rotateAt random interval before).lastRotation + interval ≤ call ∧
            call + interval ≤ v)) := by
  have hdrawn := (drawn_new random start).rotateAt interval before
  generalize (new random start).rotateAt random interval before = c at hdrawn ⊢
  rw [List.pairwise_cons, List.pairwise_append, List.pairwise_cons] at hsorted
  obtain ⟨-, -, ⟨hmint, hafter⟩, -⟩ := hsorted
  constructor
  · intro hv
    refine hdrawn.compute_minted (hdrawn.rotateAt interval after) (rotations_rotateAt _ _ _ _) ?_
    refine rotations_within_interval (t := t) fun call hcall => ?_
    have hlow := hmint call (List.mem_append_left _ hcall)
    have hhigh := (List.pairwise_append.1 hafter).2.2 call hcall v (by simp)
    omega
  · intro _ hdistinct
    rw [← rotates_twice_iff random interval c hafter, ne_eq,
      hdrawn.compute_minted_iff hdistinct (hdrawn.rotateAt interval (after ++ [v]))
        (rotations_rotateAt _ _ _ _)]
    omega

/-- An HMAC that is what it is an HMAC of. -/
def symbolic (secret : Nat) (message : List UInt8) : Nat × List UInt8 := (secret, message)

theorem symbolic_injective : Function.Injective2 symbolic := by
  intro secret secret' message message' h
  exact ⟨(Prod.mk.inj h).1, (Prod.mk.inj h).2⟩

/-- A cookie minted at the start, an owner that is called once in between: it passes at 119, and
fails at 260. -/
theorem cookie_lifetime_busy_owner :
    ((new id 0).rotateAt id 120 []).compute symbolic [] 0 = (new id 0).mint symbolic [] ∧
      ((new id 0).rotateAt id 120 ([130] ++ [260])).compute symbolic [] 0 ≠
        (new id 0).mint symbolic [] :=
  ⟨(cookie_lifetime symbolic id 120 0 0 119 [] [] (by decide) []).1 (by decide),
    ((cookie_lifetime symbolic id 120 0 0 260 [] [130] (by decide) []).2 (by decide)
      (fun _ _ hne heq => hne (Prod.mk.inj heq).1)).2 ⟨130, by decide, by decide, by decide⟩⟩

/-- **An idle owner.**  Nothing arrives for eight intervals; the call that comes with the check
moves one epoch, and the cookie passes. -/
theorem cookie_outlives_idle_owner :
    ((new id 0).rotateAt id 120 [1000]).compute symbolic [] 0 = (new id 0).mint symbolic [] := by
  decide

end CookieSecret

end Zdt
end Znet

import Mathlib

/-!
# The first bits of some bytes
-/

namespace BitPrefix

/-- Bit `i` of some bytes. -/
def bit (bytes : List UInt8) (i : Nat) : Bool := (bytes.getD (i / 8) 0).toBitVec.getLsbD (7 - i % 8)

/-- The first `p` bits agree. -/
def AgreeOn (p : Nat) (a b : List UInt8) : Prop := ∀ i < p, bit a i = bit b i

instance (p : Nat) (a b : List UInt8) : Decidable (AgreeOn p a b) :=
  inferInstanceAs (Decidable (∀ i < p, bit a i = bit b i))

theorem AgreeOn.refl (p : Nat) (a : List UInt8) : AgreeOn p a a := fun _ _ => rfl

/-- The mask of the highest `r` bits of a byte. -/
def mask (r : Nat) : UInt8 := UInt8.ofNat (0xFF <<< (8 - r))

theorem getLsbD_mask {r k : Nat} (hr : r < 8) (hk : k < 8) :
    (mask r).toBitVec.getLsbD k = decide (8 - r ≤ k) := by
  interval_cases r <;> interval_cases k <;> decide

/-- Bytes that agree under a mask agree on its bits. -/
theorem and_mask_eq_iff {r : Nat} (hr : r < 8) (x y : UInt8) :
    x &&& mask r = y &&& mask r ↔
      ∀ j < r, x.toBitVec.getLsbD (7 - j) = y.toBitVec.getLsbD (7 - j) := by
  constructor
  · intro h j hj
    have hbit := congrArg (fun z : UInt8 => z.toBitVec.getLsbD (7 - j)) h
    simp only [UInt8.toBitVec_and, BitVec.getLsbD_and,
      getLsbD_mask hr (by omega : 7 - j < 8)] at hbit
    rwa [decide_eq_true (by omega : 8 - r ≤ 7 - j), Bool.and_true, Bool.and_true] at hbit
  · intro h
    refine UInt8.toBitVec_inj.1 (BitVec.eq_of_getLsbD_eq fun k hk => ?_)
    simp only [UInt8.toBitVec_and, BitVec.getLsbD_and, getLsbD_mask hr hk]
    by_cases hmask : 8 - r ≤ k
    · have hbit := h (7 - k) (by omega)
      rw [show 7 - (7 - k) = k by omega] at hbit
      rw [hbit]
    · simp [hmask]

theorem byte_eq_iff (x y : UInt8) :
    x = y ↔ ∀ j < 8, x.toBitVec.getLsbD (7 - j) = y.toBitVec.getLsbD (7 - j) := by
  constructor
  · rintro rfl j -
    rfl
  · intro h
    refine UInt8.toBitVec_inj.1 (BitVec.eq_of_getLsbD_eq fun k hk => ?_)
    have hbit := h (7 - k) (by omega)
    rwa [show 7 - (7 - k) = k by omega] at hbit

/-- Whole bytes that agree. -/
theorem take_eq_iff {a b : List UInt8} {n : Nat} (ha : n ≤ a.length) (hb : n ≤ b.length) :
    a.take n = b.take n ↔ ∀ k < n, a.getD k 0 = b.getD k 0 := by
  constructor
  · intro h k hk
    have hbyte := congrArg (fun bytes => bytes.getD k 0) h
    simpa [List.getD, List.getElem?_take, hk] using hbyte
  · intro h
    refine List.ext_getElem (by rw [List.length_take, List.length_take]; omega) fun k hk _ => ?_
    rw [List.length_take] at hk
    have hbyte := h k (by omega)
    rw [List.getElem_take, List.getElem_take]
    rwa [List.getD_eq_getElem _ _ (by omega), List.getD_eq_getElem _ _ (by omega)] at hbyte

/-- **Whole bytes, then one masked byte.** -/
theorem agreeOn_iff {a b : List UInt8} {p : Nat} (ha : p ≤ 8 * a.length) (hb : p ≤ 8 * b.length) :
    AgreeOn p a b ↔ a.take (p / 8) = b.take (p / 8) ∧
      a.getD (p / 8) 0 &&& mask (p % 8) = b.getD (p / 8) 0 &&& mask (p % 8) := by
  rw [take_eq_iff (by omega) (by omega), and_mask_eq_iff (Nat.mod_lt _ (by omega))]
  constructor
  · intro h
    refine ⟨fun k hk => (byte_eq_iff _ _).2 fun j hj => ?_, fun j hj => ?_⟩
    · have hbit := h (8 * k + j) (by omega)
      unfold bit at hbit
      rwa [show (8 * k + j) / 8 = k by omega, show (8 * k + j) % 8 = j by omega] at hbit
    · have hbit := h (8 * (p / 8) + j) (by omega)
      unfold bit at hbit
      rwa [show (8 * (p / 8) + j) / 8 = p / 8 by omega,
        show (8 * (p / 8) + j) % 8 = j by omega] at hbit
  · rintro ⟨hwhole, hrest⟩ i hi
    unfold bit
    by_cases hin : i / 8 < p / 8
    · rw [hwhole _ hin]
    · rw [show i / 8 = p / 8 by omega]
      exact hrest _ (by omega)

end BitPrefix

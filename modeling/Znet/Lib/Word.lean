import Mathlib

/-!
# Single bits of a 64-bit word

Bitmaps kept in machine words read and write one bit at a time with a mask
`1 << k`.  `Word.bit` is that mask; `Word.getLsbD_bit` and
`Word.and_bit_ne_zero` say what writing and testing it mean for the bits of a
word, and `Word.shiftRight_and_one` does the same for the other way of testing,
`(w >> k) & 1`.
-/

namespace Word

/-- The mask `1 << k`. -/
def bit (k : Nat) : BitVec 64 := 1#64 <<< k

theorem getLsbD_one (b : Nat) : (1#64).getLsbD b = decide (b = 0) := by
  rw [BitVec.getLsbD_ofNat, Bool.eq_iff_iff]
  simp only [Bool.and_eq_true, decide_eq_true_eq, Nat.testBit_one_eq_true_iff_self_eq_zero]
  omega

theorem getLsbD_bit {k : Nat} (hk : k < 64) (b : Nat) :
    (bit k).getLsbD b = decide (b = k) := by
  rw [bit, BitVec.getLsbD_shiftLeft, getLsbD_one, Bool.eq_iff_iff]
  simp only [Bool.and_eq_true, decide_eq_true_eq, Bool.not_eq_true', decide_eq_false_iff_not]
  omega

variable (w : BitVec 64)

/-- Testing a bit through its mask. -/
theorem and_bit_ne_zero {k : Nat} (hk : k < 64) : w &&& bit k ≠ 0 ↔ w.getLsbD k = true := by
  constructor
  · intro hne
    by_contra hbit
    rw [Bool.not_eq_true] at hbit
    refine hne (BitVec.eq_of_getLsbD_eq fun b _ => ?_)
    rw [BitVec.getLsbD_and, getLsbD_bit hk]
    by_cases hb : b = k
    · simp [hb, hbit]
    · simp [hb]
  · intro hbit hzero
    have hk' := congrArg (fun x => BitVec.getLsbD x k) hzero
    simp [getLsbD_bit hk, hbit] at hk'

/-- Testing a bit by shifting it down. -/
theorem shiftRight_and_one (k : Nat) : ((w >>> k) &&& 1 != 0) = w.getLsbD k := by
  cases hk : w.getLsbD k with
  | true =>
    refine bne_iff_ne.2 fun hzero => ?_
    have hbit := congrArg (fun x => BitVec.getLsbD x 0) hzero
    simp [hk] at hbit
  | false =>
    refine bne_eq_false_iff_eq.2 (BitVec.eq_of_getLsbD_eq fun b _ => ?_)
    rw [BitVec.getLsbD_and, BitVec.getLsbD_ushiftRight, show (1 : BitVec 64) = 1#64 from rfl,
      getLsbD_one]
    by_cases hb : b = 0
    · simp [hb, hk]
    · simp [hb]

end Word

import Mathlib.Data.Nat.Digits.Defs
import Mathlib.Data.Nat.Digits.Lemmas

/-!
# Decimal text, and text put together with separators

Text is a list of bytes.
-/

namespace Text

/-- The digits of a number, as `std::to_string` writes them. -/
def decimal (n : Nat) : List UInt8 :=
  if n = 0 then [48] else (Nat.digits 10 n).reverse.map fun d => UInt8.ofNat (48 + d)

/-- The number some digits spell. -/
def value (text : List UInt8) : Nat := Nat.ofDigits 10 (text.reverse.map fun b => b.toNat - 48)

theorem value_decimal (n : Nat) : value (decimal n) = n := by
  unfold decimal value
  split
  · next hzero => simp [hzero]
  · have hdigits : (Nat.digits 10 n).map ((fun b : UInt8 => b.toNat - 48) ∘
        fun d => UInt8.ofNat (48 + d)) = Nat.digits 10 n := by
      refine (List.map_congr_left fun d hd => ?_).trans (List.map_id _)
      have hlt : d < 10 := Nat.digits_lt_base (by norm_num) hd
      simp only [Function.comp_apply, UInt8.toNat_ofNat', id_eq]
      omega
    rw [← List.map_reverse, List.reverse_reverse, List.map_map, hdigits, Nat.ofDigits_digits]

theorem decimal_injective : Function.Injective decimal := by
  intro m n h
  rw [← value_decimal m, h, value_decimal]

theorem digit_of_mem_decimal {n : Nat} {b : UInt8} (h : b ∈ decimal n) : 48 ≤ b ∧ b ≤ 57 := by
  unfold decimal at h
  split at h
  · obtain rfl := List.mem_singleton.1 h
    decide
  · obtain ⟨d, hd, rfl⟩ := List.mem_map.1 h
    have hlt : d < 10 := Nat.digits_lt_base (by norm_num) (List.mem_reverse.1 hd)
    interval_cases d <;> decide

/-- Two texts that are put together with a separator their second parts do not have. -/
theorem append_separator_inj {α : Type*} {c : α} {a a' b b' : List α} (hb : c ∉ b) (hb' : c ∉ b')
    (h : a ++ c :: b = a' ++ c :: b') : a = a' ∧ b = b' := by
  rcases List.append_eq_append_iff.1 h with ⟨t, ha, ht⟩ | ⟨t, ha, ht⟩
  · cases t with
    | nil => simpa [ha] using ht
    | cons x t =>
      rw [List.cons_append, List.cons.injEq] at ht
      exact absurd (ht.2 ▸ List.mem_append_right t List.mem_cons_self) hb
  · cases t with
    | nil => simpa [ha, eq_comm] using ht
    | cons x t =>
      rw [List.cons_append, List.cons.injEq] at ht
      exact absurd (ht.2 ▸ List.mem_append_right t List.mem_cons_self) hb'

end Text

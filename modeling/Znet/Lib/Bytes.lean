import Mathlib

/-!
# Numbers as a fixed number of bytes
-/

namespace Bytes

/-- The bytes of a string literal. -/
def ascii (s : String) : List UInt8 := s.toList.map fun c => UInt8.ofNat c.toNat

/-- The `n` low bytes of a number, lowest first. -/
def le : Nat → Nat → List UInt8
  | 0, _ => []
  | n + 1, v => UInt8.ofNat v :: le n (v / 256)

variable (n v : Nat)

/-- The `n` low bytes of a number, highest first. -/
def be : List UInt8 := (le n v).reverse

/-- The number whose bytes, lowest first, are the given ones. -/
def ofLe (bytes : List UInt8) : Nat := bytes.foldr (fun b rest => b.toNat + 256 * rest) 0

/-- The number whose bytes, highest first, are the given ones. -/
def ofBe (bytes : List UInt8) : Nat := ofLe bytes.reverse

@[simp] theorem length_le : (le n v).length = n := by
  induction n generalizing v with
  | zero => rfl
  | succ n ih => simp [le, ih]

@[simp] theorem length_be : (be n v).length = n := by
  simp [be]

@[simp] theorem ofLe_nil : ofLe [] = 0 := rfl

@[simp] theorem ofLe_cons (b : UInt8) (bytes : List UInt8) :
    ofLe (b :: bytes) = b.toNat + 256 * ofLe bytes := rfl

/-- Reading back what was written. -/
theorem ofLe_le : ofLe (le n v) = v % 256 ^ n := by
  induction n generalizing v with
  | zero => simp [le, Nat.mod_one]
  | succ n ih =>
    have hbyte : (UInt8.ofNat v).toNat = v % 256 := UInt8.toNat_ofNat'
    rw [le, ofLe_cons, ih, hbyte, pow_succ', Nat.mod_mul]

/-- One byte more is the next one up. -/
theorem le_succ : le (n + 1) v = le n v ++ [UInt8.ofNat (v / 256 ^ n)] := by
  induction n generalizing v with
  | zero => simp [le]
  | succ n ih =>
    rw [le, ih, le, List.cons_append, Nat.div_div_eq_div_mul, ← pow_succ']

/-- How many of the `n` low bytes of a number are significant. -/
def significant : Nat := ((le n v).reverse.dropWhile (· == 0)).length

theorem significant_le : significant n v ≤ n := by
  have hle := (List.dropWhile_sublist (fun x : UInt8 => x == 0) (l := (le n v).reverse)).length_le
  rwa [List.length_reverse, length_le] at hle

/-- The significant bytes of a number are enough to read it back. -/
theorem mod_lt_significant : v % 256 ^ n < 256 ^ significant n v := by
  induction n with
  | zero => simp [Nat.mod_one]
  | succ n ih =>
    rw [significant, le_succ, List.reverse_append]
    by_cases htop : UInt8.ofNat (v / 256 ^ n) = 0
    · -- the top byte is zero: nothing is lost with it
      have hdigit : v / 256 ^ n % 256 = 0 := by
        have := congrArg UInt8.toNat htop
        simpa using this
      have hsame : v % 256 ^ (n + 1) = v % 256 ^ n := by
        rw [pow_succ, Nat.mod_mul, hdigit, Nat.mul_zero, Nat.add_zero]
      rw [hsame]
      simpa [significant, htop] using ih
    · have hall : (([UInt8.ofNat (v / 256 ^ n)].reverse ++ (le n v).reverse).dropWhile
          (· == 0)).length = n + 1 := by
        simp [htop]
      rw [hall]
      exact Nat.mod_lt _ (by positivity)

theorem ofLe_le_significant : ofLe (le (significant n v) v) = v % 256 ^ n := by
  have hdvd : 256 ^ significant n v ∣ 256 ^ n := Nat.pow_dvd_pow 256 (significant_le n v)
  rw [ofLe_le, ← Nat.mod_mod_of_dvd v hdvd, Nat.mod_eq_of_lt (mod_lt_significant n v)]

theorem ofBe_be : ofBe (be n v) = v % 256 ^ n := by
  rw [ofBe, be, List.reverse_reverse, ofLe_le]

variable (bytes : List UInt8)

theorem ofLe_lt : ofLe bytes < 256 ^ bytes.length := by
  induction bytes with
  | nil => simp
  | cons b bytes ih =>
    have hb : b.toNat < 256 := b.toNat_lt
    rw [ofLe_cons, List.length_cons, pow_succ']
    omega

theorem ofBe_lt : ofBe bytes < 256 ^ bytes.length := by
  simpa [ofBe] using ofLe_lt bytes.reverse

/-- Numbers that fit are written differently. -/
theorem be_injOn {n v w : Nat} (hv : v < 256 ^ n) (hw : w < 256 ^ n) (h : be n v = be n w) :
    v = w := by
  have hread : ofBe (be n v) = ofBe (be n w) := by rw [h]
  rwa [ofBe_be, ofBe_be, Nat.mod_eq_of_lt hv, Nat.mod_eq_of_lt hw] at hread

end Bytes

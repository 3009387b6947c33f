import Mathlib.Data.Int.Log
import Mathlib.Tactic

/-!
# Rounding to significant bits

A binary floating-point format holds the rationals of so many significant bits, and its operations
round the exact result to the nearest of them, ties to even. Only non-negative results are rounded
here, and the exponent is not bounded: this is what the format does as long as its results are
neither subnormal nor too large for it.
-/

namespace NetForensics

/-- The nearest natural number, ties to even. -/
def roundHalfEven (q : ℚ) : ℕ :=
  let n := ⌊q⌋.toNat
  if q - n < 1 / 2 then n
  else if 1 / 2 < q - n then n + 1
  else if n % 2 = 0 then n else n + 1

/-- The distance of neighbours among the numbers of `p` significant bits, where `q` lies. -/
def ulp (p : ℕ) (q : ℚ) : ℚ := 2 ^ (Int.log 2 q + 1 - p)

/-- The nearest number of `p` significant bits. -/
def roundTo (p : ℕ) (q : ℚ) : ℚ := roundHalfEven (q / ulp p q) * ulp p q

/-- The result of an operation on `double`. -/
def double (q : ℚ) : ℚ := roundTo 53 q

/-- The result of an operation on `float`. -/
def float (q : ℚ) : ℚ := roundTo 24 q

theorem roundHalfEven_le {q : ℚ} {n : ℕ} (h : q ≤ n) : roundHalfEven q ≤ n := by
  have hfloor : ⌊q⌋.toNat ≤ n := by
    have hle : ⌊q⌋ ≤ (n : ℤ) := Int.floor_le_iff.mpr (by exact_mod_cast h.trans_lt (lt_add_one _))
    omega
  rw [roundHalfEven]
  split
  · exact hfloor
  · rename_i hhalf
    have hlt : ⌊q⌋.toNat < n := by
      refine lt_of_le_of_ne hfloor fun heq ↦ hhalf ?_
      rw [heq]
      linarith
    split
    · exact hlt
    · split
      · exact hfloor
      · exact hlt

theorem roundHalfEven_natCast (n : ℕ) : roundHalfEven n = n := by
  rw [roundHalfEven, Int.floor_natCast, Int.toNat_natCast]
  exact if_pos (by rw [sub_self]; norm_num)

theorem roundTo_natCast {p n : ℕ} (h : n < 2 ^ p) : roundTo p n = n := by
  rcases Nat.eq_zero_or_pos n with rfl | hpos
  · rw [roundTo, Nat.cast_zero, zero_div, ← Nat.cast_zero, roundHalfEven_natCast, Nat.cast_zero,
      zero_mul]
  · have hlog : Nat.log 2 n + 1 ≤ p := Nat.log_lt_of_lt_pow hpos.ne' h
    obtain ⟨k, rfl⟩ := Nat.exists_eq_add_of_le hlog
    have hulp : ulp (Nat.log 2 n + 1 + k) n = (2 ^ k)⁻¹ := by
      rw [ulp, Int.log_natCast]
      have hexp : (Nat.log 2 n : ℤ) + 1 - ((Nat.log 2 n + 1 + k : ℕ) : ℤ) = -k := by
        push_cast
        ring
      rw [hexp, zpow_neg, zpow_natCast]
    -- in units of the last place it is a natural number
    have hunits : (n : ℚ) / (2 ^ k)⁻¹ = (n * 2 ^ k : ℕ) := by
      rw [div_inv_eq_mul]
      push_cast
      rfl
    rw [roundTo, hulp, hunits, roundHalfEven_natCast]
    push_cast
    rw [mul_assoc, mul_inv_cancel₀ (by positivity), mul_one]

theorem double_natCast {n : ℕ} (h : n < 2 ^ 53) : double n = n := roundTo_natCast h

/-- From 2^53 on, not every number has a `double` of its own. -/
example : double 999999999999999999 = 10 ^ 18 := by decide +kernel

end NetForensics

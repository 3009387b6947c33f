import Mathlib.Tactic

/-!
# Addition with end-around carry

In base `B` a number that has grown beyond one digit is folded: what is above the digit is added to
the digit. This changes the number by a multiple of `B - 1`, so that folding until one digit is left
casts out `B - 1`, with two digits for the residue zero: `0`, which only zero folds to, and `B - 1`.
`digitOf` is the digit that is left.

Adding the complement of its digit to a number gives a number whose digit is `B - 1`
(`digitOf_add_complement`). This is why a sum that carries its own checksum can be verified.
-/

namespace NetForensics

namespace EndAround

variable {B n : ℕ}

/-- One fold. -/
def fold (B n : ℕ) : ℕ := n % B + n / B

def digitOf (B n : ℕ) : ℕ := if n = 0 then 0 else (n - 1) % (B - 1) + 1

theorem fold_add (hB : 1 ≤ B) (n : ℕ) : fold B n + n / B * (B - 1) = n := by
  obtain ⟨b, rfl⟩ := Nat.exists_eq_add_of_le' hB
  have hdiv := Nat.mod_add_div n (b + 1)
  calc fold (b + 1) n + n / (b + 1) * (b + 1 - 1)
      = n % (b + 1) + (b + 1) * (n / (b + 1)) := by rw [fold, Nat.add_sub_cancel]; ring
    _ = n := hdiv

theorem fold_pos (hB : 1 ≤ B) (h : 0 < n) : 0 < fold B n := by
  rw [fold]
  rcases Nat.eq_zero_or_pos (n / B) with hq | hq
  · have hlt : n < B := Nat.lt_of_div_eq_zero hB hq
    rw [Nat.mod_eq_of_lt hlt]
    exact Nat.add_pos_left h _
  · exact Nat.add_pos_right _ hq

theorem digitOf_of_lt (h : n < B) : digitOf B n = n := by
  rw [digitOf]
  split_ifs with h0
  · exact h0.symm
  · rw [Nat.mod_eq_of_lt (by omega)]
    omega

theorem digitOf_fold (hB : 1 ≤ B) (n : ℕ) : digitOf B (fold B n) = digitOf B n := by
  rcases Nat.eq_zero_or_pos n with rfl | hn
  · rw [fold, Nat.zero_mod, Nat.zero_div]
  · have hpos := fold_pos hB hn
    have hadd := fold_add hB n
    have hpred : n - 1 = fold B n - 1 + n / B * (B - 1) := by omega
    rw [digitOf, digitOf, if_neg hpos.ne', if_neg hn.ne', hpred, Nat.add_mul_mod_self_right]

theorem digitOf_add_complement (hB : 2 ≤ B) (n : ℕ) :
    digitOf B (n + (B - 1 - digitOf B n)) = B - 1 := by
  obtain ⟨b, rfl⟩ := Nat.exists_eq_add_of_le' hB
  rcases Nat.eq_zero_or_pos n with rfl | hn
  · have hzero : digitOf (b + 2) 0 = 0 := if_pos rfl
    rw [hzero, Nat.sub_zero, Nat.zero_add]
    exact digitOf_of_lt (by omega)
  · have hdigit : digitOf (b + 2) n = (n - 1) % (b + 1) + 1 := if_neg hn.ne'
    have hdiv := Nat.mod_add_div (n - 1) (b + 1)
    have hlt : (n - 1) % (b + 1) < b + 1 := Nat.mod_lt _ (Nat.succ_pos b)
    have hsum : n + (b + 2 - 1 - digitOf (b + 2) n) - 1 = b + (b + 1) * ((n - 1) / (b + 1)) := by
      rw [hdigit]
      omega
    have hpos : n + (b + 2 - 1 - digitOf (b + 2) n) ≠ 0 := by omega
    have hmod : (b + (b + 1) * ((n - 1) / (b + 1))) % (b + 2 - 1) = b := by
      rw [show b + 2 - 1 = b + 1 from rfl, Nat.add_mul_mod_self_left,
        Nat.mod_eq_of_lt (Nat.lt_succ_self b)]
    rw [digitOf, if_neg hpos, hsum, hmod]
    rfl

end EndAround

end NetForensics

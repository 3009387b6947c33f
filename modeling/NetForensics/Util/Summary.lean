import Mathlib.Algebra.Order.Field.Basic
import Mathlib.Algebra.Order.BigOperators.Group.List
import Mathlib.Tactic

/-!
# Running summaries

The last value of a sequence, its mean, its least and its greatest value, kept up to date one value
at a time: `Summary.push`. The first value is a special case, since there is nothing to compare it
with, and the mean is recovered from the mean before and the number of values.

`Summarizes` says that a summary is that of a list; `Summarizes.push` that it stays so.
-/

namespace NetForensics

variable {𝕜 : Type*}

/-- What is kept of a sequence of values. -/
structure Summary (𝕜 : Type*) where
  last : 𝕜
  avg : 𝕜
  min : 𝕜
  max : 𝕜

section Push

variable [Field 𝕜] [LinearOrder 𝕜]

/-- The `n`-th value, from one on. -/
def Summary.push (s : Summary 𝕜) (n : ℕ) (x : 𝕜) : Summary 𝕜 :=
  if n = 1 then ⟨x, x, x, x⟩
  else
    { last := x
      avg := (s.avg * ((n : 𝕜) - 1) + x) / n
      min := if x < s.min then x else s.min
      max := if s.max < x then x else s.max }

/-- The summary of a list that is not empty. -/
structure Summarizes (s : Summary 𝕜) (xs : List 𝕜) : Prop where
  last : xs.getLast? = some s.last
  sum : s.avg * xs.length = xs.sum
  min_mem : s.min ∈ xs
  min_le : ∀ x ∈ xs, s.min ≤ x
  max_mem : s.max ∈ xs
  le_max : ∀ x ∈ xs, x ≤ s.max

theorem summarizes_singleton (x : 𝕜) : Summarizes ⟨x, x, x, x⟩ [x] where
  last := rfl
  sum := by simp
  min_mem := List.mem_singleton_self x
  min_le y hy := (List.mem_singleton.mp hy).ge
  max_mem := List.mem_singleton_self x
  le_max y hy := (List.mem_singleton.mp hy).le

theorem Summarizes.ne_nil {s : Summary 𝕜} {xs : List 𝕜} (h : Summarizes s xs) : xs ≠ [] :=
  List.ne_nil_of_mem h.min_mem

end Push

variable [Field 𝕜] [LinearOrder 𝕜] [IsStrictOrderedRing 𝕜] {s : Summary 𝕜} {xs : List 𝕜}

theorem Summarizes.push (h : xs ≠ [] → Summarizes s xs) (x : 𝕜) :
    Summarizes (s.push (xs.length + 1) x) (xs ++ [x]) := by
  rw [Summary.push]
  split
  · next hone =>
    obtain rfl := List.length_eq_zero_iff.mp (Nat.succ.inj hone)
    exact summarizes_singleton x
  · next hmore =>
    -- a list with a value before this one has a summary, and a length to divide by
    have hs := h fun hnil ↦ hmore (by rw [hnil]; rfl)
    have hn : ((xs.length + 1 : ℕ) : 𝕜) ≠ 0 := Nat.cast_ne_zero.mpr (Nat.succ_ne_zero _)
    refine ⟨List.getLast?_concat, ?_, ?_, ?_, ?_, ?_⟩
    · rw [List.length_append, List.length_singleton, div_mul_cancel₀ _ hn, List.sum_append,
        List.sum_singleton, ← hs.sum]
      push_cast
      ring
    · dsimp only
      split
      · exact List.mem_append_right xs (List.mem_singleton_self x)
      · exact List.mem_append_left [x] hs.min_mem
    · intro y hy
      dsimp only
      rcases List.mem_append.mp hy with hy | hy
      · split
        · next hlt => exact hlt.le.trans (hs.min_le y hy)
        · exact hs.min_le y hy
      · obtain rfl := List.mem_singleton.mp hy
        split
        · exact le_rfl
        · next hle => exact not_lt.mp hle
    · dsimp only
      split
      · exact List.mem_append_right xs (List.mem_singleton_self x)
      · exact List.mem_append_left [x] hs.max_mem
    · intro y hy
      dsimp only
      rcases List.mem_append.mp hy with hy | hy
      · split
        · next hlt => exact (hs.le_max y hy).trans hlt.le
        · exact hs.le_max y hy
      · obtain rfl := List.mem_singleton.mp hy
        split
        · exact le_rfl
        · next hle => exact not_lt.mp hle

theorem Summarizes.avg_eq (h : Summarizes s xs) : s.avg = xs.sum / xs.length := by
  have hn : (xs.length : 𝕜) ≠ 0 :=
    Nat.cast_ne_zero.mpr fun hzero ↦ h.ne_nil (List.length_eq_zero_iff.mp hzero)
  exact eq_div_of_mul_eq hn h.sum

theorem Summarizes.length_pos (h : Summarizes s xs) : (0 : 𝕜) < xs.length :=
  Nat.cast_pos.mpr (List.length_pos_of_ne_nil h.ne_nil)

theorem Summarizes.min_le_avg (h : Summarizes s xs) : s.min ≤ s.avg := by
  have hsum := List.card_nsmul_le_sum xs s.min h.min_le
  rw [nsmul_eq_mul, ← h.sum, mul_comm] at hsum
  exact le_of_mul_le_mul_right hsum h.length_pos

theorem Summarizes.avg_le_max (h : Summarizes s xs) : s.avg ≤ s.max := by
  have hsum := List.sum_le_card_nsmul xs s.max h.le_max
  rw [nsmul_eq_mul, ← h.sum, mul_comm (xs.length : 𝕜)] at hsum
  exact le_of_mul_le_mul_right hsum h.length_pos

end NetForensics

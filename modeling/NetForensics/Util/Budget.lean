import Mathlib.Tactic

/-!
# Waiting on a budget

A wait looks at one thing after the other until it has what it wants, and pays for everything else
from a budget. It finds the first thing that is wanted, unless it has given up or spent the budget
before (`scan_eq_some_iff`). As long as everything has its price the budget bounds how much is
looked at (`length_paid_le`), and what has been paid before the last payment
(`cost_dropLast_paid_lt`).
-/

namespace NetForensics

namespace Budget

variable {α β : Type*}

/-- What to do about a thing: take it, give up, or pay for it and go on. -/
inductive Verdict (β : Type*) where
  | take (b : β)
  | quit
  | pay (price : ℤ)

namespace Verdict

def price : Verdict β → ℤ
  | .pay p => p
  | _ => 0

def isPay : Verdict β → Bool
  | .pay _ => true
  | _ => false

end Verdict

/-- The wait: what it finds, and all it has paid for. -/
def scan (judge : α → Verdict β) : ℤ → List α → Option β × List α
  | _, [] => (none, [])
  | left, x :: xs =>
    if left ≤ 0 then (none, [])
    else
      match judge x with
      | .take b => (some b, [])
      | .quit => (none, [])
      | .pay price =>
        let rest := scan judge (left - price) xs
        (rest.1, x :: rest.2)

def cost (judge : α → Verdict β) (xs : List α) : ℤ := (xs.map fun x ↦ (judge x).price).sum

def Priced (judge : α → Verdict β) : Prop := ∀ x p, judge x = .pay p → 0 < p

variable {judge : α → Verdict β}

@[simp] theorem cost_nil : cost judge [] = 0 := rfl

theorem cost_cons (x : α) (xs : List α) :
    cost judge (x :: xs) = (judge x).price + cost judge xs := List.sum_cons

theorem Priced.price_nonneg (h : Priced judge) (x : α) : 0 ≤ (judge x).price := by
  cases hx : judge x with
  | take b => exact le_rfl
  | quit => exact le_rfl
  | pay p => exact (h x p hx).le

theorem Priced.cost_nonneg (h : Priced judge) (xs : List α) : 0 ≤ cost judge xs := by
  induction xs with
  | nil => exact le_rfl
  | cons x xs ih =>
    rw [cost_cons]
    exact add_nonneg (h.price_nonneg x) ih

/-- The first thing that is wanted is found if all before it can be paid. -/
theorem scan_eq_some_iff (h : Priced judge) {left : ℤ} {xs : List α} {b : β} :
    (scan judge left xs).1 = some b ↔
      ∃ pre x post, xs = pre ++ x :: post ∧ (∀ y ∈ pre, (judge y).isPay = true) ∧
        cost judge pre < left ∧ judge x = .take b := by
  induction xs generalizing left with
  | nil =>
    refine iff_of_false (by simp [scan]) ?_
    rintro ⟨pre, x, post, hxs, -⟩
    exact absurd hxs (by simp)
  | cons x xs ih =>
    -- a scan that starts with `x` finds `x`, or pays for it
    have hsplit : (∃ pre y post, x :: xs = pre ++ y :: post ∧ (∀ z ∈ pre, (judge z).isPay = true) ∧
          cost judge pre < left ∧ judge y = .take b) ↔
        0 < left ∧ judge x = .take b ∨ (judge x).isPay = true ∧
          ∃ pre y post, xs = pre ++ y :: post ∧ (∀ z ∈ pre, (judge z).isPay = true) ∧
            cost judge pre < left - (judge x).price ∧ judge y = .take b := by
      constructor
      · rintro ⟨pre, y, post, hxs, hpays, hcost, hy⟩
        cases pre with
        | nil =>
          obtain ⟨rfl, -⟩ := List.cons.inj hxs
          exact .inl ⟨hcost, hy⟩
        | cons z pre =>
          obtain ⟨rfl, rfl⟩ := List.cons.inj hxs
          rw [cost_cons] at hcost
          exact .inr ⟨hpays x List.mem_cons_self, pre, y, post, rfl,
            fun w hw ↦ hpays w (List.mem_cons_of_mem x hw), by omega, hy⟩
      · rintro (⟨hleft, hx⟩ | ⟨hpay, pre, y, post, rfl, hpays, hcost, hy⟩)
        · exact ⟨[], x, xs, rfl, by simp, hleft, hx⟩
        · refine ⟨x :: pre, y, post, rfl, ?_, ?_, hy⟩
          · intro z hz
            rcases List.mem_cons.mp hz with rfl | hz
            · exact hpay
            · exact hpays z hz
          · rw [cost_cons]
            omega
    rw [hsplit, scan]
    by_cases hleft : left ≤ 0
    · rw [if_pos hleft]
      refine iff_of_false (by simp) ?_
      rintro (⟨hpos, -⟩ | ⟨-, pre, y, post, -, -, hcost, -⟩)
      · omega
      · have hpre := h.cost_nonneg pre
        have hx := h.price_nonneg x
        omega
    · rw [if_neg hleft]
      cases hx : judge x with
      | take b' => simp [Verdict.isPay, not_le.mp hleft]
      | quit => simp [Verdict.isPay]
      | pay p => simp [Verdict.isPay, Verdict.price, ih]

theorem paid_prefix (judge : α → Verdict β) (left : ℤ) (xs : List α) :
    (scan judge left xs).2 <+: xs := by
  induction xs generalizing left with
  | nil => exact List.prefix_rfl
  | cons x xs ih =>
    rw [scan]
    split
    · exact List.nil_prefix
    · split
      · exact List.nil_prefix
      · exact List.nil_prefix
      · exact (List.prefix_cons_inj x).mpr (ih _)

theorem isPay_of_mem_paid {left : ℤ} {xs : List α} {x : α} (h : x ∈ (scan judge left xs).2) :
    (judge x).isPay = true := by
  induction xs generalizing left with
  | nil => exact absurd h List.not_mem_nil
  | cons y xs ih =>
    rw [scan] at h
    split at h
    · exact absurd h List.not_mem_nil
    · split at h
      · exact absurd h List.not_mem_nil
      · exact absurd h List.not_mem_nil
      · rename_i p hp
        rcases List.mem_cons.mp h with rfl | hmem
        · rw [hp]
          rfl
        · exact ih hmem

theorem length_paid_le (h : Priced judge) (left : ℤ) (xs : List α) :
    (scan judge left xs).2.length ≤ left.toNat := by
  induction xs generalizing left with
  | nil => exact Nat.zero_le _
  | cons x xs ih =>
    rw [scan]
    split
    · exact Nat.zero_le _
    · split
      · exact Nat.zero_le _
      · exact Nat.zero_le _
      · rename_i p hp
        have hrest := ih (left - p)
        have hpos := h x p hp
        rw [List.length_cons]
        omega

theorem cost_dropLast_paid_lt (h : Priced judge) {left : ℤ} (hleft : 0 < left) (xs : List α) :
    cost judge (scan judge left xs).2.dropLast < left := by
  induction xs generalizing left with
  | nil => exact hleft
  | cons x xs ih =>
    rw [scan, if_neg (not_le.mpr hleft)]
    split
    · exact hleft
    · exact hleft
    · rename_i p hp
      dsimp only
      cases hrest : (scan judge (left - p) xs).2 with
      | nil => exact hleft
      | cons y ys =>
        -- something more was paid for, so that there was something left
        have hmore : 0 < left - p := by
          by_contra hnone
          have hlen := length_paid_le h (left - p) xs
          rw [hrest, List.length_cons] at hlen
          omega
        have hlt := ih hmore
        rw [hrest] at hlt
        rw [List.dropLast_cons_cons, cost_cons, hp]
        rw [Verdict.price]
        omega

end Budget

end NetForensics

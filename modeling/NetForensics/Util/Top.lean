import Mathlib.Data.List.Sort
import Mathlib.Order.Defs.LinearOrder
import Mathlib.Tactic

/-!
# The heaviest elements of a list

`IsTop weight top all` says that `top` is a selection from `all` without omissions: it lists some of
the elements, the heaviest first, and none of those left out weighs more than one of them. Sorting
by weight and cutting off gives such a selection, of any size.
-/

namespace NetForensics

variable {α κ ν : Type*} [LinearOrder ν] {weight : α → ν} {top all : List α}

/-- The list is a selection of the heaviest elements. -/
def IsTop (weight : α → ν) (top all : List α) : Prop :=
  ∃ rest, (top ++ rest).Perm all ∧ top.Pairwise (fun x y ↦ weight y ≤ weight x) ∧
    ∀ x ∈ top, ∀ y ∈ rest, weight y ≤ weight x

theorem IsTop.mem (h : IsTop weight top all) {x : α} (hx : x ∈ top) : x ∈ all := by
  obtain ⟨rest, hperm, -⟩ := h
  exact hperm.subset (List.mem_append_left rest hx)

/-- Keys that are distinct in the whole list are distinct in the selection. -/
theorem IsTop.nodup_map (h : IsTop weight top all) {key : α → κ} (hnodup : (all.map key).Nodup) :
    (top.map key).Nodup := by
  obtain ⟨rest, hperm, -⟩ := h
  have hall : ((top ++ rest).map key).Nodup := (hperm.map key).nodup_iff.mpr hnodup
  rw [List.map_append] at hall
  exact hall.of_append_left

theorem isTop_take {sorted : List α} (hperm : sorted.Perm all)
    (hsorted : sorted.Pairwise fun x y ↦ weight y ≤ weight x) (n : ℕ) :
    IsTop weight (sorted.take n) all := by
  refine ⟨sorted.drop n, ?_, hsorted.sublist (List.take_sublist n sorted), ?_⟩
  · rwa [List.take_append_drop]
  · rw [← List.take_append_drop n sorted, List.pairwise_append] at hsorted
    exact hsorted.2.2

theorem pairwise_mergeSort_weight (weight : α → ν) (all : List α) :
    (all.mergeSort fun x y ↦ decide (weight y ≤ weight x)).Pairwise
      fun x y ↦ weight y ≤ weight x := by
  have hsorted : (all.mergeSort fun x y ↦ decide (weight y ≤ weight x)).Pairwise
      fun x y ↦ decide (weight y ≤ weight x) = true :=
    List.pairwise_mergeSort
      (fun x y z hxy hyz ↦ decide_eq_true ((of_decide_eq_true hyz).trans (of_decide_eq_true hxy)))
      (fun x y ↦ by simpa using le_total (weight y) (weight x)) all
  exact hsorted.imp fun h ↦ of_decide_eq_true h

theorem isTop_take_mergeSort (weight : α → ν) (all : List α) (n : ℕ) :
    IsTop weight ((all.mergeSort fun x y ↦ decide (weight y ≤ weight x)).take n) all :=
  isTop_take (List.mergeSort_perm _ _) (pairwise_mergeSort_weight weight all) n

end NetForensics

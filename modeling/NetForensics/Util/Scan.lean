import Mathlib.Tactic

/-!
# One pass over a slot table

A table of slots is searched once, from the left: the first occupied slot that answers the key ends
the pass; on the way the first free slot and the occupied slot with the least stamp are remembered,
and they are the answers when nothing matched. `scan` is that pass with its accumulators, and
`scan_eq` says what it computes: three independent searches, tried in order.
-/

namespace NetForensics

section Scan

variable {ι τ : Type*} [LT τ] [DecidableLT τ] (used hit : ι → Bool) (stamp : ι → τ)

/-- The pass. `free` and `old` are the slots remembered so far, `bound` the stamp of `old`. -/
def scan : List ι → Option ι → τ → Option ι → Option ι
  | [], free, _, old => free.or old
  | i :: is, free, bound, old =>
    if !used i then scan is (free.or (some i)) bound old
    else if hit i then some i
    else if stamp i < bound then scan is free (stamp i) (some i)
    else scan is free bound old

/-- The occupied slot with the least stamp below `bound`, the first of its kind. -/
def oldest : List ι → τ → Option ι → Option ι
  | [], _, old => old
  | i :: is, bound, old =>
    if used i && stamp i < bound then oldest is (stamp i) (some i) else oldest is bound old

theorem scan_eq (l : List ι) (free : Option ι) (bound : τ) (old : Option ι) :
    scan used hit stamp l free bound old
      = (l.find? fun i ↦ used i && hit i).or
          ((free.or (l.find? fun i ↦ !used i)).or (oldest used stamp l bound old)) := by
  induction l generalizing free bound old with
  | nil => simp [scan, oldest]
  | cons i is ih =>
    rw [scan, oldest, List.find?_cons, List.find?_cons]
    cases hu : used i with
    | false =>
      rw [if_pos (show (!false) = true from rfl), ih]
      cases free <;> simp
    | true =>
      cases hh : hit i with
      | true => simp
      | false =>
        by_cases hs : stamp i < bound
        · simp [hs, ih]
        · simp [hs, ih]

variable {used stamp}

theorem oldest_eq_some {l : List ι} {bound : τ} {old : Option ι} {i : ι}
    (h : oldest used stamp l bound old = some i) : (i ∈ l ∧ used i = true) ∨ old = some i := by
  induction l generalizing bound old with
  | nil => exact Or.inr h
  | cons j js ih =>
    rw [oldest] at h
    split at h
    · rename_i hj
      rcases ih h with ⟨hmem, hused⟩ | heq
      · exact Or.inl ⟨List.mem_cons_of_mem j hmem, hused⟩
      · rw [Bool.and_eq_true] at hj
        cases heq
        exact Or.inl ⟨List.mem_cons_self, hj.1⟩
    · rcases ih h with ⟨hmem, hused⟩ | heq
      · exact Or.inl ⟨List.mem_cons_of_mem j hmem, hused⟩
      · exact Or.inr heq

/-- A victim is found when some occupied slot has a stamp below the bound, and only then. -/
theorem oldest_isSome_iff {l : List ι} {bound : τ} {old : Option ι} :
    (oldest used stamp l bound old).isSome = true ↔
      old.isSome = true ∨ ∃ i ∈ l, used i = true ∧ stamp i < bound := by
  induction l generalizing bound old with
  | nil => simp [oldest]
  | cons j js ih =>
    rw [oldest]
    split
    · rename_i hj
      rw [Bool.and_eq_true, decide_eq_true_iff] at hj
      rw [ih]
      exact iff_of_true (Or.inl rfl) (Or.inr ⟨j, List.mem_cons_self, hj⟩)
    · rename_i hj
      rw [Bool.and_eq_true, decide_eq_true_iff] at hj
      rw [ih]
      simp [hj]

/-- The victim has the least stamp of all occupied slots, where stamps are compared by their
values. -/
theorem oldest_le {κ : Type*} [LinearOrder κ] {val : τ → κ} (hval : ∀ s t, s < t ↔ val s < val t)
    {l : List ι} {bound : τ} {old : Option ι} {i : ι}
    (hold : ∀ k, old = some k → val (stamp k) = val bound)
    (h : oldest used stamp l bound old = some i) :
    val (stamp i) ≤ val bound ∧ ∀ j ∈ l, used j = true → val (stamp i) ≤ val (stamp j) := by
  induction l generalizing bound old with
  | nil => exact ⟨(hold i h).le, fun j hj ↦ absurd hj List.not_mem_nil⟩
  | cons j js ih =>
    rw [oldest] at h
    split at h
    · rename_i hj
      rw [Bool.and_eq_true, decide_eq_true_iff, hval] at hj
      obtain ⟨hle, hrest⟩ := ih (fun k hk ↦ Option.some_inj.mp hk ▸ rfl) h
      refine ⟨hle.trans hj.2.le, fun k hk hused ↦ ?_⟩
      rcases List.mem_cons.mp hk with rfl | hk
      · exact hle
      · exact hrest k hk hused
    · rename_i hj
      rw [Bool.and_eq_true, decide_eq_true_iff, hval] at hj
      obtain ⟨hle, hrest⟩ := ih hold h
      refine ⟨hle, fun k hk hused ↦ ?_⟩
      rcases List.mem_cons.mp hk with rfl | hk
      -- a slot that was passed over is not older than the bound
      · exact hle.trans (not_lt.mp fun hlt ↦ hj ⟨hused, hlt⟩)
      · exact hrest k hk hused

end Scan

/-- In a sorted list the first element found is the least one. -/
theorem isLeast_of_find? {ι : Type*} [Preorder ι] {p : ι → Bool} {l : List ι}
    (hl : l.Pairwise (· < ·)) {i : ι} (h : l.find? p = some i) :
    IsLeast {j | j ∈ l ∧ p j = true} i := by
  refine ⟨⟨List.mem_of_find?_eq_some h, List.find?_some h⟩, ?_⟩
  rintro j ⟨hj, hp⟩
  obtain ⟨-, as, bs, rfl, hbefore⟩ := List.find?_eq_some_iff_append.mp h
  rcases List.mem_append.mp hj with hj | hj
  · exact absurd hp (by simpa using hbefore j hj)
  · rcases List.mem_cons.mp hj with rfl | hj
    · exact le_rfl
    · exact (List.rel_of_pairwise_cons (List.pairwise_append.mp hl).2.1 hj).le

theorem find?_answer_eq_none {ι : Type*} {used hit : ι → Bool} {l : List ι} :
    l.find? (fun i ↦ used i && hit i) = none ↔ ∀ j ∈ l, used j = true → hit j = false := by
  rw [List.find?_eq_none]
  refine forall₂_congr fun j _ ↦ ?_
  rw [Bool.and_eq_true, not_and, Bool.not_eq_true]

/-- The four ways a pass over `l` can end. A slot can be a victim when it is `young`. -/
inductive ScanResult {ι : Type*} (used hit : ι → Bool) (young : ι → Prop) (l : List ι) :
    Option ι → Prop
  /-- the first occupied slot that answers the key -/
  | known {i : ι} (mem : i ∈ l) (occupied : used i = true) (answers : hit i = true)
      (first : l.find? (fun j ↦ used j && hit j) = some i) : ScanResult used hit young l (some i)
  /-- no slot answers; the first free one -/
  | free {i : ι} (mem : i ∈ l) (empty : used i = false)
      (unknown : ∀ j ∈ l, used j = true → hit j = false) : ScanResult used hit young l (some i)
  /-- no slot answers and none is free; the victim is somebody else's -/
  | evict {i : ι} (mem : i ∈ l) (occupied : used i = true) (full : ∀ j ∈ l, used j = true)
      (unknown : ∀ j ∈ l, hit j = false) (victims : ∃ j ∈ l, young j) :
      ScanResult used hit young l (some i)
  /-- no slot answers, none is free, and none can be a victim -/
  | stuck (full : ∀ j ∈ l, used j = true) (unknown : ∀ j ∈ l, hit j = false)
      (noVictims : ∀ j ∈ l, ¬ young j) : ScanResult used hit young l none

theorem scanResult_scan {ι τ : Type*} [LT τ] [DecidableLT τ] (used hit : ι → Bool)
    (stamp : ι → τ) (l : List ι) (bound : τ) :
    ScanResult used hit (fun i ↦ stamp i < bound) l (scan used hit stamp l none bound none) := by
  rw [scan_eq]
  cases hknown : l.find? (fun i ↦ used i && hit i) with
  | some i =>
    have hi := List.find?_some hknown
    rw [Bool.and_eq_true] at hi
    exact ScanResult.known (List.mem_of_find?_eq_some hknown) hi.1 hi.2 hknown
  | none =>
    have hno := find?_answer_eq_none.mp hknown
    cases hfree : l.find? (fun i ↦ !used i) with
    | some i =>
      have hi := List.find?_some hfree
      rw [Bool.not_eq_true'] at hi
      exact ScanResult.free (List.mem_of_find?_eq_some hfree) hi hno
    | none =>
      have hfull : ∀ j ∈ l, used j = true := by
        intro j hj
        have hj' := List.find?_eq_none.mp hfree j hj
        rwa [Bool.not_eq_true, Bool.not_eq_false'] at hj'
      have hno' : ∀ j ∈ l, hit j = false := fun j hj ↦ hno j hj (hfull j hj)
      have hsome := @oldest_isSome_iff _ _ _ _ used stamp l bound none
      cases hold : oldest used stamp l bound none with
      | some i =>
        rw [hold] at hsome
        obtain habs | ⟨j, hj, -, hlt⟩ := hsome.mp rfl
        · exact absurd habs Bool.false_ne_true
        rcases oldest_eq_some hold with ⟨hmem, hu⟩ | habs
        · exact ScanResult.evict hmem hu hfull hno' ⟨j, hj, hlt⟩
        · exact absurd habs (Option.some_ne_none i).symm
      | none =>
        rw [hold] at hsome
        refine ScanResult.stuck hfull hno' fun j hj hlt ↦ ?_
        exact Bool.false_ne_true (hsome.mpr (Or.inr ⟨j, hj, hfull j hj, hlt⟩))

end NetForensics

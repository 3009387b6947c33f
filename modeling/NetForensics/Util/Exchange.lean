import Mathlib.Tactic

/-!
# Asking on a channel that keeps order

A client asks and then reads: up to an element that ends an answer, or until nothing is there. The
channel keeps the order of the answers but does not say which request they belong to, and an answer
can come late. So a round that does not reach the end of its answer leaves the rest of it for the
next one, and from then on every round reads the answer to an earlier request.

The elements carry the number of their request here. No client looks at it.
-/

namespace NetForensics.Exchange

variable {α : Type*} (isEnd : α → Bool)

def takeAnswer : List α → List α
  | [] => []
  | x :: xs => if isEnd x then [x] else x :: takeAnswer xs

/-- An answer has one element that ends it, its last. -/
def IsAnswer (xs : List α) : Prop :=
  ∃ init last, xs = init ++ [last] ∧ isEnd last = true ∧ ∀ x ∈ init, isEnd x = false

/-- How many requests there have been, and what has not been read, each element with the number of
its request. -/
structure Channel (α : Type*) where
  asked : ℕ
  pending : List (ℕ × α)

def Channel.start : Channel α := ⟨0, []⟩

/-- One on which there is something already; it counts as part of the first answer. -/
def Channel.startWith (left : List α) : Channel α := ⟨0, left.map (0, ·)⟩

/-- One request: what is answered, now or later, and how much can be read before nothing is
there. -/
structure Round (α : Type*) where
  answer : List α
  ready : ℕ

namespace Channel

def round (c : Channel α) (r : Round α) : Channel α × List (ℕ × α) :=
  let pending := c.pending ++ r.answer.map (c.asked, ·)
  let read := takeAnswer (fun x ↦ isEnd x.2) (pending.take r.ready)
  (⟨c.asked + 1, pending.drop read.length⟩, read)

def rounds (c : Channel α) (rs : List (Round α)) : Channel α × List (List (ℕ × α)) :=
  rs.foldl (fun s r ↦ ((s.1.round isEnd r).1, s.2 ++ [(s.1.round isEnd r).2])) (c, [])

end Channel

/-- A round that has read the end of an answer. -/
def Complete (read : List (ℕ × α)) : Prop := ∃ x ∈ read, isEnd x.2 = true

instance (read : List (ℕ × α)) : Decidable (Complete isEnd read) :=
  inferInstanceAs (Decidable (∃ x ∈ read, _))

def answered (reads : List (List (ℕ × α))) : ℕ :=
  reads.countP fun read ↦ decide (Complete isEnd read)

/-! ## What is owed -/

/-- What is pending when the answers from one request up to another are owed; of the first, part may
have been read. -/
inductive Owed : ℕ → ℕ → List (ℕ × α) → Prop
  | nothing (n : ℕ) : Owed n n []
  | answer {k n : ℕ} {xs : List α} {rest : List (ℕ × α)} (h : IsAnswer isEnd xs)
      (hrest : Owed (k + 1) n rest) : Owed k n (xs.map (k, ·) ++ rest)

variable {isEnd} {k n : ℕ} {xs : List α} {pending : List (ℕ × α)}

theorem IsAnswer.ne_nil (h : IsAnswer isEnd xs) : xs ≠ [] := by
  obtain ⟨init, last, rfl, -⟩ := h
  exact List.append_ne_nil_of_right_ne_nil _ (List.cons_ne_nil last [])

theorem Owed.le (h : Owed isEnd k n pending) : k ≤ n := by
  induction h with
  | nothing => exact le_rfl
  | answer _ _ ih => exact (Nat.le_succ _).trans ih

theorem Owed.pending_eq_nil_iff (h : Owed isEnd k n pending) : pending = [] ↔ k = n := by
  cases h with
  | nothing => exact iff_of_true rfl rfl
  | answer hxs hrest =>
    have hle := hrest.le
    refine iff_of_false (fun hnil ↦ ?_) (by omega)
    exact hxs.ne_nil (List.map_eq_nil_iff.mp (List.append_eq_nil_iff.mp hnil).1)

theorem Owed.ask (h : Owed isEnd k n pending) (hxs : IsAnswer isEnd xs) :
    Owed isEnd k (n + 1) (pending ++ xs.map (n, ·)) := by
  induction h with
  | nothing n =>
    have hlast : Owed isEnd n (n + 1) (xs.map (n, ·) ++ []) := .answer hxs (.nothing (n + 1))
    rwa [List.append_nil] at hlast
  | answer h _ ih =>
    rw [List.append_assoc]
    exact .answer h ih

theorem IsAnswer.drop (h : IsAnswer isEnd xs) {j : ℕ} (hj : j < xs.length) :
    IsAnswer isEnd (xs.drop j) := by
  obtain ⟨init, last, rfl, hlast, hinit⟩ := h
  rw [List.length_append, List.length_singleton] at hj
  refine ⟨init.drop j, last, List.drop_append_of_le_length (by omega), hlast, fun x hx ↦ ?_⟩
  exact hinit x (List.mem_of_mem_drop hx)

theorem takeAnswer_take (h : IsAnswer isEnd xs) (rest : List (ℕ × α)) (j : ℕ) :
    takeAnswer (fun x ↦ isEnd x.2) ((xs.map (k, ·) ++ rest).take j) = (xs.take j).map (k, ·) := by
  obtain ⟨init, last, rfl, hlast, hinit⟩ := h
  induction init generalizing j with
  | nil =>
    cases j with
    | zero => rfl
    | succ j =>
      change (if isEnd last = true then _ else _) = _
      rw [if_pos hlast, List.nil_append, List.take_succ_cons, List.take_nil]
      rfl
  | cons x init ih =>
    cases j with
    | zero => rfl
    | succ j =>
      have hx := hinit x List.mem_cons_self
      have hrest := ih j fun y hy ↦ hinit y (List.mem_cons_of_mem x hy)
      rw [List.cons_append, List.map_cons, List.cons_append, List.take_succ_cons, takeAnswer,
        if_neg (by rw [hx]; exact Bool.false_ne_true), hrest, List.take_succ_cons, List.map_cons]

/-- An answer has been read to its end if and only if all of it has been read. -/
theorem complete_take_iff (h : IsAnswer isEnd xs) (j : ℕ) :
    Complete isEnd ((xs.take j).map (k, ·)) ↔ xs.length ≤ j := by
  obtain ⟨init, last, rfl, hlast, hinit⟩ := h
  rw [List.length_append, List.length_singleton]
  constructor
  · rintro ⟨x, hx, hend⟩
    by_contra hshort
    rw [List.take_append_of_le_length (by omega)] at hx
    obtain ⟨y, hy, rfl⟩ := List.mem_map.mp hx
    rw [hinit y (List.mem_of_mem_take hy)] at hend
    exact Bool.false_ne_true hend
  · intro hle
    refine ⟨(k, last), List.mem_map.mpr ⟨last, ?_, rfl⟩, hlast⟩
    rw [List.take_of_length_le (by rw [List.length_append, List.length_singleton]; exact hle)]
    exact List.mem_append_right _ (List.mem_singleton_self last)

/-- One round: what is read belongs to the first answer that is owed, and this is no longer owed if
it has been read to its end. -/
theorem round_of_owed {c : Channel α} (h : Owed isEnd k c.asked c.pending) {r : Round α}
    (hr : IsAnswer isEnd r.answer) :
    (∀ x ∈ (c.round isEnd r).2, x.1 = k) ∧
      Owed isEnd (if Complete isEnd (c.round isEnd r).2 then k + 1 else k)
        (c.round isEnd r).1.asked (c.round isEnd r).1.pending := by
  have hask := h.ask hr
  have hle := h.le
  rw [Channel.round]
  dsimp only
  generalize c.pending ++ r.answer.map (c.asked, ·) = pending at hask ⊢
  cases hask with
  | nothing => omega
  | answer hxs hrest =>
    rename_i xs rest
    rw [takeAnswer_take hxs]
    refine ⟨fun x hx ↦ ?_, ?_⟩
    · obtain ⟨y, -, rfl⟩ := List.mem_map.mp hx
      rfl
    · rw [List.length_map, List.length_take]
      by_cases hall : xs.length ≤ r.ready
      · rw [if_pos ((complete_take_iff hxs _).mpr hall), Nat.min_eq_right hall,
          List.drop_left' (List.length_map _)]
        exact hrest
      · rw [if_neg (mt (complete_take_iff hxs _).mp hall), Nat.min_eq_left (by omega),
          List.drop_append_of_le_length (by rw [List.length_map]; omega), ← List.map_drop]
        exact .answer (hxs.drop (by omega)) hrest

/-! ## Runs -/

theorem rounds_concat (c : Channel α) (rs : List (Round α)) (r : Round α) :
    c.rounds isEnd (rs ++ [r]) = (((c.rounds isEnd rs).1.round isEnd r).1,
      (c.rounds isEnd rs).2 ++ [((c.rounds isEnd rs).1.round isEnd r).2]) := by
  rw [Channel.rounds, List.foldl_concat]
  rfl

@[simp] theorem asked_rounds (c : Channel α) (rs : List (Round α)) :
    (c.rounds isEnd rs).1.asked = c.asked + rs.length := by
  induction rs using List.reverseRecOn with
  | nil => rfl
  | append_singleton rs r ih =>
    rw [rounds_concat, List.length_append, ← Nat.add_assoc, ← ih]
    rfl

theorem takeAnswer_eq_take (isEnd : α → Bool) (xs : List α) :
    takeAnswer isEnd xs = xs.take (takeAnswer isEnd xs).length := by
  induction xs with
  | nil => rfl
  | cons x xs ih =>
    rw [takeAnswer]
    split
    · rfl
    · rw [List.length_cons, List.take_succ_cons, ← ih]

/-- Nothing is lost in a round, and nothing changes its place. -/
theorem round_append (isEnd : α → Bool) (c : Channel α) (r : Round α) :
    (c.round isEnd r).2 ++ (c.round isEnd r).1.pending
      = c.pending ++ r.answer.map (c.asked, ·) := by
  rw [Channel.round]
  dsimp only
  generalize c.pending ++ r.answer.map (c.asked, ·) = pending
  have hread := takeAnswer_eq_take (fun x ↦ isEnd x.2) (pending.take r.ready)
  rw [List.take_take] at hread
  generalize takeAnswer (fun x ↦ isEnd x.2) (pending.take r.ready) = read at hread ⊢
  have hlen : read.length ≤ r.ready := by
    have hcount := congrArg List.length hread
    rw [List.length_take] at hcount
    omega
  rw [Nat.min_eq_left hlen] at hread
  nth_rewrite 1 [hread]
  exact List.take_append_drop _ _

theorem rounds_append (rs : List (Round α)) :
    (Channel.start.rounds isEnd rs).2.flatten ++ (Channel.start.rounds isEnd rs).1.pending
      = rs.zipIdx.flatMap fun r ↦ r.1.answer.map (r.2, ·) := by
  induction rs using List.reverseRecOn with
  | nil => rfl
  | append_singleton rs r ih =>
    have hround := round_append isEnd (Channel.start.rounds isEnd rs).1 r
    rw [asked_rounds] at hround
    rw [rounds_concat, List.flatten_append, List.flatten_singleton, List.append_assoc, hround,
      ← List.append_assoc, ih, List.zipIdx_append, List.flatMap_append, List.zipIdx_singleton,
      List.flatMap_singleton]
    rfl

theorem length_rounds (isEnd : α → Bool) (c : Channel α) (rs : List (Round α)) :
    (c.rounds isEnd rs).2.length = rs.length := by
  induction rs using List.reverseRecOn with
  | nil => rfl
  | append_singleton rs r ih => rw [rounds_concat, List.length_append, ih, List.length_append]; rfl

theorem answered_concat (reads : List (List (ℕ × α))) (read : List (ℕ × α)) :
    answered isEnd (reads ++ [read])
      = if Complete isEnd read then answered isEnd reads + 1 else answered isEnd reads := by
  rw [answered, List.countP_append, List.countP_singleton, answered]
  by_cases h : Complete isEnd read
  · rw [if_pos h, if_pos (decide_eq_true h)]
  · rw [if_neg h, if_neg (by rw [decide_eq_true_iff]; exact h), Nat.add_zero]

theorem answered_take_eq_iff (isEnd : α → Bool) {reads : List (List (ℕ × α))} {i : ℕ}
    (hi : i ≤ reads.length) :
    answered isEnd (reads.take i) = i ↔ ∀ read ∈ reads.take i, Complete isEnd read := by
  have hlen : (reads.take i).length = i := by
    rw [List.length_take]
    omega
  have hcount := List.countP_eq_length (l := reads.take i)
    (p := fun read ↦ decide (Complete isEnd read))
  rw [hlen] at hcount
  exact hcount.trans (forall₂_congr fun _ _ ↦ decide_eq_true_iff)

theorem owed_rounds {rs : List (Round α)} (hrs : ∀ r ∈ rs, IsAnswer isEnd r.answer) :
    Owed isEnd (answered isEnd (Channel.start.rounds isEnd rs).2)
      (Channel.start.rounds isEnd rs).1.asked (Channel.start.rounds isEnd rs).1.pending := by
  induction rs using List.reverseRecOn with
  | nil => exact .nothing 0
  | append_singleton rs r ih =>
    have howed := ih fun r' hr' ↦ hrs r' (List.mem_append_left _ hr')
    have hround := (round_of_owed howed
      (hrs r (List.mem_append_right _ (List.mem_singleton_self r)))).2
    rw [rounds_concat, answered_concat]
    exact hround

/-- Everything has been read but what is owed to the rounds that were not complete. -/
theorem pending_eq_nil_iff {rs : List (Round α)} (hrs : ∀ r ∈ rs, IsAnswer isEnd r.answer) :
    (Channel.start.rounds isEnd rs).1.pending = [] ↔
      ∀ read ∈ (Channel.start.rounds isEnd rs).2, Complete isEnd read := by
  have hasked : (Channel.start.rounds isEnd rs).1.asked
      = (Channel.start.rounds isEnd rs).2.length := by
    rw [asked_rounds, length_rounds]
    exact Nat.zero_add _
  rw [(owed_rounds hrs).pending_eq_nil_iff, hasked, answered, List.countP_eq_length]
  exact forall₂_congr fun _ _ ↦ decide_eq_true_iff

/-- What a round reads answers the request with the number of complete rounds before it. -/
theorem eq_answered_of_mem {rs : List (Round α)} (hrs : ∀ r ∈ rs, IsAnswer isEnd r.answer) {i : ℕ}
    {read : List (ℕ × α)} (hread : (Channel.start.rounds isEnd rs).2[i]? = some read) :
    ∀ x ∈ read, x.1 = answered isEnd ((Channel.start.rounds isEnd rs).2.take i) := by
  induction rs using List.reverseRecOn with
  | nil => exact absurd hread (by simp [Channel.rounds])
  | append_singleton rs r ih =>
    have hinit := fun r' hr' ↦ hrs r' (List.mem_append_left [r] hr')
    have hlen := length_rounds isEnd Channel.start rs
    rw [rounds_concat] at hread ⊢
    dsimp only at hread ⊢
    rcases Nat.lt_or_ge i rs.length with hlt | hge
    · rw [List.getElem?_append_left (by omega)] at hread
      rw [List.take_append_of_le_length (by omega)]
      exact ih hinit hread
    · rw [List.getElem?_append_right (by omega), List.getElem?_singleton] at hread
      obtain ⟨hi, hlast⟩ := Option.ite_none_right_eq_some.mp hread
      rw [hlen, Nat.sub_eq_zero_iff_le] at hi
      rw [List.take_append_of_le_length (by omega), List.take_of_length_le (by omega),
        ← Option.some_inj.mp hlast]
      exact (round_of_owed (owed_rounds hinit)
        (hrs r (List.mem_append_right _ (List.mem_singleton_self r)))).1

/-! ## What was there before -/

theorem IsAnswer.append_left (h : IsAnswer isEnd xs) {left : List α}
    (hleft : ∀ x ∈ left, isEnd x = false) : IsAnswer isEnd (left ++ xs) := by
  obtain ⟨init, last, rfl, hlast, hinit⟩ := h
  refine ⟨left ++ init, last, (List.append_assoc _ _ _).symm, hlast, fun x hx ↦ ?_⟩
  rcases List.mem_append.mp hx with hx | hx
  · exact hleft x hx
  · exact hinit x hx

theorem startWith_rounds_cons (isEnd : α → Bool) (left : List α) (r : Round α)
    (rs : List (Round α)) :
    (Channel.startWith left).rounds isEnd (r :: rs)
      = Channel.start.rounds isEnd (⟨left ++ r.answer, r.ready⟩ :: rs) := by
  have hround : (Channel.startWith left).round isEnd r
      = Channel.start.round isEnd ⟨left ++ r.answer, r.ready⟩ := by
    rw [Channel.round, Channel.round, Channel.startWith, Channel.start, List.nil_append,
      List.map_append]
  rw [Channel.rounds, Channel.rounds, List.foldl_cons, List.foldl_cons, hround]

end NetForensics.Exchange

import NetForensics.Util.Ring

/-!
# Bounded queues that drop their oldest element

The abstract counterpart of a ring: a list, oldest element first, with the number of elements that
were dropped to make room. `Ring.Holds` says that a ring stands for a list; its rules carry the two
primitive moves over, and `DropQueue.Accounts` is what a whole history of pushes and removals
leaves invariant.
-/

namespace NetForensics

/-- A queue, oldest element first, and the number of elements it has dropped. -/
structure DropQueue (α : Type*) where
  items : List α
  drops : ℕ

namespace DropQueue

variable {α : Type*}

/-- Append, making room first when the queue is full. -/
def push (cap : ℕ) (q : DropQueue α) (x : α) : DropQueue α :=
  if q.items.length < cap then ⟨q.items ++ [x], q.drops⟩
  else ⟨q.items.tail ++ [x], q.drops + 1⟩

/-- Remove the first `n` elements. -/
def serve (q : DropQueue α) (n : ℕ) : DropQueue α := ⟨q.items.drop n, q.drops⟩

theorem serve_zero (q : DropQueue α) : q.serve 0 = q := rfl

/-- The queue `q` is what `pushed` has left once `served` were removed from the front, starting from
an empty queue with `d` drops. Every pushed element is in exactly one place, and none overtakes
another. -/
structure Accounts (d : ℕ) (pushed served : List α) (q : DropQueue α) : Prop where
  sublist : List.Sublist (served ++ q.items) pushed
  length_eq : pushed.length + d = served.length + q.items.length + q.drops

variable {cap d : ℕ} {pushed served : List α} {q : DropQueue α}

theorem accounts_nil (d : ℕ) : Accounts d [] [] (⟨[], d⟩ : DropQueue α) where
  sublist := List.Sublist.refl []
  length_eq := rfl

theorem Accounts.push (h : Accounts d pushed served q) (hcap : 0 < cap) (x : α) :
    Accounts d (pushed ++ [x]) served (q.push cap x) := by
  rw [DropQueue.push]
  split
  · refine ⟨?_, ?_⟩
    · rw [← List.append_assoc]
      exact h.sublist.append (List.Sublist.refl [x])
    · have hlen := h.length_eq
      simp only [List.length_append, List.length_singleton]
      omega
  · rename_i hfull
    refine ⟨?_, ?_⟩
    · rw [← List.append_assoc]
      have htail : List.Sublist (served ++ q.items.tail) (served ++ q.items) :=
        (List.Sublist.refl served).append (List.tail_sublist q.items)
      exact (htail.trans h.sublist).append (List.Sublist.refl [x])
    · have hlen := h.length_eq
      simp only [List.length_append, List.length_singleton, List.length_tail]
      omega

theorem Accounts.serve (h : Accounts d pushed served q) (n : ℕ) :
    Accounts d pushed (served ++ q.items.take n) (q.serve n) where
  sublist := by
    have hall : served ++ q.items.take n ++ (q.serve n).items = served ++ q.items := by
      rw [List.append_assoc, DropQueue.serve, List.take_append_drop]
    rw [hall]
    exact h.sublist
  length_eq := by
    have hlen := h.length_eq
    simp only [DropQueue.serve, List.length_append, List.length_take, List.length_drop]
    omega

/-- After a push the queue holds the last `cap` of what it held and the new element. -/
theorem items_push (hcap : 0 < cap) (hlen : q.items.length ≤ cap) (x : α) :
    (q.push cap x).items = (q.items ++ [x]).drop (q.items.length + 1 - cap) := by
  rw [DropQueue.push]
  split
  · have hzero : q.items.length + 1 - cap = 0 := by omega
    rw [hzero, List.drop_zero]
  · have hone : q.items.length + 1 - cap = 1 := by omega
    have hne : q.items ≠ [] := by
      intro h
      rw [h, List.length_nil] at hone
      omega
    rw [hone, List.drop_one, List.tail_append_of_ne_nil hne]

/-- After any number of pushes it holds the last `cap` elements. -/
theorem items_foldl_push (hcap : 0 < cap) (hlen : q.items.length ≤ cap) (xs : List α) :
    (xs.foldl (push cap) q).items = (q.items ++ xs).drop (q.items.length + xs.length - cap) := by
  induction xs generalizing q with
  | nil =>
    have hzero : q.items.length + ([] : List α).length - cap = 0 := by
      rw [List.length_nil]
      omega
    rw [hzero, List.append_nil, List.drop_zero, List.foldl_nil]
  | cons x xs ih =>
    have hpush := items_push hcap hlen x
    have hpushLen : (q.push cap x).items.length = min (q.items.length + 1) cap := by
      rw [hpush, List.length_drop, List.length_append, List.length_singleton]
      omega
    have hdrop : (q.items ++ [x]).drop (q.items.length + 1 - cap) ++ xs
        = (q.items ++ x :: xs).drop (q.items.length + 1 - cap) := by
      have hle : q.items.length + 1 - cap ≤ (q.items ++ [x]).length := by
        rw [List.length_append, List.length_singleton]
        omega
      rw [List.append_cons q.items x xs, List.drop_append_of_le_length hle]
    rw [List.foldl_cons, ih (by omega), hpushLen, hpush, hdrop, List.drop_drop, List.length_cons]
    congr 1
    omega

end DropQueue

/-! ## Rings -/

namespace Ring

variable {α : Type*} {r : Ring α} {l : List α}

/-- The ring is in order, and stands for the list. -/
structure Holds (r : Ring α) (l : List α) : Prop where
  valid : r.Valid
  contents_eq : r.contents = l

theorem Holds.cnt_eq (h : r.Holds l) : r.cnt = l.length := by
  rw [← h.contents_eq, length_contents]

theorem holds_nil (cells : ℕ → α) {cap : ℕ} (hcap : 0 < cap) : Holds ⟨cells, cap, 0, 0, 0⟩ [] :=
  ⟨⟨hcap, Nat.zero_le _, (Nat.zero_mod cap).symm⟩, rfl⟩

theorem Holds.put (h : r.Holds l) (hc : r.cnt < r.cap) (x : α) : (r.put x).Holds (l ++ [x]) :=
  ⟨h.valid.put hc x, by rw [contents_put h.valid hc, h.contents_eq]⟩

theorem Holds.advance (h : r.Holds l) {n : ℕ} (hn : n ≤ r.cnt) : (r.advance n).Holds (l.drop n) :=
  ⟨h.valid.advance hn, by rw [contents_advance hn, h.contents_eq]⟩

/-- Dropping the oldest element of a full ring and then writing is a push of the queue. -/
theorem Holds.push (h : r.Holds l) (x : α) (drops : ℕ) :
    ((if r.cap ≤ r.cnt then r.advance 1 else r).put x).Holds
      (DropQueue.push r.cap ⟨l, drops⟩ x).items := by
  rw [DropQueue.push]
  by_cases hfull : r.cap ≤ r.cnt
  · have hpos : 1 ≤ r.cnt := le_trans h.valid.cap_pos hfull
    have hlt : ¬ l.length < r.cap := by rw [← h.cnt_eq]; omega
    rw [if_pos hfull, if_neg hlt]
    have hroom : (r.advance 1).cnt < (r.advance 1).cap := by
      have := h.valid.cnt_le
      rw [advance_cnt, advance_cap]
      omega
    have hput := (h.advance hpos).put hroom x
    rw [List.drop_one] at hput
    exact hput
  · have hlt : l.length < r.cap := by rw [← h.cnt_eq]; omega
    rw [if_neg hfull, if_pos hlt]
    exact h.put (Nat.lt_of_not_le hfull) x

theorem drop_contents {i : ℕ} (hi : i < r.cnt) :
    r.contents.drop i = r.cells ((r.head + i) % r.cap) :: r.contents.drop (i + 1) := by
  rw [List.drop_eq_getElem_cons (by rwa [length_contents])]
  simp [contents]

end Ring

end NetForensics

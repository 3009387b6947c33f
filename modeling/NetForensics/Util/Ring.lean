import Mathlib.Data.List.Range
import Mathlib.Logic.Function.Basic
import Mathlib.Tactic

/-!
# Ring buffers as bounded queues

A ring of capacity `cap` is kept as a cell array together with three separately maintained
indices: the position of the oldest element, the position of the next write, and the number of
elements held. Nothing in the representation ties the three together, so the relation between
them is an invariant, `Ring.Valid`, and the queue the ring stands for is read off by walking `cnt`
cells from `head`.

The two primitive moves are `Ring.put`, which writes at the tail, and `Ring.advance`, which drops
a number of elements from the front without touching the cells. Every operation of a client is a
composition of these, and each of the two has one lemma for the invariant and one for the queue.
-/

namespace NetForensics

/-- A cell array with its three indices. -/
structure Ring (α : Type*) where
  /-- The cells; only positions below `cap` are ever addressed. -/
  cells : ℕ → α
  cap : ℕ
  /-- Position of the oldest element. -/
  head : ℕ
  /-- Position of the next write. -/
  tail : ℕ
  /-- Number of elements held. -/
  cnt : ℕ

namespace Ring

variable {α : Type*}

/-- Write at the tail and move it on, wrapping at the capacity. -/
def put (r : Ring α) (x : α) : Ring α :=
  { r with cells := Function.update r.cells r.tail x,
           tail := (r.tail + 1) % r.cap,
           cnt := r.cnt + 1 }

/-- Drop `n` elements from the front. The cells keep their stale values. -/
def advance (r : Ring α) (n : ℕ) : Ring α :=
  { r with head := (r.head + n) % r.cap, cnt := r.cnt - n }

/-- The ring that holds nothing, over blank cells. -/
def blank (x : α) (cap : ℕ) : Ring α :=
  { cells := fun _ ↦ x, cap := cap, head := 0, tail := 0, cnt := 0 }

/-- The queue a ring stands for, oldest element first. -/
def contents (r : Ring α) : List α :=
  (List.range r.cnt).map fun k ↦ r.cells ((r.head + k) % r.cap)

/-- The relation between the indices that every operation has to restore. -/
structure Valid (r : Ring α) : Prop where
  head_lt : r.head < r.cap
  cnt_le : r.cnt ≤ r.cap
  tail_eq : r.tail = (r.head + r.cnt) % r.cap

theorem Valid.cap_pos {r : Ring α} (h : r.Valid) : 0 < r.cap := Nat.zero_lt_of_lt h.head_lt

@[simp] theorem put_cnt (r : Ring α) (x : α) : (r.put x).cnt = r.cnt + 1 := rfl

@[simp] theorem advance_cap (r : Ring α) (n : ℕ) : (r.advance n).cap = r.cap := rfl

@[simp] theorem advance_cnt (r : Ring α) (n : ℕ) : (r.advance n).cnt = r.cnt - n := rfl

@[simp] theorem length_contents (r : Ring α) : r.contents.length = r.cnt := by
  rw [contents, List.length_map, List.length_range]

/-! ## The invariant -/

theorem Valid.put {r : Ring α} (h : r.Valid) (hc : r.cnt < r.cap) (x : α) : (r.put x).Valid where
  head_lt := h.head_lt
  cnt_le := hc
  tail_eq := by
    have ht : (r.tail + 1) % r.cap = (r.head + r.cnt + 1) % r.cap := by
      rw [h.tail_eq, Nat.mod_add_mod]
    exact ht

theorem Valid.advance {r : Ring α} (h : r.Valid) {n : ℕ} (hn : n ≤ r.cnt) :
    (r.advance n).Valid where
  head_lt := Nat.mod_lt _ h.cap_pos
  cnt_le := le_trans (Nat.sub_le _ _) h.cnt_le
  tail_eq := by
    have hsum : r.head + n + (r.cnt - n) = r.head + r.cnt := by omega
    calc r.tail = (r.head + n + (r.cnt - n)) % r.cap := by rw [hsum, h.tail_eq]
      _ = ((r.head + n) % r.cap + (r.cnt - n)) % r.cap := by rw [Nat.mod_add_mod]

/-! ## The queue -/

/-- Fewer than `cap` cells ahead of the head there is no wrap back onto the tail. -/
private theorem mod_ne_of_lt {cap head k n : ℕ} (hk : k < n) (hn : n < cap) :
    (head + k) % cap ≠ (head + n) % cap := by
  intro h
  have hmod : k % cap = n % cap := Nat.ModEq.add_left_cancel' head h
  rw [Nat.mod_eq_of_lt (hk.trans hn), Nat.mod_eq_of_lt hn] at hmod
  omega

theorem contents_put {r : Ring α} (h : r.Valid) (hc : r.cnt < r.cap) (x : α) :
    (r.put x).contents = r.contents ++ [x] := by
  have hold : (List.range r.cnt).map (fun k ↦ (r.put x).cells ((r.head + k) % r.cap))
      = r.contents := by
    refine List.map_congr_left fun k hk ↦ ?_
    have hne : (r.head + k) % r.cap ≠ r.tail := by
      rw [h.tail_eq]
      exact mod_ne_of_lt (List.mem_range.mp hk) hc
    exact Function.update_of_ne hne _ _
  have hnew : (r.put x).cells ((r.head + r.cnt) % r.cap) = x := by
    rw [← h.tail_eq]
    exact Function.update_self _ _ _
  calc (r.put x).contents
      = (List.range (r.cnt + 1)).map (fun k ↦ (r.put x).cells ((r.head + k) % r.cap)) := rfl
    _ = r.contents ++ [x] := by
        rw [List.range_succ, List.map_append, hold, List.map_singleton, hnew]

theorem contents_advance {r : Ring α} {n : ℕ} (hn : n ≤ r.cnt) :
    (r.advance n).contents = r.contents.drop n := by
  have hrange : (List.range r.cnt).drop n = (List.range (r.cnt - n)).map (n + ·) := by
    obtain ⟨m, hm⟩ := Nat.exists_eq_add_of_le hn
    rw [hm, List.range_add, Nat.add_sub_cancel_left]
    exact List.drop_left' List.length_range
  rw [contents, contents, ← List.map_drop, hrange, List.map_map]
  refine List.map_congr_left fun k _ ↦ ?_
  have hidx : ((r.head + n) % r.cap + k) % r.cap = (r.head + (n + k)) % r.cap := by
    rw [Nat.mod_add_mod, Nat.add_assoc]
  exact congrArg r.cells hidx

theorem contents_eq_cons {r : Ring α} (h : r.Valid) (hc : 0 < r.cnt) :
    r.contents = r.cells r.head :: (r.advance 1).contents := by
  have hfront : r.contents.take 1 = [r.cells r.head] := by
    obtain ⟨m, hm⟩ := Nat.exists_eq_add_of_le hc
    rw [contents, ← List.map_take, hm, Nat.add_comm, List.range_succ_eq_map]
    simp [Nat.mod_eq_of_lt h.head_lt]
  rw [contents_advance hc, ← List.singleton_append, ← hfront, List.take_append_drop]

end Ring

end NetForensics

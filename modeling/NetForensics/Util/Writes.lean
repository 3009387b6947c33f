import Mathlib.Tactic

/-!
# Bounds-checked writes

The counterpart of bounds-checked reads: a write is `none` when it does not lie inside the memory it
writes to. A program that builds up a text in a buffer keeps it as a prefix of the memory, and what
it writes next comes right behind (`exists_writeSlice`).
-/

namespace NetForensics

/-- Store bytes from offset `i` on. -/
def writeSlice (mem : List UInt8) (i : ℕ) (bs : List UInt8) : Option (List UInt8) :=
  if i + bs.length ≤ mem.length then some (mem.take i ++ (bs ++ mem.drop (i + bs.length)))
  else none

variable {mem text bs : List UInt8} {i : ℕ}

theorem writeSlice_of_le (h : i + bs.length ≤ mem.length) :
    writeSlice mem i bs = some (mem.take i ++ (bs ++ mem.drop (i + bs.length))) :=
  if_pos h

theorem prefix_of_writeSlice {mem' : List UInt8} (h : writeSlice mem i bs = some mem') :
    mem.take i ++ bs <+: mem' := by
  obtain ⟨-, heq⟩ := Option.ite_none_right_eq_some.mp h
  rw [← Option.some_inj.mp heq, ← List.append_assoc]
  exact List.prefix_append _ _

theorem drop_of_writeSlice {mem' : List UInt8} {k : ℕ} (h : writeSlice mem i bs = some mem')
    (hk : i + bs.length ≤ k) : mem'.drop k = mem.drop k := by
  obtain ⟨hle, heq⟩ := Option.ite_none_right_eq_some.mp h
  obtain rfl := Option.some_inj.mp heq
  have htake : (mem.take i).length = i := by
    rw [List.length_take]
    omega
  obtain ⟨d, rfl⟩ := Nat.exists_eq_add_of_le hk
  rw [← List.append_assoc, ← List.drop_drop, List.drop_left' (by rw [List.length_append, htake]),
    List.drop_drop]

/-- Writing behind a text. What came behind it is overwritten, and the memory stays as long. -/
theorem exists_writeSlice (htext : text <+: mem) (bs : List UInt8)
    (h : text.length + bs.length ≤ mem.length) :
    ∃ mem', writeSlice mem text.length bs = some mem' ∧ text ++ bs <+: mem' ∧
      mem'.length = mem.length := by
  have htake : mem.take text.length = text := (List.prefix_iff_eq_take.mp htext).symm
  refine ⟨_, writeSlice_of_le h, ?_, ?_⟩
  · rw [htake, ← List.append_assoc]
    exact List.prefix_append _ _
  · rw [htake, List.length_append, List.length_append, List.length_drop]
    omega

end NetForensics

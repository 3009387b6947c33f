import Mathlib.Tactic

/-!
# Bounds-checked reads

A program that walks through a buffer of bytes reads at offsets it computes. Here a read is `none`
when it does not lie inside the buffer, so that a walk written with these reads says of itself that
it stays inside: it never ends in `none`.

Fields are read where they stand, with anything before and after them (`readSlice_mid`,
`readLe_mid`).
-/

namespace NetForensics

/-- The width of `unsigned long` and of `size_t`. -/
inductive WordSize where
  | w32 | w64
  deriving DecidableEq

def WordSize.bits : WordSize → ℕ
  | .w32 => 32
  | .w64 => 64

def readByte (buf : List UInt8) (i : ℕ) : Option UInt8 := buf[i]?

/-- The `n` bytes from offset `i` on. -/
def readSlice (buf : List UInt8) (i n : ℕ) : Option (List UInt8) :=
  if i + n ≤ buf.length then some ((buf.drop i).take n) else none

def beNat (bs : List UInt8) : ℕ := bs.foldl (fun n b ↦ 256 * n + b.toNat) 0

def leNat (bs : List UInt8) : ℕ := bs.foldr (fun b n ↦ b.toNat + 256 * n) 0

/-- A field of `n` bytes in network order. -/
def readBe (buf : List UInt8) (i n : ℕ) : Option ℕ := (readSlice buf i n).map beNat

/-- A field of `n` bytes in the order of a little-endian machine. -/
def readLe (buf : List UInt8) (i n : ℕ) : Option ℕ := (readSlice buf i n).map leNat

variable {buf bs : List UInt8} {i n : ℕ}

theorem readSlice_of_le (h : i + n ≤ buf.length) : readSlice buf i n = some ((buf.drop i).take n) :=
  if_pos h

theorem readSlice_eq_none_iff : readSlice buf i n = none ↔ buf.length < i + n := by
  rw [readSlice, ite_eq_right_iff, ← Nat.not_le]
  simp

theorem length_of_readSlice (h : readSlice buf i n = some bs) :
    bs.length = n ∧ i + n ≤ buf.length := by
  obtain ⟨hle, heq⟩ := Option.ite_none_right_eq_some.mp h
  obtain rfl := Option.some_inj.mp heq
  rw [List.length_take, List.length_drop]
  omega

theorem readBe_of_le (h : i + n ≤ buf.length) :
    readBe buf i n = some (beNat ((buf.drop i).take n)) := by
  rw [readBe, readSlice_of_le h, Option.map_some]

theorem readLe_of_le (h : i + n ≤ buf.length) :
    readLe buf i n = some (leNat ((buf.drop i).take n)) := by
  rw [readLe, readSlice_of_le h, Option.map_some]

theorem readLe_eq_none_iff : readLe buf i n = none ↔ buf.length < i + n := by
  rw [readLe, Option.map_eq_none_iff, readSlice_eq_none_iff]

theorem leNat_lt (bs : List UInt8) : leNat bs < 256 ^ bs.length := by
  induction bs with
  | nil => exact Nat.one_pos
  | cons b bs ih =>
    have hb := b.toNat_lt
    have hcons : leNat (b :: bs) = b.toNat + 256 * leNat bs := rfl
    rw [hcons, List.length_cons, pow_succ]
    omega

theorem lt_of_readLe {v : ℕ} (h : readLe buf i n = some v) : v < 256 ^ n := by
  obtain ⟨bs, hbs, rfl⟩ := Option.map_eq_some_iff.mp h
  rw [← (length_of_readSlice hbs).1]
  exact leNat_lt bs

/-! ## Fields in their context -/

theorem readSlice_append (pre rest : List UInt8) (i n : ℕ) :
    readSlice (pre ++ rest) (pre.length + i) n = readSlice rest i n := by
  have hle : pre.length + i + n ≤ (pre ++ rest).length ↔ i + n ≤ rest.length := by
    rw [List.length_append]
    omega
  simp only [readSlice, hle, List.drop_length_add_append]

theorem readSlice_mid (pre bs rest : List UInt8) {i n : ℕ} (h : i + n ≤ bs.length) :
    readSlice (pre ++ (bs ++ rest)) (pre.length + i) n = some ((bs.drop i).take n) := by
  have hlen : n ≤ (bs.drop i).length := by
    rw [List.length_drop]
    omega
  rw [readSlice_append, readSlice_of_le (by rw [List.length_append]; omega),
    List.drop_append_of_le_length (by omega), List.take_append_of_le_length hlen]

theorem readLe_mid (pre bs rest : List UInt8) {n : ℕ} (h : bs.length = n) :
    readLe (pre ++ (bs ++ rest)) pre.length n = some (leNat bs) := by
  have hmid := readSlice_mid pre bs rest (i := 0) (n := n) (by omega)
  rw [Nat.add_zero, List.drop_zero, List.take_of_length_le h.le] at hmid
  rw [readLe, hmid, Option.map_some]

end NetForensics

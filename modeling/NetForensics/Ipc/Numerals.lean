import NetForensics.Ipc.Request
import NetForensics.Util.Reads

/-!
# The numbers behind the numerals

Configuration scalars and requests are read with `strtoul` and `strtoull`, which negate a number
modulo the width of the type and turn one that is out of range into the largest there is. `errno` is
not asked, so a caller sees neither; `parse_u32` compares the result with `UINT32_MAX`, `parse_size`
and `json_get_u32` just convert it. What is accepted therefore depends on the width of `unsigned
long` and `size_t`, which is 64 bits on the one target and 32 on the other.
-/

namespace NetForensics

/-- `strtoul(s, &end, 10)`, where `unsigned long` has the given number of bits. -/
def strtoul (bits : ℕ) (s : CStr) : Option (ℕ × CStr) :=
  let (neg, t) := takeSign (s.dropWhile isSpace)
  let digits := t.takeWhile isDigit
  if digits = [] then none
  else
    let n := digits.foldl (fun n b ↦ 10 * n + (b.toNat - 48)) 0
    some (if 2 ^ bits ≤ n then 2 ^ bits - 1 else if neg then (2 ^ bits - n) % 2 ^ bits else n,
      t.dropWhile isDigit)

/-- `parse_u32` -/
def parseU32On (w : WordSize) (s : CStr) : Option UInt32 :=
  (strtoul w.bits s).bind fun (v, rest) ↦
    if rest ≠ [] ∨ 0xffffffff < v then none else some (UInt32.ofNat v)

/-- `parse_size`; `unsigned long long` has 64 bits on both targets. -/
def parseSizeOn (w : WordSize) (s : CStr) : Option ℕ :=
  (strtoul 64 s).bind fun (v, rest) ↦ if rest ≠ [] then none else some (v % 2 ^ w.bits)

/-- `json_get_u32` -/
def jsonGetU32On (w : WordSize) (json : CStr) (key : String) : Option UInt32 :=
  (jsonValue json key).bind fun s ↦ (strtoul w.bits s).map fun (v, _) ↦ UInt32.ofNat v

theorem strtoul_64 (s : CStr) : strtoul 64 s = strtoull s := rfl

theorem parseU32On_w64 : parseU32On .w64 = parseU32 := rfl

theorem jsonGetU32On_w64 : jsonGetU32On .w64 = jsonGetU32 := rfl

/-! ## What a numeral denotes -/

/-- The integer that the numeral at the start of a text denotes, and what stands behind it. -/
def readInteger (s : CStr) : Option (ℤ × CStr) :=
  let (neg, t) := takeSign (s.dropWhile isSpace)
  let digits := t.takeWhile isDigit
  if digits = [] then none
  else
    let n : ℕ := digits.foldl (fun n b ↦ 10 * n + (b.toNat - 48)) 0
    some (if neg then -(n : ℤ) else n, t.dropWhile isDigit)

/-- What `strtoul` makes of an integer. -/
def saturated (bits : ℕ) (z : ℤ) : ℕ :=
  if 2 ^ bits ≤ z.natAbs then 2 ^ bits - 1 else (z % 2 ^ bits).toNat

theorem cast_two_pow (bits : ℕ) : ((2 ^ bits : ℕ) : ℤ) = 2 ^ bits := by
  push_cast
  rfl

theorem saturated_lt (bits : ℕ) (z : ℤ) : saturated bits z < 2 ^ bits := by
  have hpos : 0 < 2 ^ bits := Nat.two_pow_pos bits
  have hmod : z % 2 ^ bits < 2 ^ bits := Int.emod_lt_of_pos z (by positivity)
  rw [saturated]
  split
  · omega
  · have hcast := cast_two_pow bits
    omega

theorem saturated_of_fits {bits : ℕ} {z : ℤ} (hnonneg : 0 ≤ z) (hfits : z < 2 ^ bits) :
    (saturated bits z : ℤ) = z := by
  have hcast := cast_two_pow bits
  rw [saturated, if_neg (by omega), Int.emod_eq_of_lt hnonneg hfits, Int.toNat_of_nonneg hnonneg]

/-- A negative number that is not too small is counted from the end of the range. -/
theorem saturated_of_neg {bits : ℕ} {z : ℤ} (hneg : z < 0) (hfits : -2 ^ bits < z) :
    (saturated bits z : ℤ) = z + 2 ^ bits := by
  have hcast := cast_two_pow bits
  have hmod : z % 2 ^ bits = z + 2 ^ bits := by
    rw [← Int.add_emod_right, Int.emod_eq_of_lt (by omega) (by omega)]
  rw [saturated, if_neg (by omega), hmod, Int.toNat_of_nonneg (by omega)]

theorem saturated_of_large {bits : ℕ} {z : ℤ} (h : 2 ^ bits ≤ z.natAbs) :
    saturated bits z = 2 ^ bits - 1 := if_pos h

theorem strtoul_eq (bits : ℕ) (s : CStr) :
    strtoul bits s = (readInteger s).map fun x ↦ (saturated bits x.1, x.2) := by
  rw [strtoul, readInteger]
  generalize takeSign (s.dropWhile isSpace) = signed
  obtain ⟨neg, t⟩ := signed
  dsimp only
  split
  · rfl
  · generalize (t.takeWhile isDigit).foldl (fun n b ↦ 10 * n + (b.toNat - 48)) 0 = n
    have hcast := cast_two_pow bits
    have hvalue : (if 2 ^ bits ≤ n then 2 ^ bits - 1
        else if neg then (2 ^ bits - n) % 2 ^ bits else n)
          = saturated bits (if neg then -(n : ℤ) else n) := by
      -- out of range the sign is ignored, and -0 is not counted from the end of the range
      by_cases hlarge : 2 ^ bits ≤ n
      · rw [if_pos hlarge, saturated_of_large (by cases neg <;> simpa using hlarge)]
      · rw [if_neg hlarge]
        zify
        cases neg with
        | false => exact (saturated_of_fits (by simp) (by simp; omega)).symm
        | true =>
          rcases Nat.eq_zero_or_pos n with rfl | hpos
          · simp [saturated]
          · rw [if_pos rfl, if_pos rfl, saturated_of_neg (by omega) (by omega)]
            rw [Int.emod_eq_of_lt (by omega) (by omega)]
            omega
    rw [hvalue]
    rfl

/-! ## When the stored value is the one denoted -/

/-- What is stored is the integer that was read, and one that is negative or too large for so many
bits is not stored. -/
structure Denotes (bits : ℕ) (read : Option (ℤ × CStr)) (stored : Option ℕ) : Prop where
  value : ∀ v, stored = some v → ∃ x, read = some x ∧ (v : ℤ) = x.1
  rejects : ∀ x, read = some x → x.1 < 0 ∨ 2 ^ bits ≤ x.1 → stored = none

/-- `parse_u32` stores the integer or rejects it. On the target with 64 bits, negative integers are
large numbers, but the smallest of them come around. -/
def U32Safe : WordSize → ℤ → Prop
  | .w32, z => 0 ≤ z ∧ z < 2 ^ 32
  | .w64, z => z ≤ -2 ^ 64 ∨ 2 ^ 32 - 2 ^ 64 ≤ z

theorem denotes_none {bits : ℕ} {stored : Option ℕ} (h : stored = none)
    (read : Option (ℤ × CStr)) : Denotes bits read stored :=
  ⟨fun v hv ↦ absurd (hv.symm.trans h) (Option.some_ne_none v), fun _ _ _ ↦ h⟩

/-- A value that is stored for an integer is the integer, if it is a value of its type. -/
theorem denotes_some_iff {bits v : ℕ} {x : ℤ × CStr} (hv : v < 2 ^ bits) :
    Denotes bits (some x) (some v) ↔ (v : ℤ) = x.1 := by
  constructor
  · intro h
    obtain ⟨y, hy, hval⟩ := h.value v rfl
    rwa [Option.some_inj.mp hy]
  · intro h
    refine ⟨fun u hu ↦ ⟨x, rfl, Option.some_inj.mp hu ▸ h⟩, fun y hy hout ↦ ?_⟩
    rw [← Option.some_inj.mp hy, ← h] at hout
    have hcast := cast_two_pow bits
    omega

theorem saturated_eq_iff (bits : ℕ) (z : ℤ) :
    (saturated bits z : ℤ) = z ↔ 0 ≤ z ∧ z < 2 ^ bits := by
  refine ⟨fun h ↦ ?_, fun h ↦ saturated_of_fits h.1 h.2⟩
  have hlt : ((saturated bits z : ℕ) : ℤ) < ((2 ^ bits : ℕ) : ℤ) :=
    Int.ofNat_lt.mpr (saturated_lt bits z)
  rw [h, Nat.cast_pow, Nat.cast_ofNat] at hlt
  exact ⟨h ▸ Int.natCast_nonneg _, hlt⟩

theorem saturated_mod_eq_iff {wide bits : ℕ} (hbits : bits ≤ wide) (z : ℤ) :
    ((saturated wide z % 2 ^ bits : ℕ) : ℤ) = z ↔ 0 ≤ z ∧ z < 2 ^ bits := by
  have hpow : (2 : ℤ) ^ bits ≤ 2 ^ wide := by exact_mod_cast Nat.pow_le_pow_right (by decide) hbits
  rw [Int.natCast_mod, Nat.cast_pow, Nat.cast_ofNat]
  constructor
  · intro h
    rw [← h]
    exact ⟨Int.emod_nonneg _ (by positivity), Int.emod_lt_of_pos _ (by positivity)⟩
  · intro h
    rw [saturated_of_fits h.1 (h.2.trans_le hpow), Int.emod_eq_of_lt h.1 h.2]

/-- The integers that `parse_u32` turns into a number it accepts, where `unsigned long` has 64
bits. -/
theorem saturated_le_iff (z : ℤ) :
    saturated 64 z ≤ 0xffffffff ↔ 0 ≤ z ∧ z < 2 ^ 32 ∨ -2 ^ 64 < z ∧ z < 2 ^ 32 - 2 ^ 64 := by
  by_cases hlarge : 2 ^ 64 ≤ z.natAbs
  · rw [saturated_of_large hlarge]
    omega
  · rcases lt_or_ge z 0 with hneg | hnonneg
    · have hval : (saturated 64 z : ℤ) = _ := saturated_of_neg hneg (by omega)
      omega
    · have hval : (saturated 64 z : ℤ) = _ := saturated_of_fits hnonneg (by omega)
      omega

theorem denotes_parseU32_iff (w : WordSize) (s : CStr) :
    Denotes 32 (readInteger s) ((parseU32On w s).map UInt32.toNat) ↔
      ∀ z, readInteger s = some (z, []) → U32Safe w z := by
  rw [parseU32On, strtoul_eq]
  cases hread : readInteger s with
  | none => exact iff_of_true (denotes_none rfl _) fun z hz ↦ absurd hz (by simp)
  | some x =>
    obtain ⟨z, rest⟩ := x
    rw [Option.map_some, Option.bind_some]
    dsimp only
    have hcond : (∀ z', some (z, rest) = some (z', []) → U32Safe w z') ↔
        (rest = [] → U32Safe w z) := by
      simp only [Option.some.injEq, Prod.mk.injEq]
      exact ⟨fun h hr ↦ h z ⟨rfl, hr⟩, fun h z' hz ↦ hz.1 ▸ h hz.2⟩
    rw [hcond]
    by_cases hrest : rest = []
    · rw [forall_prop_of_true hrest]
      -- what is compared is the number that `strtoul` returns, not the integer
      by_cases hbig : 0xffffffff < saturated w.bits z
      · rw [if_pos (Or.inr hbig)]
        refine iff_of_true (denotes_none rfl _) ?_
        cases w with
        | w32 => exact absurd hbig (by have := saturated_lt 32 z; simp only [WordSize.bits]; omega)
        | w64 =>
          have hout := (saturated_le_iff z).not.mp (Nat.not_le_of_lt hbig)
          rw [U32Safe]
          omega
      · rw [if_neg (not_or.mpr ⟨not_not.mpr hrest, hbig⟩), Option.map_some,
          UInt32.toNat_ofNat_of_lt' (Nat.lt_succ_of_le (Nat.le_of_not_lt hbig)),
          denotes_some_iff (by omega), saturated_eq_iff]
        cases w with
        | w32 => exact Iff.rfl
        | w64 =>
          have hin := (saturated_le_iff z).mp (Nat.le_of_not_lt hbig)
          rw [U32Safe]
          simp only [WordSize.bits]
          omega
    · rw [if_pos (Or.inl hrest)]
      exact iff_of_true (denotes_none rfl _) fun hr ↦ absurd hr hrest

theorem denotes_parseSize_iff (w : WordSize) (s : CStr) :
    Denotes w.bits (readInteger s) (parseSizeOn w s) ↔
      ∀ z, readInteger s = some (z, []) → 0 ≤ z ∧ z < 2 ^ w.bits := by
  have hbits : w.bits ≤ 64 := by cases w <;> decide
  rw [parseSizeOn, strtoul_eq]
  cases hread : readInteger s with
  | none => exact iff_of_true (denotes_none rfl _) fun z hz ↦ absurd hz (by simp)
  | some x =>
    obtain ⟨z, rest⟩ := x
    rw [Option.map_some, Option.bind_some]
    dsimp only
    by_cases hrest : rest = []
    · rw [if_neg (not_not.mpr hrest), denotes_some_iff (Nat.mod_lt _ (Nat.two_pow_pos _)),
        saturated_mod_eq_iff hbits, hrest]
      simp
    · rw [if_pos hrest]
      exact iff_of_true (denotes_none rfl _) fun z' hz ↦
        absurd (Prod.mk.inj (Option.some_inj.mp hz)).2 hrest

theorem denotes_jsonGetU32_iff (w : WordSize) (json : CStr) (key : String) :
    Denotes 32 ((jsonValue json key).bind readInteger)
        ((jsonGetU32On w json key).map UInt32.toNat) ↔
      ∀ x, (jsonValue json key).bind readInteger = some x → 0 ≤ x.1 ∧ x.1 < 2 ^ 32 := by
  have hbits : 32 ≤ w.bits := by cases w <;> decide
  rw [jsonGetU32On]
  cases jsonValue json key with
  | none => exact iff_of_true (denotes_none rfl _) fun x hx ↦ absurd hx (by simp)
  | some s =>
    rw [Option.bind_some, Option.bind_some, strtoul_eq]
    cases readInteger s with
    | none => exact iff_of_true (denotes_none rfl _) fun x hx ↦ absurd hx (by simp)
    | some x =>
      rw [Option.map_some, Option.map_some, Option.map_some, UInt32.toNat_ofNat',
        denotes_some_iff (Nat.mod_lt _ (Nat.two_pow_pos _)), saturated_mod_eq_iff hbits]
      simp

/-- A scalar of the configuration and a number of a request are stored as what they denote, or
rejected, exactly when the integer is one of the target's type; `parse_u32` also rejects what is out
of range where `unsigned long` is wider than its result, unless it has come around. -/
theorem accepted_denotes_iff (w : WordSize) (s json : CStr) (key : String) :
    (Denotes 32 (readInteger s) ((parseU32On w s).map UInt32.toNat) ↔
      ∀ z, readInteger s = some (z, []) → U32Safe w z) ∧
    (Denotes w.bits (readInteger s) (parseSizeOn w s) ↔
      ∀ z, readInteger s = some (z, []) → 0 ≤ z ∧ z < 2 ^ w.bits) ∧
    (Denotes 32 ((jsonValue json key).bind readInteger)
        ((jsonGetU32On w json key).map UInt32.toNat) ↔
      ∀ x, (jsonValue json key).bind readInteger = some x → 0 ≤ x.1 ∧ x.1 < 2 ^ 32) :=
  ⟨denotes_parseU32_iff w s, denotes_parseSize_iff w s, denotes_jsonGetU32_iff w json key⟩

theorem not_denotes {bits : ℕ} {read : Option (ℤ × CStr)} {stored : Option ℕ} (x : ℤ × CStr)
    (hread : read = some x) (hout : x.1 < 0 ∨ 2 ^ bits ≤ x.1) (hstored : stored ≠ none) :
    ¬ Denotes bits read stored :=
  fun h ↦ hstored (h.rejects x hread hout)

/-- A negative number is the largest one on the target with 32 bits, a small one as far below zero
as 64 bits reach on the other, and a large size on both; the number in a request is cut. -/
theorem accepted_negative :
    (¬ Denotes 32 (readInteger (ascii "-1")) ((parseU32On .w32 (ascii "-1")).map UInt32.toNat) ∧
      ¬ Denotes 32 (readInteger (ascii "-18446744073709551615"))
        ((parseU32On .w64 (ascii "-18446744073709551615")).map UInt32.toNat)) ∧
    ∀ w, ¬ Denotes w.bits (readInteger (ascii "-1")) (parseSizeOn w (ascii "-1")) ∧
      ¬ Denotes 32 ((jsonValue (ascii "\"max\":4294967297") "max").bind readInteger)
        ((jsonGetU32On w (ascii "\"max\":4294967297") "max").map UInt32.toNat) := by
  refine ⟨⟨not_denotes (-1, []) (by decide) (Or.inl (by decide)) (by decide),
    not_denotes (-18446744073709551615, []) (by decide) (Or.inl (by decide)) (by decide)⟩,
    fun w ↦ ⟨not_denotes (-1, []) (by decide) (Or.inl (by decide)) ?_,
      not_denotes (4294967297, []) (by decide) (Or.inr (by decide)) ?_⟩⟩
  · cases w <;> decide
  · cases w <;> decide

end NetForensics

import NetForensics.Util.Text

/-!
# UTF-8

Whether a string of bytes is the encoding of a string of characters. An ASCII byte is never part of
a longer character, so it splits a text into two that can be judged apart
(`validUtf8_append_cons_iff`).
-/

namespace NetForensics

/-- The bytes are the UTF-8 encoding of some characters. -/
def ValidUtf8 (s : CStr) : Prop := ∃ cs : List Char, cs.flatMap String.utf8EncodeChar = s

/-- Only ASCII characters have ASCII bytes in their encoding. -/
theorem utf8EncodeChar_cases (c : Char) :
    (∃ b, String.utf8EncodeChar c = [b] ∧ b < 128) ∨
      ∀ b ∈ String.utf8EncodeChar c, 128 ≤ b := by
  have hhigh : ∀ n m : ℕ, 128 ≤ m → m + n < 256 → (128 : UInt8) ≤ UInt8.ofNat (n + m) := by
    intro n m hm hlt
    rw [UInt8.le_iff_toNat_le, UInt8.toNat_ofNat', Nat.mod_eq_of_lt (by omega)]
    exact hm.trans (Nat.le_add_left m n)
  rw [String.utf8EncodeChar]
  split
  · refine Or.inl ⟨_, rfl, ?_⟩
    rw [UInt8.lt_iff_toNat_lt, UInt8.toNat_ofNat', Nat.mod_eq_of_lt (by omega)]
    exact Nat.lt_succ_of_le ‹_›
  · refine Or.inr fun b hb ↦ ?_
    split at hb
    · simp only [List.mem_cons, List.not_mem_nil, or_false] at hb
      rcases hb with rfl | rfl <;> exact hhigh _ _ (by omega) (by omega)
    · split at hb
      · simp only [List.mem_cons, List.not_mem_nil, or_false] at hb
        rcases hb with rfl | rfl | rfl <;> exact hhigh _ _ (by omega) (by omega)
      · simp only [List.mem_cons, List.not_mem_nil, or_false] at hb
        rcases hb with rfl | rfl | rfl | rfl <;> exact hhigh _ _ (by omega) (by omega)

theorem validUtf8_nil : ValidUtf8 [] := ⟨[], rfl⟩

theorem ValidUtf8.append {s t : CStr} (hs : ValidUtf8 s) (ht : ValidUtf8 t) :
    ValidUtf8 (s ++ t) := by
  obtain ⟨cs, rfl⟩ := hs
  obtain ⟨ds, rfl⟩ := ht
  exact ⟨cs ++ ds, List.flatMap_append⟩

theorem validUtf8_singleton {b : UInt8} (h : b < 128) : ValidUtf8 [b] := by
  have hb : b.toNat < 128 := h
  have hval : (Char.ofNat b.toNat).val.toNat = b.toNat := by
    rw [Char.ofNat, dif_pos (Or.inl (by omega))]
    rfl
  refine ⟨[Char.ofNat b.toNat], ?_⟩
  rw [List.flatMap_singleton, String.utf8EncodeChar, hval, if_pos (by omega), UInt8.ofNat_toNat]

theorem validUtf8_of_ascii {s : CStr} (h : ∀ b ∈ s, b < 128) : ValidUtf8 s := by
  induction s with
  | nil => exact validUtf8_nil
  | cons b s ih =>
    exact (validUtf8_singleton (h b List.mem_cons_self)).append
      (ih fun c hc ↦ h c (List.mem_cons_of_mem b hc))

/-- An ASCII byte splits a text. -/
theorem validUtf8_append_cons_iff {b : UInt8} (hb : b < 128) (s t : CStr) :
    ValidUtf8 (s ++ b :: t) ↔ ValidUtf8 s ∧ ValidUtf8 t := by
  constructor
  · rintro ⟨cs, hcs⟩
    induction cs generalizing s with
    | nil => exact absurd hcs.symm (by simp)
    | cons c cs ih =>
      rw [List.flatMap_cons, List.append_eq_append_iff] at hcs
      have hsplit : (∃ r, s = String.utf8EncodeChar c ++ r ∧
            cs.flatMap String.utf8EncodeChar = r ++ b :: t) ∨
          (s = [] ∧ cs.flatMap String.utf8EncodeChar = t) := by
        rcases hcs with ⟨r, hs, ht⟩ | ⟨r, hc, ht⟩
        · exact Or.inl ⟨r, hs, ht⟩
        · cases r with
          | nil =>
            rw [List.append_nil] at hc
            exact Or.inl ⟨[], by rw [hc, List.append_nil], ht.symm⟩
          | cons d r =>
            obtain ⟨rfl, ht'⟩ := List.cons.inj ht
            -- the byte is part of the character, so it is all of it
            rcases utf8EncodeChar_cases c with ⟨e, he, -⟩ | hall
            · have hlen := congrArg List.length (he.symm.trans hc)
              simp only [List.length_append, List.length_cons, List.length_nil] at hlen
              obtain rfl : s = [] := List.length_eq_zero_iff.mp (by omega)
              obtain rfl : r = [] := List.length_eq_zero_iff.mp (by omega)
              exact Or.inr ⟨rfl, ht'.symm⟩
            · have hmem : b ∈ String.utf8EncodeChar c := by
                rw [hc]
                exact List.mem_append_right s List.mem_cons_self
              exact absurd hb (UInt8.not_lt.mpr (hall b hmem))
      rcases hsplit with ⟨r, rfl, hrest⟩ | ⟨rfl, ht⟩
      · obtain ⟨hr, ht⟩ := ih r hrest
        have hc : ValidUtf8 (String.utf8EncodeChar c) := ⟨[c], List.flatMap_singleton _ _⟩
        exact ⟨hc.append hr, ht⟩
      · exact ⟨validUtf8_nil, cs, ht⟩
  · rintro ⟨hs, ht⟩
    exact hs.append ((validUtf8_singleton hb).append ht)

end NetForensics

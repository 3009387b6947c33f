import Mathlib.Data.Fintype.Fin
import Mathlib.Tactic

/-!
# The most recent insertions in a circular array

A circular array of `n` slots is written at a position that moves on by one and wraps around. What
it then holds is the end of the history of insertions: the last `n` of them, each in the slot given
by its number modulo `n`. `HoldsRecent` says so, and its rules are the ones a client needs: what is
found in the slots, what one more insertion does, how many slots are in use, and that no element is
there twice if none was inserted while it was there.
-/

namespace NetForensics

variable {α : Type*} {n : ℕ}

/-- The last `n` elements of a history. -/
def recent (n : ℕ) (hist : List α) : List α := hist.drop (hist.length - n)

/-- The slots hold the last `n` elements of the history, and `next` is where the next one goes. -/
structure HoldsRecent (slots : Fin n → Option α) (next : ℕ) (hist : List α) : Prop where
  next_eq : next = hist.length % n
  filled : ∀ j < hist.length, hist.length ≤ j + n → ∀ i : Fin n, i.val = j % n →
    slots i = hist[j]?
  empty : ∀ i : Fin n, hist.length ≤ i.val → slots i = none

theorem holdsRecent_nil : HoldsRecent (fun _ : Fin n ↦ (none : Option α)) 0 [] where
  next_eq := (Nat.zero_mod n).symm
  filled := fun _ hj ↦ absurd hj (Nat.not_lt_zero _)
  empty := fun _ _ ↦ rfl

/-- Every slot below the length of the history belongs to one of the last `n` insertions. -/
theorem exists_number (i : Fin n) {len : ℕ} (hi : i.val < len) :
    ∃ j < len, len ≤ j + n ∧ i.val = j % n := by
  have hdiv := Nat.div_add_mod (len - 1 - i.val) n
  have hmod := Nat.mod_lt (len - 1 - i.val) (Nat.zero_lt_of_lt i.isLt)
  refine ⟨i.val + n * ((len - 1 - i.val) / n), by omega, by omega, ?_⟩
  rw [Nat.add_mul_mod_self_left, Nat.mod_eq_of_lt i.isLt]

theorem mem_recent_iff (hist : List α) (x : α) :
    x ∈ recent n hist ↔ ∃ j < hist.length, hist.length ≤ j + n ∧ hist[j]? = some x := by
  rw [recent, List.mem_iff_getElem?]
  constructor
  · rintro ⟨k, hk⟩
    rw [List.getElem?_drop] at hk
    have hlt := (List.getElem?_eq_some_iff.mp hk).1
    exact ⟨hist.length - n + k, hlt, by omega, hk⟩
  · rintro ⟨j, hlt, hle, hj⟩
    refine ⟨j - (hist.length - n), ?_⟩
    rw [List.getElem?_drop]
    have hsum : hist.length - n + (j - (hist.length - n)) = j := by omega
    rw [hsum]
    exact hj

namespace HoldsRecent

variable {slots : Fin n → Option α} {next : ℕ} {hist : List α}

/-- What is found in a slot is one of the last `n` insertions, at the number of that slot. -/
theorem number_of_slot (h : HoldsRecent slots next hist) {i : Fin n} {x : α}
    (hx : slots i = some x) :
    ∃ j < hist.length, hist.length ≤ j + n ∧ i.val = j % n ∧ hist[j]? = some x := by
  have hi : i.val < hist.length := by
    by_contra hle
    rw [h.empty i (Nat.le_of_not_lt hle)] at hx
    exact nomatch hx
  obtain ⟨j, hlt, hle, hmod⟩ := exists_number i hi
  exact ⟨j, hlt, hle, hmod, (h.filled j hlt hle i hmod).symm.trans hx⟩

theorem exists_slot_iff (h : HoldsRecent slots next hist) (hn : 0 < n) (x : α) :
    (∃ i, slots i = some x) ↔ x ∈ recent n hist := by
  rw [mem_recent_iff]
  constructor
  · rintro ⟨i, hx⟩
    obtain ⟨j, hlt, hle, -, hj⟩ := h.number_of_slot hx
    exact ⟨j, hlt, hle, hj⟩
  · rintro ⟨j, hlt, hle, hj⟩
    exact ⟨⟨j % n, Nat.mod_lt j hn⟩, (h.filled j hlt hle _ rfl).trans hj⟩

theorem insert (h : HoldsRecent slots next hist) {i : Fin n} (hi : i.val = next)
    (x : α) : HoldsRecent (Function.update slots i (some x)) ((next + 1) % n) (hist ++ [x]) where
  next_eq := by
    rw [h.next_eq, List.length_append, List.length_singleton, Nat.mod_add_mod]
  filled := by
    intro j hj hle k hk
    rw [List.length_append, List.length_singleton] at hj hle
    rw [h.next_eq] at hi
    by_cases hlast : j = hist.length
    · have hki : k = i := Fin.ext (by rw [hk, hi, hlast])
      rw [hki, Function.update_self, hlast, List.getElem?_concat_length]
    · have hlt : j < hist.length := by omega
      have hki : k ≠ i := by
        rintro rfl
        rw [hk] at hi
        -- the slot that is due was last written `n` insertions ago
        have hdvd := (Nat.modEq_iff_dvd' hlt.le).mp hi
        have hge := Nat.le_of_dvd (Nat.sub_pos_of_lt hlt) hdvd
        omega
      rw [Function.update_of_ne hki, h.filled j hlt (by omega) k hk, List.getElem?_append_left hlt]
  empty := by
    intro k hk
    rw [List.length_append, List.length_singleton] at hk
    have hki : k ≠ i := by
      rintro rfl
      rw [h.next_eq] at hi
      have hmod := Nat.mod_le hist.length n
      omega
    rw [Function.update_of_ne hki]
    exact h.empty k (by omega)

/-- A slot is in use once there have been that many insertions. -/
theorem isSome_iff (h : HoldsRecent slots next hist) (i : Fin n) :
    (slots i).isSome = true ↔ i.val < hist.length := by
  constructor
  · intro hsome
    obtain ⟨x, hx⟩ := Option.isSome_iff_exists.mp hsome
    by_contra hle
    rw [h.empty i (Nat.le_of_not_lt hle)] at hx
    exact nomatch hx
  · intro hi
    obtain ⟨j, hlt, hle, hmod⟩ := exists_number i hi
    rw [h.filled j hlt hle i hmod, List.getElem?_eq_getElem hlt]
    rfl

theorem card_used (h : HoldsRecent slots next hist) :
    (Finset.univ.filter fun i ↦ (slots i).isSome = true).card = min n hist.length := by
  have hset : (Finset.univ.filter fun i ↦ (slots i).isSome = true)
      = Finset.univ.filter fun i : Fin n ↦ i.val < hist.length :=
    Finset.filter_congr fun i _ ↦ h.isSome_iff i
  rw [hset, Fin.card_filter_val_lt]

/-- Slots that hold the same element are the same slot, as long as the window has no duplicates. -/
theorem slot_inj (h : HoldsRecent slots next hist) (hnodup : (recent n hist).Nodup) {i k : Fin n}
    {x : α} (hi : slots i = some x) (hk : slots k = some x) : i = k := by
  obtain ⟨j, hlt, hle, hmod, hj⟩ := h.number_of_slot hi
  obtain ⟨l, hlt', hle', hmod', hl⟩ := h.number_of_slot hk
  have hnumber : j - (hist.length - n) = l - (hist.length - n) := by
    have hbound : j - (hist.length - n) < (recent n hist).length := by
      rw [recent, List.length_drop]
      omega
    refine (List.getElem?_inj hbound hnodup).mp ?_
    have hsum : hist.length - n + (j - (hist.length - n)) = j := by omega
    have hsum' : hist.length - n + (l - (hist.length - n)) = l := by omega
    rw [recent, List.getElem?_drop, List.getElem?_drop, hsum, hsum', hj, hl]
  have hjl : j = l := by omega
  exact Fin.ext (hmod.trans (hjl ▸ hmod'.symm))

end HoldsRecent

/-- Inserting only what is not there keeps the window free of duplicates. -/
theorem nodup_recent_append {hist : List α} (hnodup : (recent n hist).Nodup) {x : α}
    (hx : x ∉ recent n hist) : (recent n (hist ++ [x])).Nodup := by
  have happend : (recent n hist ++ [x]).Nodup :=
    List.nodup_append.mpr ⟨hnodup, List.nodup_singleton x, by
      rintro a ha b hb rfl
      exact hx (List.mem_singleton.mp hb ▸ ha)⟩
  refine happend.sublist ?_
  have hall : recent n hist ++ [x] = (hist ++ [x]).drop (hist.length - n) := by
    rw [recent, List.drop_append_of_le_length (Nat.sub_le _ _)]
  rw [hall, recent, List.length_append, List.length_singleton]
  exact List.drop_sublist_drop_left _ (by omega)

end NetForensics

import Mathlib.Tactic

/-!
# Bounded tables of keyed counters

A table holds at most `limit` records, at most one for a key. Touching a key changes its record,
creating it first where there is none: at the end while there is room, and otherwise in the place
of the record with the lowest weight.

`touched_index` is the inversion lemma everything else is derived from. While the keys fit, nothing
is ever replaced, and the table is the group-by of the touches.
-/

namespace NetForensics

namespace CountTable

variable {α κ ν : Type*}

section Lookup

variable [DecidableEq κ] [LT ν] [DecidableLT ν]

/-- The loop of `lowest`: `cur` is the best record so far, at position `best`. -/
def lowestFrom (weight : α → ν) : List α → α → ℕ → ℕ → ℕ
  | [], _, best, _ => best
  | a :: l, cur, best, i =>
    if weight a < weight cur then lowestFrom weight l a i (i + 1)
    else lowestFrom weight l cur best (i + 1)

/-- The position of the first record of lowest weight. -/
def lowest (weight : α → ν) : List α → ℕ
  | [] => 0
  | a :: l => lowestFrom weight l a 0 1

/-- The table with a record for `k`, and the position of that record. -/
def index (key : α → κ) (weight : α → ν) (fresh : κ → α) (limit : ℕ) (tbl : List α) (k : κ) :
    List α × ℕ :=
  match tbl.findIdx? fun a ↦ key a = k with
  | some i => (tbl, i)
  | none =>
    if tbl.length < limit then (tbl ++ [fresh k], tbl.length)
    else (tbl.set (lowest weight tbl) (fresh k), lowest weight tbl)

private theorem lowestFrom_lt (weight : α → ν) (l : List α) (cur : α) {best i : ℕ}
    (h : best < i) : lowestFrom weight l cur best i < i + l.length := by
  induction l generalizing cur best i with
  | nil => simpa [lowestFrom] using h
  | cons a l ih =>
    rw [lowestFrom, List.length_cons]
    split
    · have := ih a (show i < i + 1 by omega)
      omega
    · have := ih cur (show best < i + 1 by omega)
      omega

theorem lowest_lt (weight : α → ν) {l : List α} (h : l ≠ []) : lowest weight l < l.length := by
  cases l with
  | nil => exact absurd rfl h
  | cons a l =>
    have := lowestFrom_lt weight l a (Nat.zero_lt_one)
    rw [lowest, List.length_cons]
    omega

end Lookup

/-- The three things touching a key can do: the table afterwards, and the record of the key. -/
inductive Touched (key : α → κ) (fresh : κ → α) (limit : ℕ) (tbl : List α) (k : κ) (f : α → α) :
    List α → α → Prop
  | hit (l : List α) (a : α) (r : List α) (split : tbl = l ++ a :: r) (key_eq : key a = k) :
      Touched key fresh limit tbl k f (l ++ f a :: r) (f a)
  | append (absent : k ∉ tbl.map key) (room : tbl.length < limit) :
      Touched key fresh limit tbl k f (tbl ++ [f (fresh k)]) (f (fresh k))
  | replace (l : List α) (a : α) (r : List α) (split : tbl = l ++ a :: r)
      (absent : k ∉ tbl.map key) (full : limit ≤ tbl.length) :
      Touched key fresh limit tbl k f (l ++ f (fresh k) :: r) (f (fresh k))

private theorem split_at (tbl : List α) {i : ℕ} (hi : i < tbl.length) :
    ∃ l a r, tbl = l ++ a :: r ∧ l.length = i := by
  refine ⟨tbl.take i, tbl[i], tbl.drop (i + 1), ?_, List.length_take_of_le hi.le⟩
  rw [List.getElem_cons_drop, List.take_append_drop]

private theorem modify_split (l : List α) (a : α) (r : List α) (f : α → α) :
    (l ++ a :: r).modify l.length f = l ++ f a :: r := by
  rw [List.modify_eq_take_cons_drop (by simp)]
  simp

private theorem getElem?_split (l : List α) (a : α) (r : List α) :
    (l ++ a :: r)[l.length]? = some a := by
  simp

theorem touched_index [DecidableEq κ] [LT ν] [DecidableLT ν] (key : α → κ) (weight : α → ν)
    (fresh : κ → α) {limit : ℕ} (hlimit : 0 < limit) (tbl : List α) (k : κ) (f : α → α)
    {t : List α} {i : ℕ} (h : index key weight fresh limit tbl k = (t, i)) :
    ∃ a, (t.modify i f)[i]? = some a ∧
      Touched key fresh limit tbl k f (t.modify i f) a := by
  rw [index] at h
  cases hfind : tbl.findIdx? fun a ↦ key a = k with
  | some j =>
    rw [hfind] at h
    obtain ⟨rfl, rfl⟩ := Prod.mk.inj h
    obtain ⟨hj, hkey, -⟩ := List.findIdx?_eq_some_iff_getElem.mp hfind
    obtain ⟨l, a, r, hsplit, hlen⟩ := split_at tbl hj
    subst hlen
    have hka : key a = k := by
      have hget : tbl[l.length] = a := by simp [hsplit]
      rw [← hget]
      exact of_decide_eq_true hkey
    rw [hsplit, modify_split, getElem?_split]
    exact ⟨f a, rfl, Touched.hit l a r rfl hka⟩
  | none =>
    -- the key is not there: it is appended, or takes the place of the lowest record
    have habsent : k ∉ tbl.map key := by
      intro hmem
      obtain ⟨a, ha, hka⟩ := List.mem_map.mp hmem
      exact absurd hka (of_decide_eq_false (List.findIdx?_eq_none_iff.mp hfind a ha))
    rw [hfind] at h
    dsimp only at h
    split at h
    · rename_i hroom
      obtain ⟨rfl, rfl⟩ := Prod.mk.inj h
      rw [modify_split, getElem?_split]
      exact ⟨_, rfl, Touched.append habsent hroom⟩
    · rename_i hfull
      have hne : tbl ≠ [] := by
        rintro rfl
        exact hfull hlimit
      have hlow := lowest_lt weight hne
      obtain ⟨rfl, rfl⟩ := Prod.mk.inj h
      obtain ⟨l, a, r, hsplit, hlen⟩ := split_at tbl hlow
      rw [← hlen]
      have hset : tbl.set l.length (fresh k) = l ++ fresh k :: r := by
        rw [hsplit]
        simp
      rw [hset, modify_split, getElem?_split]
      exact ⟨_, rfl, Touched.replace l a r hsplit habsent (Nat.le_of_not_lt hfull)⟩

/-! ## What a touch preserves -/

section Preservation

variable {key : α → κ} {fresh : κ → α} {limit : ℕ} {tbl tbl' : List α} {k : κ} {f : α → α} {b : α}

theorem Touched.length_le (h : Touched key fresh limit tbl k f tbl' b)
    (hlen : tbl.length ≤ limit) : tbl'.length ≤ limit := by
  cases h with
  | hit l a r hsplit _ => simpa [hsplit] using hlen
  | append _ hroom => simpa using hroom
  | replace l a r hsplit _ _ => simpa [hsplit] using hlen

/-- Keys stay pairwise distinct, also when a record is replaced. -/
theorem Touched.nodup (h : Touched key fresh limit tbl k f tbl' b) (hfresh : key (fresh k) = k)
    (hf : ∀ a, key (f a) = key a) (hnd : (tbl.map key).Nodup) : (tbl'.map key).Nodup := by
  cases h with
  | hit l a r hsplit _ =>
    rw [hsplit] at hnd
    simpa [hf] using hnd
  | append habsent _ =>
    rw [List.map_append, List.nodup_append]
    refine ⟨hnd, List.nodup_singleton _, ?_⟩
    intro x hx y hy hxy
    rw [List.map_singleton, List.mem_singleton, hf, hfresh] at hy
    exact habsent (hy ▸ hxy ▸ hx)
  | replace l a r hsplit habsent _ =>
    -- the key of the replaced record is free again, and `k` was not in use
    have hfk : key (f (fresh k)) = k := by rw [hf, hfresh]
    rw [hsplit, List.map_append, List.map_cons, List.nodup_middle, List.nodup_cons] at hnd
    rw [List.map_append, List.map_cons, List.nodup_middle, List.nodup_cons, hfk]
    refine ⟨fun hmem ↦ habsent ?_, hnd.2⟩
    rw [hsplit, List.map_append, List.map_cons]
    rcases List.mem_append.mp hmem with h | h
    · exact List.mem_append_left _ h
    · exact List.mem_append_right _ (List.mem_cons_of_mem _ h)

/-- A property of every record survives when `f` keeps it and establishes it on a fresh record. -/
theorem Touched.forall_mem (h : Touched key fresh limit tbl k f tbl' b) {P : α → Prop}
    (hall : ∀ a ∈ tbl, P a) (hkeep : ∀ a ∈ tbl, P a → P (f a)) (hnew : P (f (fresh k))) :
    ∀ a ∈ tbl', P a := by
  intro c hc
  cases h with
  | hit l a r hsplit _ =>
    have hmem : a ∈ tbl := by rw [hsplit]; exact List.mem_append_right _ List.mem_cons_self
    rcases List.mem_append.mp hc with h | h
    · exact hall c (by rw [hsplit]; exact List.mem_append_left _ h)
    · rcases List.mem_cons.mp h with rfl | h
      · exact hkeep a hmem (hall a hmem)
      · exact hall c (by rw [hsplit]; exact List.mem_append_right _ (List.mem_cons_of_mem _ h))
  | append _ _ =>
    rcases List.mem_append.mp hc with h | h
    · exact hall c h
    · rw [List.mem_singleton.mp h]
      exact hnew
  | replace l a r hsplit _ _ =>
    rcases List.mem_append.mp hc with h | h
    · exact hall c (by rw [hsplit]; exact List.mem_append_left _ h)
    · rcases List.mem_cons.mp h with rfl | h
      · exact hnew
      · exact hall c (by rw [hsplit]; exact List.mem_append_right _ (List.mem_cons_of_mem _ h))

/-- A total grows by at most what one touch adds; replaced records only lower it. -/
theorem Touched.sum_le (h : Touched key fresh limit tbl k f tbl' b) {w : α → ℕ} {d : ℕ}
    (hkeep : ∀ a ∈ tbl, w (f a) ≤ w a + d) (hnew : w (f (fresh k)) ≤ d) :
    (tbl'.map w).sum ≤ (tbl.map w).sum + d := by
  cases h with
  | hit l a r hsplit _ =>
    have := hkeep a (by rw [hsplit]; exact List.mem_append_right _ List.mem_cons_self)
    simp only [hsplit, List.map_append, List.map_cons, List.sum_append, List.sum_cons]
    omega
  | append _ _ =>
    simp only [List.map_append, List.map_singleton, List.sum_append, List.sum_singleton]
    omega
  | replace l a r hsplit _ _ =>
    simp only [hsplit, List.map_append, List.map_cons, List.sum_append, List.sum_cons]
    omega

end Preservation

end CountTable

end NetForensics

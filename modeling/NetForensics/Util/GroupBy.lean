import NetForensics.Util.CountTable

/-!
# Group-by and roll-up

While its keys fit, a bounded table of counters never replaces a record: every touch finds its key
or appends it (`Grown`). Then the table is the group-by of its touches (`Groups`): over any set of
keys, the records sum to the touches. A second, coarser table that is touched along with the first
rolls it up (`Rollup`): each of its records is the sum of the finer records below it, and counts
them.
-/

namespace NetForensics

namespace CountTable

variable {α κ M : Type*}

/-- The two ways of touching a key without replacing a record. -/
inductive Grown (key : α → κ) (fresh : κ → α) (tbl : List α) (k : κ) (f : α → α) :
    List α → α → Prop
  | hit (l : List α) (a : α) (r : List α) (split : tbl = l ++ a :: r) (key_eq : key a = k) :
      Grown key fresh tbl k f (l ++ f a :: r) (f a)
  | append (absent : k ∉ tbl.map key) :
      Grown key fresh tbl k f (tbl ++ [f (fresh k)]) (f (fresh k))

/-- With room for a key that is not there, nothing is replaced. -/
theorem Touched.grown {key : α → κ} {fresh : κ → α} {limit : ℕ} {tbl tbl' : List α} {k : κ}
    {f : α → α} {b : α} (h : Touched key fresh limit tbl k f tbl' b)
    (hroom : k ∉ tbl.map key → tbl.length < limit) : Grown key fresh tbl k f tbl' b := by
  cases h with
  | hit l a r hsplit hka => exact Grown.hit l a r hsplit hka
  | append habsent _ => exact Grown.append habsent
  | replace l a r hsplit habsent hfull => exact absurd (hroom habsent) (Nat.not_lt.mpr hfull)

/-- Distinct keys drawn from a list leave room for one more of the list. -/
theorem length_lt_of_dedup [DecidableEq κ] {keys all : List κ} {k : κ} {limit : ℕ}
    (hnd : keys.Nodup) (hsub : keys ⊆ all) (hk : k ∉ keys) (hmem : k ∈ all)
    (hcard : all.dedup.length ≤ limit) : keys.length < limit := by
  have hnd' : (k :: keys).Nodup := List.nodup_cons.mpr ⟨hk, hnd⟩
  have hsub' : k :: keys ⊆ all.dedup := by
    intro j hj
    rw [List.mem_dedup]
    rcases List.mem_cons.mp hj with rfl | hj
    · exact hmem
    · exact hsub hj
  exact lt_of_lt_of_le (Nat.lt_succ_self _) ((hnd'.subperm hsub').length_le.trans hcard)

/-! ## Sums over the keys -/

section Sums

variable [AddCommMonoid M]

/-- The sum of the records whose key satisfies `P`. -/
def sumOn (key : α → κ) (val : α → M) (P : κ → Bool) (tbl : List α) : M :=
  ((tbl.filter fun a ↦ P (key a)).map val).sum

theorem sumOn_append (key : α → κ) (val : α → M) (P : κ → Bool) (l r : List α) :
    sumOn key val P (l ++ r) = sumOn key val P l + sumOn key val P r := by
  rw [sumOn, List.filter_append, List.map_append, List.sum_append]
  rfl

theorem sumOn_cons (key : α → κ) (val : α → M) (P : κ → Bool) (a : α) (r : List α) :
    sumOn key val P (a :: r) = (if P (key a) then val a else 0) + sumOn key val P r := by
  rw [sumOn, List.filter_cons]
  split
  · rw [List.map_cons, List.sum_cons]
    rfl
  · rw [zero_add]
    rfl

theorem sumOn_nil (key : α → κ) (val : α → M) (P : κ → Bool) : sumOn key val P [] = 0 := rfl

theorem sumOn_eq_zero {key : α → κ} {val : α → M} {P : κ → Bool} {tbl : List α}
    (h : ∀ a ∈ tbl, P (key a) = false) : sumOn key val P tbl = 0 := by
  rw [sumOn, List.filter_eq_nil_iff.mpr fun a ha ↦ by simp [h a ha]]
  rfl

theorem sumOn_key [DecidableEq κ] {key : α → κ} {val : α → M} {tbl : List α}
    (hnd : (tbl.map key).Nodup) {a : α} (ha : a ∈ tbl) :
    sumOn key val (fun k ↦ decide (k = key a)) tbl = val a := by
  obtain ⟨l, r, rfl⟩ := List.append_of_mem ha
  rw [List.map_append, List.map_cons, List.nodup_middle, List.nodup_cons] at hnd
  have hout : ∀ b, b ∈ l ∨ b ∈ r → decide (key b = key a) = false := by
    intro b hb
    refine decide_eq_false fun hkey ↦ hnd.1 ?_
    rw [← hkey, List.mem_append]
    exact hb.imp (List.mem_map_of_mem) (List.mem_map_of_mem)
  rw [sumOn_append, sumOn_cons, sumOn_eq_zero fun b hb ↦ hout b (Or.inl hb),
    sumOn_eq_zero fun b hb ↦ hout b (Or.inr hb), if_pos (decide_eq_true rfl), zero_add, add_zero]

theorem sumOn_fst (key : α → κ) (val : α → M) (P : κ → Bool) (tbl : List α) :
    (sumOn key (fun a ↦ (val a, 1)) P tbl : M × ℕ).1 = sumOn key val P tbl := by
  induction tbl with
  | nil => rfl
  | cons a r ih =>
    rw [sumOn_cons, sumOn_cons, Prod.fst_add, ih]
    split <;> rfl

theorem sumOn_snd (key : α → κ) (val : α → M) (P : κ → Bool) (tbl : List α) :
    (sumOn key (fun a ↦ (val a, 1)) P tbl : M × ℕ).2 = (tbl.filter fun a ↦ P (key a)).length := by
  induction tbl with
  | nil => rfl
  | cons a r ih =>
    rw [sumOn_cons, Prod.snd_add, ih, List.filter_cons]
    split
    · rw [List.length_cons, Nat.add_comm]
    · exact Nat.zero_add _

end Sums

/-! ## What growth does -/

section Growth

variable {key : α → κ} {fresh : κ → α} {tbl tbl' : List α} {k : κ} {f : α → α} {b : α}

theorem Grown.mem_keys (h : Grown key fresh tbl k f tbl' b) (hfresh : key (fresh k) = k)
    (hf : ∀ a, key (f a) = key a) (j : κ) : j ∈ tbl'.map key ↔ j ∈ tbl.map key ∨ j = k := by
  cases h with
  | hit l a r hsplit hka =>
    rw [hsplit, List.map_append, List.map_cons, List.map_append, List.map_cons, hf, hka]
    constructor
    · exact Or.inl
    · rintro (hj | rfl)
      · exact hj
      · exact List.mem_append_right _ List.mem_cons_self
  | append habsent =>
    rw [List.map_append, List.map_singleton, hf, hfresh, List.mem_append, List.mem_singleton]

theorem Grown.touched (h : Grown key fresh tbl k f tbl' b) :
    Touched key fresh (tbl.length + 1) tbl k f tbl' b := by
  cases h with
  | hit l a r hsplit hka => exact Touched.hit l a r hsplit hka
  | append habsent => exact Touched.append habsent (Nat.lt_succ_self _)

/-- Over any set of keys, a touch adds its weight if it is in the set. -/
theorem Grown.sumOn_eq [AddCommMonoid M] (h : Grown key fresh tbl k f tbl' b)
    (hfresh : key (fresh k) = k) (hf : ∀ a, key (f a) = key a) {val : α → M} {d : M}
    (hhit : ∀ a ∈ tbl, key a = k → val (f a) = val a + d)
    (hnew : k ∉ tbl.map key → val (f (fresh k)) = d) (P : κ → Bool) :
    sumOn key val P tbl' = sumOn key val P tbl + if P k then d else 0 := by
  cases h with
  | hit l a r hsplit hka =>
    have hval := hhit a (by rw [hsplit]; exact List.mem_append_right _ List.mem_cons_self) hka
    rw [hsplit, sumOn_append, sumOn_append, sumOn_cons, sumOn_cons, hf, hka, hval]
    cases P k with
    | false => simp
    | true =>
      simp only [if_true]
      abel
  | append habsent =>
    rw [sumOn_append, sumOn_cons, sumOn_nil, add_zero, hf, hfresh, hnew habsent]

end Growth

/-! ## Group-by -/

/-- The table is the group-by of the touches: a record for each key, and over any set of keys the
same sum. -/
structure Groups [AddCommMonoid M] (key : α → κ) (val : α → M) (ts : List (κ × M))
    (tbl : List α) : Prop where
  nodup : (tbl.map key).Nodup
  mem_iff : ∀ k, k ∈ tbl.map key ↔ k ∈ ts.map Prod.fst
  sum_eq : ∀ P : κ → Bool, sumOn key val P tbl = ((ts.filter fun t ↦ P t.1).map Prod.snd).sum

section GroupBy

variable [AddCommMonoid M] {key : α → κ} {val : α → M} {fresh : κ → α} {tbl tbl' : List α}
  {ts : List (κ × M)} {k : κ} {f : α → α} {b : α} {d : M}

theorem groups_nil (key : α → κ) (val : α → M) : Groups key val [] [] where
  nodup := List.nodup_nil
  mem_iff _ := Iff.rfl
  sum_eq _ := rfl

theorem Groups.grown (h : Groups key val ts tbl) (hg : Grown key fresh tbl k f tbl' b)
    (hfresh : key (fresh k) = k) (hf : ∀ a, key (f a) = key a)
    (hhit : ∀ a ∈ tbl, key a = k → val (f a) = val a + d)
    (hnew : k ∉ tbl.map key → val (f (fresh k)) = d) :
    Groups key val (ts ++ [(k, d)]) tbl' where
  nodup := hg.touched.nodup hfresh hf h.nodup
  mem_iff j := by
    rw [hg.mem_keys hfresh hf, h.mem_iff, List.map_append, List.mem_append, List.map_singleton,
      List.mem_singleton]
  sum_eq P := by
    rw [hg.sumOn_eq hfresh hf hhit hnew, h.sum_eq, List.filter_append, List.map_append,
      List.sum_append, List.filter_singleton]
    cases P k <;> simp

theorem Groups.val_eq [DecidableEq κ] (h : Groups key val ts tbl) {a : α} (ha : a ∈ tbl) :
    val a = ((ts.filter fun t ↦ decide (t.1 = key a)).map Prod.snd).sum := by
  rw [← h.sum_eq fun k ↦ decide (k = key a)]
  exact (sumOn_key h.nodup ha).symm

end GroupBy

/-! ## Roll-up -/

section RollUp

variable {γ κ' : Type*} [DecidableEq κ'] [AddCommMonoid M]

/-- The coarse table rolls the fine one up along `roll`: it has a record for each group that has a
fine record in it, and that record is their sum and their number. -/
structure Rollup (roll : κ → Option κ') (key : α → κ) (val : α → M) (ckey : γ → κ')
    (cval : γ → M × ℕ) (tbl : List α) (ctbl : List γ) : Prop where
  nodup : (ctbl.map ckey).Nodup
  mem_iff : ∀ t, t ∈ ctbl.map ckey ↔ ∃ k ∈ tbl.map key, roll k = some t
  val_eq : ∀ c ∈ ctbl, cval c
    = sumOn key (fun a ↦ (val a, 1)) (fun k ↦ decide (roll k = some (ckey c))) tbl

variable {roll : κ → Option κ'} {key : α → κ} {val : α → M} {ckey : γ → κ'}
  {cval : γ → M × ℕ} {fresh : κ → α} {cfresh : κ' → γ} {tbl tbl' : List α} {ctbl ctbl' : List γ}
  {k : κ} {t : κ'} {f : α → α} {g : γ → γ} {b : α} {c : γ} {d : M} {n : ℕ}

theorem rollup_nil (roll : κ → Option κ') (key : α → κ) (val : α → M) (ckey : γ → κ')
    (cval : γ → M × ℕ) : Rollup roll key val ckey cval [] [] where
  nodup := List.nodup_nil
  mem_iff t := by simp
  val_eq c hc := absurd hc List.not_mem_nil

theorem Rollup.grown_none (h : Rollup roll key val ckey cval tbl ctbl)
    (hg : Grown key fresh tbl k f tbl' b) (hfresh : key (fresh k) = k)
    (hf : ∀ a, key (f a) = key a)
    (hhit : ∀ a ∈ tbl, key a = k → (val (f a), 1) = (val a, 1) + (d, n))
    (hnew : k ∉ tbl.map key → (val (f (fresh k)), 1) = (d, n)) (hroll : roll k = none) :
    Rollup roll key val ckey cval tbl' ctbl where
  nodup := h.nodup
  mem_iff s := by
    rw [h.mem_iff]
    constructor
    · rintro ⟨j, hj, hjs⟩
      exact ⟨j, (hg.mem_keys hfresh hf j).mpr (Or.inl hj), hjs⟩
    · rintro ⟨j, hj, hjs⟩
      rcases (hg.mem_keys hfresh hf j).mp hj with hj | rfl
      · exact ⟨j, hj, hjs⟩
      · rw [hroll] at hjs
        exact absurd hjs (by simp)
  val_eq e he := by
    rw [h.val_eq e he, hg.sumOn_eq hfresh hf hhit hnew, hroll]
    simp

theorem Rollup.grown_some (h : Rollup roll key val ckey cval tbl ctbl)
    (hg : Grown key fresh tbl k f tbl' b) (hfresh : key (fresh k) = k)
    (hf : ∀ a, key (f a) = key a)
    (hhit : ∀ a ∈ tbl, key a = k → (val (f a), 1) = (val a, 1) + (d, n))
    (hnew : k ∉ tbl.map key → (val (f (fresh k)), 1) = (d, n)) (hroll : roll k = some t)
    (hcg : Grown ckey cfresh ctbl t g ctbl' c) (hcfresh : ckey (cfresh t) = t)
    (hcf : ∀ a, ckey (g a) = ckey a)
    (hchit : ∀ a ∈ ctbl, ckey a = t → cval (g a) = cval a + (d, n))
    (hcnew : t ∉ ctbl.map ckey → cval (g (cfresh t)) = (d, n)) :
    Rollup roll key val ckey cval tbl' ctbl' where
  nodup := hcg.touched.nodup hcfresh hcf h.nodup
  mem_iff s := by
    rw [hcg.mem_keys hcfresh hcf, h.mem_iff]
    constructor
    · rintro (⟨j, hj, hjs⟩ | rfl)
      · exact ⟨j, (hg.mem_keys hfresh hf j).mpr (Or.inl hj), hjs⟩
      · exact ⟨k, (hg.mem_keys hfresh hf k).mpr (Or.inr rfl), hroll⟩
    · rintro ⟨j, hj, hjs⟩
      rcases (hg.mem_keys hfresh hf j).mp hj with hj | rfl
      · exact Or.inl ⟨j, hj, hjs⟩
      · rw [hroll] at hjs
        exact Or.inr (Option.some.inj hjs).symm
  val_eq e he := by
    rw [hg.sumOn_eq hfresh hf hhit hnew, hroll]
    -- the records of other groups keep their value, and their sum does not grow
    have hother : ∀ e₀ ∈ ctbl, ckey e₀ ≠ t → cval e₀
        = sumOn key (fun a ↦ (val a, 1)) (fun k ↦ decide (roll k = some (ckey e₀))) tbl
          + if decide (some t = some (ckey e₀)) then (d, n) else 0 := by
      intro e₀ he₀ hne
      rw [if_neg (by simpa using hne.symm), add_zero]
      exact h.val_eq e₀ he₀
    cases hcg with
    | hit l e₀ r hsplit hke =>
      have hnd := h.nodup
      rw [hsplit, List.map_append, List.map_cons, List.nodup_middle, List.nodup_cons] at hnd
      have hmem : e₀ ∈ ctbl := by
        rw [hsplit]
        exact List.mem_append_right _ List.mem_cons_self
      have hdiff : ∀ e', e' ∈ l ∨ e' ∈ r → ckey e' ≠ t := by
        intro e' he' hkey
        refine hnd.1 ?_
        rw [hke, ← hkey, List.mem_append]
        exact he'.imp List.mem_map_of_mem List.mem_map_of_mem
      rcases List.mem_append.mp he with hel | her
      · exact hother e (by rw [hsplit]; exact List.mem_append_left _ hel) (hdiff e (Or.inl hel))
      rcases List.mem_cons.mp her with rfl | her
      · rw [hchit e₀ hmem hke, hcf, hke, if_pos (decide_eq_true rfl), h.val_eq e₀ hmem, hke]
      · exact hother e
          (by rw [hsplit]; exact List.mem_append_right _ (List.mem_cons_of_mem _ her))
          (hdiff e (Or.inr her))
    | append habsent =>
      rcases List.mem_append.mp he with hel | her
      · refine hother e hel fun hkey ↦ habsent ?_
        rw [← hkey]
        exact List.mem_map_of_mem hel
      · rw [List.mem_singleton.mp her, hcnew habsent, hcf, hcfresh, if_pos (decide_eq_true rfl)]
        -- a group without a record has no fine record in it
        have hempty :
            sumOn key (fun a ↦ (val a, 1)) (fun k ↦ decide (roll k = some t)) tbl = 0 := by
          refine sumOn_eq_zero fun a ha ↦ decide_eq_false fun hat ↦ habsent ?_
          exact (h.mem_iff t).mpr ⟨key a, List.mem_map_of_mem ha, hat⟩
        rw [hempty, zero_add]

end RollUp

end CountTable

end NetForensics

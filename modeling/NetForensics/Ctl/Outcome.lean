import NetForensics.Ctl.Layout

/-!
# When the table has every field

The loop over the fields stops at the bracket with which the depth comes to zero. So the table has
the fields of the whole object exactly when that does not happen inside its strings, but for the
last byte of the last member.
-/

namespace NetForensics

open Json

/-! ## Fields -/

theorem lookup_addField_self (fields : List (LuaKey × LuaValue)) (name : String) (x : LuaValue) :
    LuaValue.lookup (.name (ascii name)) (addField fields name (some x)) = x := by
  rw [LuaValue.lookup, addField, Option.map_some, Option.toList_some, List.singleton_append,
    List.find?_cons_of_pos (by simp)]
  rfl

theorem lookup_addField_of_ne {key : LuaKey} {name : String} (h : key ≠ .name (ascii name))
    (fields : List (LuaKey × LuaValue)) (val : Option LuaValue) :
    LuaValue.lookup key (addField fields name val) = LuaValue.lookup key fields := by
  cases val with
  | none => rfl
  | some x =>
    rw [LuaValue.lookup, addField, Option.map_some, Option.toList_some, List.singleton_append,
      List.find?_cons_of_neg (by simpa using fun heq ↦ h heq.symm)]
    rfl

theorem lookup_outcome {key : LuaKey} {items : List (String × Printed)}
    (h : ∀ i ∈ items, key ≠ .name (ascii i.1)) (depth : ℤ) (fields : List (LuaKey × LuaValue)) :
    LuaValue.lookup key (outcome depth fields items) = LuaValue.lookup key fields := by
  fun_induction outcome depth fields items with
  | case1 => rfl
  | case2 depth fields name s items hnone =>
    exact lookup_addField_of_ne (h _ List.mem_cons_self) fields _
  | case3 depth fields name s items d hsome ih =>
    rw [ih fun i hi ↦ h i (List.mem_cons_of_mem _ hi)]
    exact lookup_addField_of_ne (h _ List.mem_cons_self) fields _
  | case4 depth fields name text val items ih =>
    rw [ih fun i hi ↦ h i (List.mem_cons_of_mem _ hi)]
    exact lookup_addField_of_ne (h _ List.mem_cons_self) fields _

/-- The table has a field for every member that is no object, no array and not null. -/
def HasFields (fields : List (LuaKey × LuaValue)) (items : List (String × Printed)) : Prop :=
  ∀ i ∈ items, ∀ x ∈ i.2.value, LuaValue.lookup (.name (ascii i.1)) fields = x

theorem hasFields_cons {fields : List (LuaKey × LuaValue)} {i : String × Printed}
    {items : List (String × Printed)} :
    HasFields fields (i :: items) ↔
      (∀ x ∈ i.2.value, LuaValue.lookup (.name (ascii i.1)) fields = x) ∧ HasFields fields items :=
  List.forall_mem_cons

/-! ## Where the depth may come to zero -/

/-- The strings of an object in which a bracket can do harm, one after the other. -/
def exposed : List (String × Printed) → CStr
  | [] => []
  | [(_, .raw s)] => s.dropLast
  | (_, .raw s) :: items => s ++ exposed items
  | (_, .lit _ _) :: items => exposed items

/-- Every string that is not the last member has some member behind it that is to be a field. -/
def Followed : List (String × Printed) → Prop
  | [] => True
  | (_, .raw _) :: items => (items = [] ∨ ∃ i ∈ items, i.2.value.isSome) ∧ Followed items
  | (_, .lit _ _) :: items => Followed items

theorem depthAfter_dropLast_of_some {depth d : ℤ} {s : CStr} (h : depthAfter depth s = some d) :
    depthAfter depth s.dropLast ≠ none := by
  rcases List.eq_nil_or_concat s with rfl | ⟨t, b, rfl⟩
  · exact (by simp [depthAfter])
  · rw [List.concat_eq_append, depthAfter_append] at h
    obtain ⟨e, he, -⟩ := Option.bind_eq_some_iff.mp h
    rw [List.concat_eq_append, List.dropLast_concat, he]
    exact Option.some_ne_none e

/-- What is cut off is the whole string when the last byte is the bracket. -/
theorem cutAtClose_eq_self_iff {depth : ℤ} {s : CStr} (h : depthAfter depth s = none) :
    cutAtClose depth s = s ↔ depthAfter depth s.dropLast ≠ none := by
  rcases List.eq_nil_or_concat s with rfl | ⟨t, b, rfl⟩
  · exact absurd h (by simp [depthAfter])
  · rw [List.concat_eq_append] at h ⊢
    rw [List.dropLast_concat]
    cases hcase : depthAfter depth t with
    | none =>
      rw [cutAtClose_append_of_none hcase]
      refine iff_of_false (fun heq ↦ ?_) fun hne ↦ hne rfl
      have hlen := (cutAtClose_isPrefix depth t).length_le
      rw [heq, List.length_append, List.length_singleton] at hlen
      omega
    | some d =>
      rw [depthAfter_append, hcase, Option.bind_some] at h
      rw [cutAtClose_append hcase]
      refine iff_of_true ?_ (Option.some_ne_none d)
      rw [depthAfter] at h
      split at h
      · exact absurd h (by simp [depthAfter])
      · rename_i hopen
        split at h
        · rename_i hclose
          split at h
          · rename_i hzero
            rw [cutAtClose, if_neg hopen, if_pos hclose, if_pos hzero]
          · exact absurd h (by simp [depthAfter])
        · exact absurd h (by simp [depthAfter])

theorem exposed_raw_of_ne_nil {name : String} {s : CStr} {items : List (String × Printed)}
    (h : items ≠ []) : exposed ((name, .raw s) :: items) = s ++ exposed items := by
  obtain ⟨i, items, rfl⟩ := List.exists_cons_of_ne_nil h
  rfl

/-- The loop over the fields comes to a table with all of them exactly when the depth does not come
to zero too early. -/
theorem hasFields_outcome_iff {items : List (String × Printed)} (hitems : ∀ i ∈ items, i.2.Ok)
    (hnames : items.Pairwise fun i j ↦ ascii i.1 ≠ ascii j.1) (hfollowed : Followed items)
    {fields : List (LuaKey × LuaValue)}
    (hfields : ∀ i ∈ items, LuaValue.lookup (.name (ascii i.1)) fields = .nil) (depth : ℤ) :
    HasFields (outcome depth fields items) items ↔ depthAfter depth (exposed items) ≠ none := by
  induction items generalizing depth fields with
  | nil => exact iff_of_true (fun i hi ↦ absurd hi List.not_mem_nil) (Option.some_ne_none depth)
  | cons i items ih =>
    obtain ⟨name, p⟩ := i
    obtain ⟨hname, hpairs⟩ := List.pairwise_cons.mp hnames
    have hok : ∀ i ∈ items, i.2.Ok := fun i hi ↦ hitems i (List.mem_cons_of_mem _ hi)
    have hkey : ∀ i ∈ items, LuaKey.name (ascii name) ≠ .name (ascii i.1) :=
      fun i hi heq ↦ hname i hi (LuaKey.name.inj heq)
    -- the member itself is set and stays, and the rest is as before
    have hadd : ∀ val : Option LuaValue, ∀ i ∈ items,
        LuaValue.lookup (.name (ascii i.1)) (addField fields name val) = .nil := fun val i hi ↦
      (lookup_addField_of_ne (hkey i hi).symm fields val).trans
        (hfields i (List.mem_cons_of_mem _ hi))
    have hhead : ∀ d : ℤ, ∀ x ∈ p.value, LuaValue.lookup (.name (ascii name))
        (outcome d (addField fields name p.value) items) = x := by
      intro d x hx
      rw [lookup_outcome hkey, Option.mem_def.mp hx, lookup_addField_self]
    rw [hasFields_cons]
    cases p with
    | lit text val =>
      rw [outcome, exposed]
      refine (and_iff_right (hhead depth)).trans ?_
      exact ih hok hpairs hfollowed (hadd val) depth
    | raw s =>
      obtain ⟨hnext, hrest⟩ := hfollowed
      rw [outcome]
      cases hcase : depthAfter depth s with
      | some d =>
        dsimp only
        refine (and_iff_right (hhead d)).trans ?_
        rw [ih hok hpairs hrest (hadd _) d]
        by_cases hitem : items = []
        · subst hitem
          exact iff_of_true (Option.some_ne_none d) (depthAfter_dropLast_of_some hcase)
        · rw [exposed_raw_of_ne_nil hitem, depthAfter_append, hcase, Option.bind_some]
      | none =>
        dsimp only
        have hvalue : (∀ x ∈ (Printed.raw s).value, LuaValue.lookup (.name (ascii name))
            (addField fields name (some (.str (cutAtClose depth s)))) = x) ↔
            cutAtClose depth s = s := by
          rw [lookup_addField_self]
          constructor
          · intro h
            exact LuaValue.str.inj (h _ rfl)
          · rintro h x hx
            obtain rfl := Option.some_inj.mp hx
            rw [h]
        refine (and_congr_left' hvalue).trans ?_
        by_cases hitem : items = []
        · subst hitem
          rw [cutAtClose_eq_self_iff hcase, exposed]
          exact and_iff_left fun i hi ↦ absurd hi List.not_mem_nil
        · -- a field behind the bracket is missing
          rw [exposed_raw_of_ne_nil hitem, depthAfter_append, hcase, Option.bind_none]
          refine iff_of_false (fun h ↦ ?_) fun h ↦ h rfl
          obtain ⟨i, hi, hsome⟩ := hnext.resolve_left hitem
          obtain ⟨x, hx⟩ := Option.isSome_iff_exists.mp hsome
          have hnil := (h.2 i hi x hx).symm.trans (hadd _ i hi)
          have hi' := hok i hi
          obtain ⟨nm, q⟩ := i
          cases q with
          | raw u => exact absurd ((Option.some_inj.mp hx).trans hnil) (by simp)
          | lit text val => exact hi'.2.2.2.1 (by rw [← hnil]; exact hx)

end NetForensics

import NetForensics.Ctl.Outcome

/-!
# Strings that are not read back

A string with a quote or a backslash in it is never a field of the table, neither where it was
printed nor anywhere else: to come out of the loop with such a byte in it, a string needs a
backslash that is not in it, and backslashes come from the printed strings only. So it would have to
be read from a heavier one, in a weight in which a backslash outweighs what it can bring about; and
the heaviest of the strings is missing.
-/

namespace NetForensics

open Json

/-! ## Strings in the table come from the text -/

theorem readString_suffix (room : ℕ) (s : CStr) : (readString room s).2 <:+ s := by
  fun_induction readString room s with
  | case1 | case2 | case3 => exact List.suffix_rfl
  | case4 room c s val rest heq ih =>
    rw [heq] at ih
    exact (ih.trans (List.suffix_cons c s)).trans (List.suffix_cons 92 _)
  | case5 room b s _ _ val rest heq ih =>
    rw [heq] at ih
    exact ih.trans (List.suffix_cons b s)

theorem skipQuote_suffix (s : CStr) : skipQuote s <:+ s := by
  unfold skipQuote
  split
  · exact List.suffix_cons 34 _
  · exact List.suffix_rfl

theorem skipNested_suffix (depth : ℤ) (s : CStr) : skipNested depth s <:+ s := by
  induction s generalizing depth with
  | nil => exact List.suffix_rfl
  | cons b s ih =>
    rw [skipNested]
    split_ifs <;> first | exact (ih _).trans (List.suffix_cons b s) | exact List.suffix_cons b s

theorem strtod_suffix (s : CStr) : (strtod s).2 <:+ s := by
  rw [strtod, List.splitAt_eq]
  exact List.drop_suffix _ s

theorem readKey_suffix (q : CStr) : (readKey q).2 <:+ q := by
  rw [readKey]
  exact (((List.dropWhile_suffix _).trans (List.drop_suffix 1 _)).trans
    (List.dropWhile_suffix _)).trans ((skipQuote_suffix _).trans (List.drop_suffix _ q))

theorem readValue_suffix {q r : CStr} {val : Option LuaValue} (h : readValue q = some (val, r)) :
    r <:+ q := by
  unfold readValue at h
  split at h
  · exact absurd h (by simp)
  · rename_i s
    obtain ⟨-, rfl⟩ := Prod.mk.inj (Option.some_inj.mp h)
    exact ((skipQuote_suffix _).trans (readString_suffix 255 s)).trans (List.suffix_cons 34 s)
  · rename_i b s _
    split_ifs at h
    · obtain ⟨-, rfl⟩ := Prod.mk.inj (Option.some_inj.mp h)
      exact List.dropWhile_suffix _
    · obtain ⟨-, rfl⟩ := Prod.mk.inj (Option.some_inj.mp h)
      exact strtod_suffix _
    · obtain ⟨-, rfl⟩ := Prod.mk.inj (Option.some_inj.mp h)
      exact skipNested_suffix 0 _

theorem readValue_str {q r v : CStr} (h : readValue q = some (some (.str v), r)) :
    ∃ w, q = 34 :: w ∧ v = (readString 255 w).1 := by
  unfold readValue at h
  split at h
  · exact absurd h (by simp)
  · rename_i s
    obtain ⟨hval, -⟩ := Prod.mk.inj (Option.some_inj.mp h)
    exact ⟨s, rfl, (LuaValue.str.inj (Option.some_inj.mp hval)).symm⟩
  · split_ifs at h <;> simp at h

/-- A string among the fields was there before, or it was read behind a quote. -/
theorem str_mem_scanFields {fuel : ℕ} {fields : List (LuaKey × LuaValue)} {q v : CStr}
    {key : LuaKey} (h : (key, .str v) ∈ scanFields fuel fields q) :
    (key, .str v) ∈ fields ∨ ∃ w, 34 :: w <:+ q ∧ v = (readString 255 w).1 := by
  induction fuel generalizing fields q with
  | zero => exact Or.inl h
  | succ fuel ih =>
    rw [scanFields] at h
    split at h
    · exact Or.inl h
    · rename_i b q' hdrop
      have hsuffix : q' <:+ q :=
        (List.suffix_cons b q').trans (hdrop ▸ List.dropWhile_suffix _)
      dsimp only at h
      split at h
      · exact Or.inl h
      · rename_i val r hread
        have hvalue := (readKey_suffix q').trans hsuffix
        have hrest := (readValue_suffix hread).trans hvalue
        -- the field that this turn sets, if it is a string
        have hset : (key, LuaValue.str v) ∈ (val.map fun v ↦ (LuaKey.name (readKey q').1, v)).toList
            ++ fields → (key, .str v) ∈ fields ∨
              ∃ w, 34 :: w <:+ q ∧ v = (readString 255 w).1 := by
          intro hmem
          rcases List.mem_append.mp hmem with hnew | hold
          · obtain ⟨x, hx, heq⟩ := Option.map_eq_some_iff.mp (Option.mem_toList.mp hnew)
            obtain ⟨-, rfl⟩ := Prod.mk.inj heq
            rw [hx] at hread
            obtain ⟨w, hw, hv⟩ := readValue_str hread
            exact Or.inr ⟨w, hw ▸ hvalue, hv⟩
          · exact Or.inl hold
        split at h
        · exact hset h
        · rcases ih h with hmem | ⟨w, hw, hv⟩
          · exact hset hmem
          · exact Or.inr ⟨w, (hw.trans (List.dropWhile_suffix _)).trans hrest, hv⟩

theorem mem_of_lookup {key : LuaKey} {fields : List (LuaKey × LuaValue)} {v : CStr}
    (h : LuaValue.lookup key fields = .str v) : (key, .str v) ∈ fields := by
  rw [LuaValue.lookup] at h
  cases hfind : fields.find? fun f ↦ f.1 = key with
  | none =>
    rw [hfind] at h
    exact absurd h (by simp)
  | some f =>
    rw [hfind] at h
    have hkey : decide (f.1 = key) = true :=
      List.find?_some (p := fun f : LuaKey × LuaValue ↦ decide (f.1 = key)) hfind
    have hmem := List.mem_of_find?_eq_some hfind
    have hval : f.2 = .str v := h
    rwa [show f = (key, .str v) from Prod.ext (of_decide_eq_true hkey) hval] at hmem

/-! ## Weights -/

/-- A backslash outweighs the quote and what little comes behind it that it can bring into a
string. -/
def byteWeight (b : UInt8) : ℕ := if b = 92 then 8 else if b = 34 then 2 else 1

def weight (s : CStr) : ℕ := (s.map byteWeight).sum

theorem weight_cons (b : UInt8) (s : CStr) : weight (b :: s) = byteWeight b + weight s :=
  List.sum_cons

theorem weight_append (s t : CStr) : weight (s ++ t) = weight s + weight t := by
  rw [weight, List.map_append, List.sum_append]
  rfl

/-- What comes behind a string and its quote: the next member, or the end. -/
def Behind (z : CStr) : Prop := (∃ t, z = 44 :: 34 :: t) ∨ z = [125, 125]

theorem weight_readString_behind {z : CStr} (h : Behind z) {w : CStr} (hw : w <+: z) (room : ℕ) :
    weight (readString room w).1 ≤ 2 := by
  have hnil : weight (readString room []).1 ≤ 2 := by
    rw [readString_nil]
    decide
  cases room with
  | zero => exact Nat.zero_le _
  | succ room =>
    cases w with
    | nil => exact hnil
    | cons b w =>
      rcases h with ⟨t, rfl⟩ | rfl
      · obtain ⟨rfl, htail⟩ := List.cons_prefix_cons.mp hw
        have hrest : (readString room w).1 = [] := by
          cases w with
          | nil => rw [readString_nil]
          | cons c w =>
            obtain ⟨rfl, -⟩ := List.cons_prefix_cons.mp htail
            rw [readString_quote]
        have hstep : (readString (room + 1) (44 :: w)).1 = 44 :: (readString room w).1 := rfl
        rw [hstep, hrest]
        decide
      · obtain ⟨rfl, htail⟩ := List.cons_prefix_cons.mp hw
        have hstep : (readString (room + 1) (125 :: w)).1 = 125 :: (readString room w).1 := rfl
        have hrest : weight (readString room w).1 ≤ 1 := by
          cases room with
          | zero => exact Nat.zero_le _
          | succ room =>
            cases w with
            | nil => rw [readString_nil]; decide
            | cons c w =>
              obtain ⟨rfl, hend⟩ := List.cons_prefix_cons.mp htail
              obtain rfl := List.prefix_nil.mp hend
              have hlast : (readString (room + 1) [125]).1 = 125 :: (readString room []).1 := rfl
              rw [hlast, readString_nil]
              decide
        have hbyte : byteWeight 125 = 1 := rfl
        rw [hstep, weight_cons]
        omega

/-- A string that is read from inside a printed one is either harmless or lighter. -/
theorem weight_readString_lt {z : CStr} (hz : Behind z) (t w : CStr) (room : ℕ)
    (hw : w <+: t ++ 34 :: z) (hlast : w.getLast? ≠ some 92) :
    ((34 ∉ (readString room w).1 ∧ 92 ∉ (readString room w).1) ∧
        weight (readString room w).1 ≤ weight t) ∨
      weight (readString room w).1 < weight t := by
  have hempty : (34 : UInt8) ∉ ([] : CStr) ∧ (92 : UInt8) ∉ ([] : CStr) :=
    ⟨List.not_mem_nil, List.not_mem_nil⟩
  have htail : ∀ {c : UInt8} {u : CStr}, (c :: u).getLast? ≠ some 92 → u.getLast? ≠ some 92 := by
    intro c u h hu
    rw [List.getLast?_cons, hu] at h
    exact h rfl
  have hback : byteWeight 92 = 8 := rfl
  fun_induction readString room w generalizing t with
  | case1 | case2 | case3 => exact Or.inl ⟨hempty, Nat.zero_le _⟩
  | case4 room c w val rest heq ih =>
    -- the backslash takes the next byte along and is left out
    rw [show (readString room w).1 = val from congrArg Prod.fst heq] at ih
    cases t with
    | nil => exact absurd (List.cons_prefix_cons.mp hw).1 (by decide)
    | cons a t =>
      obtain ⟨rfl, hnext⟩ := List.cons_prefix_cons.mp hw
      rw [weight_cons, weight_cons]
      cases t with
      | nil =>
        obtain ⟨rfl, hz'⟩ := List.cons_prefix_cons.mp hnext
        have hrest := weight_readString_behind hz hz' room
        rw [show (readString room w).1 = val from congrArg Prod.fst heq] at hrest
        have hquote : byteWeight 34 = 2 := rfl
        exact Or.inr (by omega)
      | cons d t =>
        obtain ⟨rfl, hrest⟩ := List.cons_prefix_cons.mp hnext
        rw [weight_cons]
        rcases ih t hrest (htail (htail hlast)) with ⟨-, hle⟩ | hlt
        · exact Or.inr (by omega)
        · exact Or.inr (by omega)
  | case5 room b w hquote hesc val rest heq ih =>
    rw [show (readString room w).1 = val from congrArg Prod.fst heq] at ih
    cases t with
    | nil => exact absurd (List.cons_prefix_cons.mp hw).1 hquote
    | cons a t =>
      obtain ⟨rfl, hnext⟩ := List.cons_prefix_cons.mp hw
      have hb : b ≠ 92 := by
        rintro rfl
        cases w with
        | nil => exact hlast rfl
        | cons c w => exact hesc c w rfl rfl
      rw [weight_cons, weight_cons]
      rcases ih t hnext (htail hlast) with ⟨⟨hq, hn⟩, hle⟩ | hlt
      · refine Or.inl ⟨⟨?_, ?_⟩, by omega⟩
        · exact fun hmem ↦ (List.mem_cons.mp hmem).elim (fun heq ↦ hquote heq.symm) hq
        · exact fun hmem ↦ (List.mem_cons.mp hmem).elim (Ne.symm hb) hn
      · exact Or.inr (by omega)

/-- A string that is read has no quote and no backslash in it, or there is a backslash in the text
before the quote that ends it. -/
theorem readString_cases (room : ℕ) (w : CStr) :
    (34 ∉ (readString room w).1 ∧ 92 ∉ (readString room w).1) ∨
      ∃ x v, w = x ++ 92 :: v ∧ 34 ∉ x := by
  fun_induction readString room w with
  | case1 | case2 | case3 => exact Or.inl ⟨List.not_mem_nil, List.not_mem_nil⟩
  | case4 room c w val rest heq ih => exact Or.inr ⟨[], c :: w, rfl, List.not_mem_nil⟩
  | case5 room b w hquote hesc val rest heq ih =>
    rw [show (readString room w).1 = val from congrArg Prod.fst heq] at ih
    have hb : (34 : UInt8) ≠ b := fun h ↦ hquote h.symm
    by_cases hback : b = 92
    · exact Or.inr ⟨[], w, by rw [hback]; rfl, List.not_mem_nil⟩
    · rcases ih with ⟨hq, hn⟩ | ⟨x, v, rfl, hx⟩
      · refine Or.inl ⟨?_, ?_⟩
        · exact fun hmem ↦ (List.mem_cons.mp hmem).elim hb hq
        · exact fun hmem ↦ (List.mem_cons.mp hmem).elim (Ne.symm hback) hn
      · exact Or.inr ⟨b :: x, v, rfl, fun hmem ↦ (List.mem_cons.mp hmem).elim hb hx⟩

/-! ## Where the backslashes are -/

theorem split_of_notMem {b : UInt8} {p q a t : CStr} (hp : b ∉ p) (h : p ++ q = a ++ b :: t) :
    ∃ a', a = p ++ a' ∧ q = a' ++ b :: t := by
  rcases List.append_eq_append_iff.mp h with ⟨a', rfl, hq⟩ | ⟨c, rfl, hc⟩
  · exact ⟨a', rfl, hq⟩
  · cases c with
    | nil => exact ⟨[], by simp, hc.symm⟩
    | cons d c =>
      obtain ⟨rfl, -⟩ := List.cons.inj hc
      exact absurd (List.mem_append_right a List.mem_cons_self) hp

theorem split_append {b : UInt8} {s q a t : CStr} (h : s ++ q = a ++ b :: t) :
    (∃ s', s = a ++ b :: s' ∧ t = s' ++ q) ∨ ∃ a', a = s ++ a' ∧ q = a' ++ b :: t := by
  rcases List.append_eq_append_iff.mp h with ⟨a', rfl, hq⟩ | ⟨c, rfl, hc⟩
  · exact Or.inr ⟨a', rfl, hq⟩
  · cases c with
    | nil => exact Or.inr ⟨[], by simp, hc.symm⟩
    | cons d c =>
      obtain ⟨rfl, rfl⟩ := List.cons.inj hc
      exact Or.inl ⟨c, rfl, rfl⟩

theorem exists_memberList_texts_cons (i : String × Printed) (items : List (String × Printed)) :
    ∃ z, memberList (texts (i :: items)) ++ [125, 125] = member i.1 i.2.text ++ z ∧ Behind z ∧
      ∀ a t, z = a ++ 92 :: t → ∃ a', a = 44 :: a' ∧
        memberList (texts items) ++ [125, 125] = a' ++ 92 :: t := by
  cases items with
  | nil =>
    refine ⟨[125, 125], rfl, Or.inr rfl, fun a t h ↦ ?_⟩
    have hmem : (92 : UInt8) ∈ [125, 125] := h ▸ List.mem_append_right a List.mem_cons_self
    exact absurd hmem (by decide)
  | cons j items =>
    obtain ⟨u, hu⟩ := memberList_cons_eq_quote (j.1, j.2.text) (texts items)
    refine ⟨44 :: (memberList (texts (j :: items)) ++ [125, 125]), ?_, Or.inl ⟨u ++ [125, 125], ?_⟩,
      fun a t h ↦ ?_⟩
    · rw [← List.cons_append, ← List.append_assoc]
      rfl
    · rw [texts, List.map_cons, ← texts, hu, List.cons_append]
    · cases a with
      | nil => exact absurd (List.cons.inj h).1 (by decide)
      | cons b a =>
        obtain ⟨rfl, htail⟩ := List.cons.inj h
        exact ⟨a, rfl, htail⟩

/-- A backslash in the text of an object is in one of the strings that are printed as they are. -/
theorem backslash_in_raw {items : List (String × Printed)}
    (hitems : ∀ i ∈ items, FieldName i.1 ∧ i.2.Ok) (hne : items ≠ []) {a t : CStr}
    (h : memberList (texts items) ++ [125, 125] = a ++ 92 :: t) :
    ∃ name s, (name, Printed.raw s) ∈ items ∧ ∃ a' s₁ s₂ z, s = s₁ ++ 92 :: s₂ ∧
      a = a' ++ 34 :: s₁ ∧ t = s₂ ++ 34 :: z ∧ Behind z := by
  induction items generalizing a with
  | nil => exact absurd rfl hne
  | cons i items ih =>
    obtain ⟨name, p⟩ := i
    obtain ⟨hname, hok⟩ := hitems _ List.mem_cons_self
    obtain ⟨z, hz, hbehind, hrest⟩ := exists_memberList_texts_cons (name, p) items
    rw [hz] at h
    have hback : (92 : UInt8) ∉ ascii name := (clear_of_safe hname.1).backslash_notMem
    -- the backslash is behind this member
    have hlater : ∀ u a', a = u ++ a' → z = a' ++ 92 :: t →
        ∃ name' s, (name', Printed.raw s) ∈ (name, p) :: items ∧ ∃ a' s₁ s₂ z,
          s = s₁ ++ 92 :: s₂ ∧ a = a' ++ 34 :: s₁ ∧ t = s₂ ++ 34 :: z ∧ Behind z := by
      rintro u a' rfl hza
      obtain ⟨a', rfl, hlist⟩ := hrest a' t hza
      have hitem : items ≠ [] := by
        rintro rfl
        have hmem : (92 : UInt8) ∈ memberList (texts []) ++ [125, 125] :=
          hlist ▸ List.mem_append_right a' List.mem_cons_self
        exact absurd hmem (by decide)
      obtain ⟨name', s, hmem, b, s₁, s₂, z', hs, rfl, ht, hz'⟩ :=
        ih (fun i hi ↦ hitems i (List.mem_cons_of_mem _ hi)) hitem hlist
      refine ⟨name', s, List.mem_cons_of_mem _ hmem, u ++ 44 :: b, s₁, s₂, z', hs, ?_, ht, hz'⟩
      rw [List.append_assoc, List.cons_append]
    cases p with
    | lit text val =>
      have htext : (92 : UInt8) ∉ member name text := by
        rw [member, quoted]
        simp only [List.cons_append, List.mem_cons, List.mem_append, List.not_mem_nil, or_false,
          not_or]
        exact ⟨by decide, ⟨hback, by decide⟩, by decide, fun hmem ↦ (hok.2.2.2.2 92 hmem).2.2 rfl⟩
      obtain ⟨a', ha, hza⟩ := split_of_notMem htext h
      exact hlater _ a' ha hza
    | raw s =>
      have hopen : (92 : UInt8) ∉ quoted (ascii name) ++ [58, 34] := by
        rw [quoted]
        simp only [List.cons_append, List.mem_cons, List.mem_append, List.not_mem_nil, or_false,
          not_or]
        exact ⟨by decide, ⟨hback, by decide⟩, by decide, by decide⟩
      have hsplit : member name (quoted s) ++ z
          = (quoted (ascii name) ++ [58, 34]) ++ (s ++ 34 :: z) := by
        rw [member_quoted_append, member_open]
      dsimp only [Printed.text] at h
      rw [hsplit] at h
      obtain ⟨a', rfl, htail⟩ := split_of_notMem hopen h
      rcases split_append htail with ⟨s₂, rfl, rfl⟩ | ⟨a', rfl, hza⟩
      · exact ⟨name, _, List.mem_cons_self, quoted (ascii name) ++ [58], a', s₂, z, rfl,
          by simp only [List.append_assoc, List.cons_append, List.nil_append], rfl, hbehind⟩
      · cases a' with
        | nil => exact absurd (List.cons.inj hza).1 (by decide)
        | cons b a' =>
          obtain ⟨rfl, hrest⟩ := List.cons.inj hza
          refine hlater (quoted (ascii name) ++ [58, 34] ++ (s ++ [34])) a' ?_ hrest
          simp only [List.append_assoc, List.cons_append, List.nil_append]

/-! ## The heaviest string is missing -/

/-- For a string with a quote or a backslash among the fields there is a heavier one in the text. -/
theorem exists_heavier {items : List (String × Printed)}
    (hitems : ∀ i ∈ items, FieldName i.1 ∧ i.2.Ok) (hne : items ≠ []) {q : CStr}
    (hq : q <+: memberList (texts items) ++ [125, 125]) (hlast : q.getLast? ≠ some 92) {w : CStr}
    (hw : 34 :: w <:+ q) {room : ℕ}
    (hbad : ¬ (34 ∉ (readString room w).1 ∧ 92 ∉ (readString room w).1)) :
    ∃ name s, (name, Printed.raw s) ∈ items ∧ 92 ∈ s ∧ weight (readString room w).1 < weight s := by
  obtain ⟨x, v, rfl, hx⟩ := (readString_cases room w).resolve_left hbad
  obtain ⟨u, rfl⟩ := hw
  obtain ⟨z, hz⟩ := hq
  have htext : memberList (texts items) ++ [125, 125] = (u ++ 34 :: x) ++ 92 :: (v ++ z) := by
    rw [← hz]
    simp only [List.append_assoc, List.cons_append]
  obtain ⟨name, s, hmem, a, s₁, s₂, z', rfl, ha, ht, hbehind⟩ :=
    backslash_in_raw hitems hne htext
  -- the string starts inside the one the backslash is in
  obtain ⟨y, rfl⟩ : ∃ y, s₁ = y ++ x := by
    rcases List.append_eq_append_iff.mp ha with ⟨c, -, hc⟩ | ⟨c, -, hc⟩
    · cases c with
      | nil => exact ⟨[], (List.cons.inj hc).2.symm⟩
      | cons b c =>
        obtain ⟨-, rfl⟩ := List.cons.inj hc
        exact absurd (List.mem_append_right c List.mem_cons_self) hx
    · cases c with
      | nil => exact ⟨[], (List.cons.inj hc).2⟩
      | cons b c =>
        obtain ⟨-, rfl⟩ := List.cons.inj hc
        exact ⟨c ++ [34], by rw [List.append_assoc]; rfl⟩
  have hcut : x ++ 92 :: v <+: (x ++ 92 :: s₂) ++ 34 :: z' := by
    refine ⟨z, ?_⟩
    rw [List.append_assoc, List.append_assoc, List.cons_append, List.cons_append, ht]
  have hend : (x ++ 92 :: v).getLast? ≠ some 92 := by
    have hsplit : u ++ 34 :: (x ++ 92 :: v) = (u ++ [34]) ++ (x ++ 92 :: v) := by
      rw [List.append_assoc, List.singleton_append]
    rwa [hsplit, List.getLast?_append_of_ne_nil _
      (List.append_ne_nil_of_right_ne_nil x (List.cons_ne_nil 92 v))] at hlast
  refine ⟨name, _, hmem, by simp, ?_⟩
  have hlt := (weight_readString_lt hbehind _ _ room hcut hend).resolve_left fun h ↦ hbad h.1
  rw [List.append_assoc, weight_append]
  omega

/-- In a table that has all its fields no string has a quote or a backslash in it. -/
theorem readable_of_hasFields {items : List (String × Printed)}
    (hitems : ∀ i ∈ items, FieldName i.1 ∧ i.2.Ok) (hjson : ∀ i ∈ items, ascii i.1 ≠ ascii "_json")
    {q : CStr} (hq : q <+: memberList (texts items) ++ [125, 125]) (hlast : q.getLast? ≠ some 92)
    {fuel : ℕ} {json : LuaValue}
    (h : HasFields (scanFields fuel [(.name (ascii "_json"), json)] q) items) {name : String}
    {s : CStr} (hs : (name, Printed.raw s) ∈ items) : 34 ∉ s ∧ 92 ∉ s := by
  have hheavier : ∀ {name s}, (name, Printed.raw s) ∈ items → ¬ (34 ∉ s ∧ 92 ∉ s) →
      ∃ name' s', (name', Printed.raw s') ∈ items ∧ ¬ (34 ∉ s' ∧ 92 ∉ s') ∧
        weight s < weight s' := by
    intro name s hs hbad
    have hfield := mem_of_lookup (h _ hs (.str s) rfl)
    rcases str_mem_scanFields hfield with hmem | ⟨w, hw, rfl⟩
    · have hkey := congrArg Prod.fst (List.mem_singleton.mp hmem)
      exact absurd (LuaKey.name.inj hkey) (hjson _ hs)
    · obtain ⟨name', s', hmem, hback, hlt⟩ :=
        exists_heavier hitems (List.ne_nil_of_mem hs) hq hlast hw hbad
      exact ⟨name', s', hmem, fun hclear ↦ hclear.2 hback, hlt⟩
  by_contra hbad
  have hweights : ∀ n, ∃ name s, (name, Printed.raw s) ∈ items ∧ ¬ (34 ∉ s ∧ 92 ∉ s) ∧
      n ≤ weight s := by
    intro n
    induction n with
    | zero => exact ⟨name, s, hs, hbad, Nat.zero_le _⟩
    | succ n ih =>
      obtain ⟨name, s, hs, hbad, hn⟩ := ih
      obtain ⟨name', s', hs', hbad', hlt⟩ := hheavier hs hbad
      exact ⟨name', s', hs', hbad', by omega⟩
  obtain ⟨name', s', hs', -, hle⟩ := hweights ((items.map fun i ↦ weight i.2.text).sum + 1)
  have hsum : weight (quoted s') ≤ (items.map fun i ↦ weight i.2.text).sum :=
    List.single_le_sum (fun _ _ ↦ Nat.zero_le _) _ (List.mem_map_of_mem hs')
  have hquoted : weight s' ≤ weight (quoted s') := by
    rw [quoted, List.cons_append, weight_cons, weight_append]
    omega
  omega

end NetForensics

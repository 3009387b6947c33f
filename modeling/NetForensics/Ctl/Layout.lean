import NetForensics.Ctl.Fields

/-!
# An object as the control client sees it

The members of an answer's data are strings printed as they are, whose contents nobody has checked,
and texts that are harmless: numerals, truth values, words of the agent's own, and what is nested.
For such an object the loop over the fields comes to what `outcome` says: it takes one member after
the other until a bracket inside a string brings the depth to zero.
-/

namespace NetForensics

open Json

/-! ## Searching -/

/-- No occurrence of the pattern starts inside the text, whatever comes behind it. -/
def Skips (pat s : CStr) : Prop := ∀ t, afterFirst pat (s ++ t) = afterFirst pat t

theorem Skips.append {pat s t : CStr} (hs : Skips pat s) (ht : Skips pat t) :
    Skips pat (s ++ t) := by
  intro u
  rw [List.append_assoc, hs, ht]

theorem afterFirst_cons {pat : CStr} {b : UInt8} {s : CStr} (h : ¬ pat <+: b :: s) :
    afterFirst pat (b :: s) = afterFirst pat s := if_neg h

/-- What a member whose name is `ok` is searched for with. -/
def okPattern (tail : CStr) : CStr := quoted (ascii "ok") ++ 58 :: tail

theorem not_okPattern_isPrefix {tail : CStr} {b : UInt8} (hb : b ≠ 34) (s : CStr) :
    ¬ okPattern tail <+: b :: s := fun h ↦ hb (List.cons_prefix_cons.mp h).1.symm

theorem skips_of_notMem {tail s : CStr} (h : 34 ∉ s) : Skips (okPattern tail) s := by
  intro t
  induction s with
  | nil => rfl
  | cons b s ih =>
    obtain ⟨hb, hs⟩ := not_or.mp fun hmem ↦ h (List.mem_cons.mpr hmem)
    rw [List.cons_append, afterFirst_cons (not_okPattern_isPrefix (Ne.symm hb) _), ih hs]

/-- A string between quotes with one more byte: only the name itself could be found. -/
theorem skips_quoted {tail s : CStr} (h : 34 ∉ s) {c : UInt8} (hc : c ≠ 111 ∧ c ≠ 34)
    (hname : s ≠ ascii "ok" ∨ c ≠ 58) : Skips (okPattern tail) (quoted s ++ [c]) := by
  intro t
  have hopen : ¬ okPattern tail <+: 34 :: (s ++ 34 :: c :: t) := by
    intro hcut
    have htail : 111 :: 107 :: 34 :: 58 :: tail <+: s ++ 34 :: c :: t :=
      (List.cons_prefix_cons.mp hcut).2
    match s, h, hname, htail with
    | [], _, _, htail => exact absurd (List.cons_prefix_cons.mp htail).1 (by decide)
    | [x], _, _, htail =>
      have hsecond := (List.cons_prefix_cons.mp htail).2
      exact absurd (List.cons_prefix_cons.mp hsecond).1 (by decide)
    | [x, y], _, hname, htail =>
      obtain ⟨rfl, hsecond⟩ := List.cons_prefix_cons.mp htail
      obtain ⟨rfl, hthird⟩ := List.cons_prefix_cons.mp hsecond
      have hcolon := (List.cons_prefix_cons.mp (List.cons_prefix_cons.mp hthird).2).1
      exact hname.elim (fun hne ↦ hne rfl) fun hne ↦ hne hcolon.symm
    | x :: y :: z :: u, h, _, htail =>
      have hthird := (List.cons_prefix_cons.mp (List.cons_prefix_cons.mp htail).2).2
      have hz : (34 : UInt8) = z := (List.cons_prefix_cons.mp hthird).1
      exact h (by rw [hz]; simp)
  have hclose : ¬ okPattern tail <+: 34 :: c :: t := by
    intro hcut
    exact hc.1 (List.cons_prefix_cons.mp (List.cons_prefix_cons.mp hcut).2).1.symm
  have htext : quoted s ++ [c] ++ t = 34 :: (s ++ 34 :: c :: t) := by
    simp only [quoted, List.cons_append, List.append_assoc, List.nil_append]
  rw [htext, afterFirst_cons hopen, skips_of_notMem h, afterFirst_cons hclose,
    afterFirst_cons (not_okPattern_isPrefix hc.2 _)]

/-- In the place of a value, the text is skipped by the search for `ok`. -/
def SkipsOk (text : CStr) : Prop :=
  ∀ tail c, c = 44 ∨ c = 125 ∨ c = 93 → Skips (okPattern tail) (text ++ [c])

theorem skipsOk_quoted {s : CStr} (h : 34 ∉ s) : SkipsOk (quoted s) := by
  intro tail c hc
  refine skips_quoted h ?_ (Or.inr ?_)
  · rcases hc with rfl | rfl | rfl <;> decide
  · rcases hc with rfl | rfl | rfl <;> decide

theorem skipsOk_of_notMem {s : CStr} (h : 34 ∉ s) : SkipsOk s := by
  intro tail c hc
  refine skips_of_notMem fun hmem ↦ ?_
  rcases List.mem_append.mp hmem with hs | hlast
  · exact h hs
  · obtain rfl := List.mem_singleton.mp hlast
    rcases hc with hc | hc | hc <;> exact absurd hc (by decide)

theorem skips_member {tail : CStr} {name : String} (hname : FieldName name)
    (hok : ascii name ≠ ascii "ok") {text : CStr} (h : SkipsOk text) {c : UInt8}
    (hc : c = 44 ∨ c = 125 ∨ c = 93) : Skips (okPattern tail) (member name text ++ [c]) := by
  have hsplit : member name text ++ [c] = (quoted (ascii name) ++ [58]) ++ (text ++ [c]) := by
    rw [member, List.append_assoc, List.append_assoc]
    rfl
  rw [hsplit]
  exact (skips_quoted hname.quote_notMem (by decide) (Or.inl hok)).append (h tail c hc)

theorem skips_memberList {tail : CStr} {ms : List (String × CStr)}
    (h : ∀ m ∈ ms, FieldName m.1 ∧ ascii m.1 ≠ ascii "ok" ∧ SkipsOk m.2) :
    Skips (okPattern tail) (memberList ms ++ [125]) := by
  fun_induction memberList ms with
  | case1 => exact skips_of_notMem (by decide)
  | case2 m =>
    obtain ⟨hname, hok, htext⟩ := h m List.mem_cons_self
    exact skips_member hname hok htext (Or.inr (Or.inl rfl))
  | case3 m n ms ih =>
    obtain ⟨hname, hok, htext⟩ := h m List.mem_cons_self
    have hsplit : member m.1 m.2 ++ 44 :: memberList (n :: ms) ++ [125]
        = (member m.1 m.2 ++ [44]) ++ (memberList (n :: ms) ++ [125]) := by
      simp only [List.append_assoc, List.cons_append, List.nil_append]
    rw [hsplit]
    exact (skips_member hname hok htext (Or.inl rfl)).append
      (ih fun k hk ↦ h k (List.mem_cons_of_mem m hk))

theorem skips_object {tail : CStr} {ms : List (String × CStr)}
    (h : ∀ m ∈ ms, FieldName m.1 ∧ ascii m.1 ≠ ascii "ok" ∧ SkipsOk m.2) :
    Skips (okPattern tail) (object ms) := by
  have hopen : Skips (okPattern tail) [123] := skips_of_notMem (by decide)
  exact hopen.append (skips_memberList h)

theorem skipsOk_object {ms : List (String × CStr)}
    (h : ∀ m ∈ ms, FieldName m.1 ∧ ascii m.1 ≠ ascii "ok" ∧ SkipsOk m.2) :
    SkipsOk (object ms) := by
  intro tail c hc
  refine (skips_object h).append (skips_of_notMem ?_)
  rcases hc with rfl | rfl | rfl <;> decide

theorem skipsOk_array {ss : List CStr} (h : ∀ s ∈ ss, SkipsOk s) : SkipsOk (array ss) := by
  intro tail c hc
  have hopen : Skips (okPattern tail) [91] := skips_of_notMem (by decide)
  have hclose : Skips (okPattern tail) [c] := by
    refine skips_of_notMem ?_
    rcases hc with rfl | rfl | rfl <;> decide
  have helems : Skips (okPattern tail) (elemList ss ++ [93]) := by
    fun_induction elemList ss with
    | case1 => exact skips_of_notMem (by decide)
    | case2 s => exact h s List.mem_cons_self tail 93 (Or.inr (Or.inr rfl))
    | case3 s t ss ih =>
      have hsplit : s ++ 44 :: elemList (t :: ss) ++ [93]
          = (s ++ [44]) ++ (elemList (t :: ss) ++ [93]) := by
        simp only [List.append_assoc, List.cons_append, List.nil_append]
      rw [hsplit]
      exact (h s List.mem_cons_self tail 44 (Or.inl rfl)).append
        (ih fun u hu ↦ h u (List.mem_cons_of_mem s hu))
  have hsplit : array ss ++ [c] = [91] ++ (elemList ss ++ [93]) ++ [c] := by
    rw [array]
    simp only [List.append_assoc, List.cons_append, List.nil_append]
  rw [hsplit]
  exact (hopen.append helems).append hclose

/-! ## Members -/

/-- How the value of a member is printed: a string as it is, or some other text, with what a table
is to hold for it, if anything. -/
inductive Printed where
  | raw (s : CStr)
  | lit (text : CStr) (val : Option LuaValue)

namespace Printed

def text : Printed → CStr
  | raw s => quoted s
  | lit text _ => text

def value : Printed → Option LuaValue
  | raw s => some (.str s)
  | lit _ val => val

/-- What holds of the texts that do not depend on what anyone has configured, and of the size of
those that do. -/
def Ok : Printed → Prop
  | raw s => s.length ≤ 255
  | lit text val => Shows text val ∧ Level text ∧ SkipsOk text ∧ val ≠ some .nil ∧
      ∀ b ∈ text, b ≠ 0 ∧ b ≠ 10 ∧ b ≠ 92

/-- The strings that are printed as they are consist of harmless bytes. -/
def Readable : Printed → Prop
  | raw s => Clear s
  | lit _ _ => True

end Printed

/-- The members of an object, as they are printed. -/
def texts (items : List (String × Printed)) : List (String × CStr) :=
  items.map fun i ↦ (i.1, i.2.text)

/-- What the loop over the fields comes to, from a depth on. -/
def outcome : ℤ → List (LuaKey × LuaValue) → List (String × Printed) → List (LuaKey × LuaValue)
  | _, fields, [] => fields
  | depth, fields, (name, .raw s) :: items =>
    match depthAfter depth s with
    | none => addField fields name (some (.str (cutAtClose depth s)))
    | some depth => outcome depth (addField fields name (some (.str s))) items
  | depth, fields, (name, .lit _ val) :: items => outcome depth (addField fields name val) items

theorem member_quoted_append (name : String) (s t : CStr) :
    member name (quoted s) ++ t = member name (34 :: (s ++ 34 :: t)) := by
  rw [member_append, quoted, List.append_assoc, List.cons_append, List.singleton_append]

theorem member_open (name : String) (s : CStr) :
    member name (34 :: s) = (quoted (ascii name) ++ [58, 34]) ++ s := by
  rw [member, List.append_assoc]
  rfl

theorem level_member_open {name : String} (hname : FieldName name) :
    Level (quoted (ascii name) ++ [58, 34]) :=
  (level_quoted hname.2.1.level).append (Unbracketed.level (by decide))

theorem cutAtClose_unbracketed {depth : ℤ} {b : UInt8}
    (hb : isOpening b = false ∧ isClosing b = false) (s : CStr) :
    cutAtClose depth (b :: s) = b :: cutAtClose depth s := by
  rw [cutAtClose, hb.1, if_neg Bool.false_ne_true, hb.2, if_neg Bool.false_ne_true]

theorem cutAtClose_member_none {name : String} (hname : FieldName name) {depth : ℤ}
    (hdepth : 0 < depth) {s : CStr} (h : depthAfter depth s = none) (t : CStr) :
    cutAtClose depth (member name (quoted s) ++ t) = member name (34 :: cutAtClose depth s) := by
  rw [member_quoted_append, member_open, cutAtClose_append (level_member_open hname depth hdepth),
    cutAtClose_append_of_none h, ← member_open]

theorem cutAtClose_member_some {name : String} (hname : FieldName name) {depth d : ℤ}
    (hdepth : 0 < depth) {s : CStr} (h : depthAfter depth s = some d) (t : CStr) :
    cutAtClose depth (member name (quoted s) ++ t) = member name (quoted s) ++ cutAtClose d t := by
  rw [member_quoted_append, member_open, cutAtClose_append (level_member_open hname depth hdepth),
    cutAtClose_append h, cutAtClose_unbracketed (by decide), ← member_open, member_quoted_append]

theorem cutAtClose_member_lit {name : String} (hname : FieldName name) {depth : ℤ}
    (hdepth : 0 < depth) {text : CStr} (h : Level text) (t : CStr) :
    cutAtClose depth (member name text ++ t) = member name text ++ cutAtClose depth t :=
  cutAtClose_append (level_member hname.2.1 h depth hdepth) t

theorem memberList_cons_eq_quote (m : String × CStr) (ms : List (String × CStr)) :
    ∃ u, memberList (m :: ms) = 34 :: u := by
  cases ms with
  | nil => exact ⟨_, by rw [memberList, member_eq]⟩
  | cons n ms => exact ⟨_, by rw [memberList, member_eq, List.cons_append]⟩

theorem exists_cutAtClose_closers (depth : ℤ) : ∃ t, cutAtClose depth [125, 125] = 125 :: t := by
  rw [cutAtClose, if_neg (by decide), if_pos (by decide)]
  split
  · exact ⟨[], rfl⟩
  · exact ⟨_, rfl⟩

/-- The loop over the fields of an object whose strings are harmless but for their brackets. -/
theorem scanFields_eq_outcome {items : List (String × Printed)} (hne : items ≠ [])
    (hitems : ∀ i ∈ items, FieldName i.1 ∧ i.2.Ok ∧ i.2.Readable) {depth : ℤ} (hdepth : 0 < depth)
    {fuel : ℕ} (hfuel : (cutAtClose depth (memberList (texts items) ++ [125, 125])).length ≤ fuel)
    (fields : List (LuaKey × LuaValue)) :
    scanFields fuel fields (cutAtClose depth (memberList (texts items) ++ [125, 125]))
      = outcome depth fields items := by
  induction items generalizing depth fuel fields with
  | nil => exact absurd rfl hne
  | cons i items ih =>
    obtain ⟨name, p⟩ := i
    obtain ⟨hname, hok, hreadable⟩ := hitems _ List.mem_cons_self
    have hrest : ∀ i ∈ items, FieldName i.1 ∧ i.2.Ok ∧ i.2.Readable :=
      fun i hi ↦ hitems i (List.mem_cons_of_mem _ hi)
    -- one turn, when the member is complete, and the rest at the depth behind it
    have hnext : ∀ d : ℤ, 0 < d → Shows p.text p.value →
        (∀ t, cutAtClose depth (member name p.text ++ t)
          = member name p.text ++ cutAtClose d t) →
        scanFields fuel fields (cutAtClose depth (memberList (texts ((name, p) :: items)) ++
          [125, 125])) = outcome d (addField fields name p.value) items := by
      intro d hd hshows hcut
      cases items with
      | nil =>
        obtain ⟨t, ht⟩ := exists_cutAtClose_closers d
        have htext : cutAtClose depth (memberList (texts [(name, p)]) ++ [125, 125])
            = member name p.text ++ 125 :: t := by
          rw [← ht, ← hcut]
          rfl
        rw [htext, List.length_append, List.length_cons] at hfuel
        obtain ⟨fuel, rfl⟩ := Nat.exists_eq_add_of_lt (Nat.lt_of_lt_of_le (Nat.succ_pos _)
          ((Nat.le_add_left _ _).trans hfuel))
        rw [htext, zero_add, scanFields_close hname hshows]
        rfl
      | cons j items =>
        obtain ⟨u, hu⟩ := memberList_cons_eq_quote (j.1, j.2.text) (texts items)
        have hlist : memberList (texts (j :: items)) ++ [125, 125] = 34 :: (u ++ [125, 125]) := by
          rw [texts, List.map_cons, ← texts, hu, List.cons_append]
        have htext : cutAtClose depth (memberList (texts ((name, p) :: j :: items)) ++ [125, 125])
            = member name p.text ++ 44 :: 34 :: cutAtClose d (u ++ [125, 125]) := by
          have hsplit : memberList (texts ((name, p) :: j :: items)) ++ [125, 125]
              = member name p.text ++ 44 :: (memberList (texts (j :: items)) ++ [125, 125]) := by
            rw [← List.cons_append, ← List.append_assoc]
            rfl
          rw [hsplit, hcut, hlist, cutAtClose_unbracketed (by decide),
            cutAtClose_unbracketed (by decide)]
        have hcutlist : cutAtClose d (memberList (texts (j :: items)) ++ [125, 125])
            = 34 :: cutAtClose d (u ++ [125, 125]) := by
          rw [hlist, cutAtClose_unbracketed (by decide)]
        rw [htext, List.length_append, List.length_cons, List.length_cons] at hfuel
        obtain ⟨fuel, rfl⟩ := Nat.exists_eq_add_of_lt (Nat.lt_of_lt_of_le (Nat.succ_pos _)
          ((Nat.le_add_left _ _).trans hfuel))
        rw [htext, zero_add, scanFields_comma hname hshows, ← hcutlist]
        refine ih (List.cons_ne_nil _ _) hrest hd ?_ _
        rw [hcutlist, List.length_cons]
        omega
    cases p with
    | lit text val =>
      exact hnext depth hdepth hok.1 fun t ↦ cutAtClose_member_lit hname hdepth hok.2.1 t
    | raw s =>
      have hs : Clear s := hreadable
      rw [outcome]
      cases hcase : depthAfter depth s with
      | some d =>
        exact hnext d (depthAfter_pos hdepth hcase) (shows_quoted hs hok)
          fun t ↦ cutAtClose_member_some hname hdepth hcase t
      | none =>
        obtain ⟨t, ht⟩ : ∃ t, memberList (texts ((name, .raw s) :: items)) ++ [125, 125]
            = member name (quoted s) ++ t := by
          cases items with
          | nil => exact ⟨[125, 125], rfl⟩
          | cons j items =>
            exact ⟨44 :: memberList (texts (j :: items)) ++ [125, 125], by
              rw [← List.append_assoc]
              rfl⟩
        have hcut := cutAtClose_isPrefix depth s
        rw [ht, cutAtClose_member_none hname hdepth hcase, member_eq, List.length_cons] at hfuel
        obtain ⟨fuel, rfl⟩ := Nat.exists_eq_add_of_lt (Nat.lt_of_lt_of_le (Nat.succ_pos _) hfuel)
        rw [ht, cutAtClose_member_none hname hdepth hcase, zero_add,
          scanFields_cut hname (fun b hb ↦ hs b (hcut.subset hb)) (hcut.length_le.trans hok)]

end NetForensics

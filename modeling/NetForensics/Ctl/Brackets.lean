import NetForensics.Ctl.Decode
import NetForensics.Json.Print

/-!
# Counting brackets

The control client finds the end of the data, and of what it skips, by counting brackets without
regard to strings. `depthAfter` is the depth behind a text, as long as it does not come back to zero
on the way. What is printed as an object or an array of texts that leave the depth as it was leaves
it as it was.
-/

namespace NetForensics

/-- The depth behind a text, unless it comes to zero. -/
def depthAfter : ℤ → CStr → Option ℤ
  | depth, [] => some depth
  | depth, b :: s =>
    if isOpening b then depthAfter (depth + 1) s
    else if isClosing b then if depth - 1 = 0 then none else depthAfter (depth - 1) s
    else depthAfter depth s

theorem depthAfter_append (depth : ℤ) (s t : CStr) :
    depthAfter depth (s ++ t) = (depthAfter depth s).bind fun d ↦ depthAfter d t := by
  fun_induction depthAfter depth s with
  | case1 depth => rfl
  | case2 depth b s hopen ih => rw [List.cons_append, depthAfter, if_pos hopen, ih]
  | case3 depth b s hopen hclose hzero =>
    rw [List.cons_append, depthAfter, if_neg hopen, if_pos hclose, if_pos hzero]
    rfl
  | case4 depth b s hopen hclose hzero ih =>
    rw [List.cons_append, depthAfter, if_neg hopen, if_pos hclose, if_neg hzero, ih]
  | case5 depth b s hopen hclose ih =>
    rw [List.cons_append, depthAfter, if_neg hopen, if_neg hclose, ih]

theorem depthAfter_pos {depth d : ℤ} {s : CStr} (hdepth : 0 < depth)
    (h : depthAfter depth s = some d) : 0 < d := by
  fun_induction depthAfter depth s with
  | case1 depth => exact Option.some_inj.mp h ▸ hdepth
  | case2 depth b s hopen ih => exact ih (by omega) h
  | case3 depth b s hopen hclose hzero => exact absurd h (by simp)
  | case4 depth b s hopen hclose hzero ih => exact ih (by omega) h
  | case5 depth b s hopen hclose ih => exact ih hdepth h

/-! ## Cutting -/

theorem cutAtClose_append {depth d : ℤ} {s : CStr} (h : depthAfter depth s = some d) (t : CStr) :
    cutAtClose depth (s ++ t) = s ++ cutAtClose d t := by
  fun_induction depthAfter depth s with
  | case1 depth =>
    obtain rfl := Option.some_inj.mp h
    rfl
  | case2 depth b s hopen ih => rw [List.cons_append, cutAtClose, if_pos hopen, ih h]; rfl
  | case3 depth b s hopen hclose hzero => exact absurd h (by simp)
  | case4 depth b s hopen hclose hzero ih =>
    rw [List.cons_append, cutAtClose, if_neg hopen, if_pos hclose, if_neg hzero, ih h]
    rfl
  | case5 depth b s hopen hclose ih =>
    rw [List.cons_append, cutAtClose, if_neg hopen, if_neg hclose, ih h]
    rfl

/-- Behind the bracket with which the depth comes to zero nothing is kept. -/
theorem cutAtClose_append_of_none {depth : ℤ} {s : CStr} (h : depthAfter depth s = none)
    (t : CStr) : cutAtClose depth (s ++ t) = cutAtClose depth s := by
  fun_induction depthAfter depth s with
  | case1 depth => exact absurd h (by simp)
  | case2 depth b s hopen ih =>
    rw [List.cons_append, cutAtClose, if_pos hopen, ih h, cutAtClose, if_pos hopen]
  | case3 depth b s hopen hclose hzero =>
    rw [List.cons_append, cutAtClose, if_neg hopen, if_pos hclose, if_pos hzero, cutAtClose,
      if_neg hopen, if_pos hclose, if_pos hzero]
  | case4 depth b s hopen hclose hzero ih =>
    rw [List.cons_append, cutAtClose, if_neg hopen, if_pos hclose, if_neg hzero, ih h, cutAtClose,
      if_neg hopen, if_pos hclose, if_neg hzero]
  | case5 depth b s hopen hclose ih =>
    rw [List.cons_append, cutAtClose, if_neg hopen, if_neg hclose, ih h, cutAtClose, if_neg hopen,
      if_neg hclose]

theorem cutAtClose_isPrefix (depth : ℤ) (s : CStr) : cutAtClose depth s <+: s := by
  fun_induction cutAtClose depth s with
  | case1 => exact List.prefix_rfl
  | case2 depth b s hopen ih => exact (List.prefix_cons_inj b).mpr ih
  | case3 depth b s hopen hclose hzero => exact ⟨s, rfl⟩
  | case4 depth b s hopen hclose hzero ih => exact (List.prefix_cons_inj b).mpr ih
  | case5 depth b s hopen hclose ih => exact (List.prefix_cons_inj b).mpr ih

theorem getLast?_cutAtClose (depth : ℤ) (s : CStr) :
    cutAtClose depth s = s ∨ ∃ b ∈ (cutAtClose depth s).getLast?, isClosing b = true := by
  have hcons : ∀ {s t : CStr} (b : UInt8), (s = t ∨ ∃ c ∈ s.getLast?, isClosing c = true) →
      b :: s = b :: t ∨ ∃ c ∈ (b :: s).getLast?, isClosing c = true := by
    rintro s t b (heq | ⟨c, hc, hclose⟩)
    · exact Or.inl (by rw [heq])
    · refine Or.inr ⟨c, ?_, hclose⟩
      rw [List.getLast?_cons, Option.mem_def.mp hc]
      rfl
  fun_induction cutAtClose depth s with
  | case1 => exact Or.inl rfl
  | case2 depth b s hopen ih => exact hcons b ih
  | case3 depth b s hopen hclose hzero => exact Or.inr ⟨b, rfl, hclose⟩
  | case4 depth b s hopen hclose hzero ih => exact hcons b ih
  | case5 depth b s hopen hclose ih => exact hcons b ih

/-! ## Texts that leave the depth as it was -/

/-- Whatever the depth, the text leaves it as it was. -/
def Level (s : CStr) : Prop := ∀ depth : ℤ, 0 < depth → depthAfter depth s = some depth

theorem Level.append {s t : CStr} (hs : Level s) (ht : Level t) : Level (s ++ t) := by
  intro depth hdepth
  rw [depthAfter_append, hs depth hdepth, Option.bind_some, ht depth hdepth]

def Unbracketed (s : CStr) : Prop := ∀ b ∈ s, isOpening b = false ∧ isClosing b = false

instance (s : CStr) : Decidable (Unbracketed s) := inferInstanceAs (Decidable (∀ b ∈ s, _))

theorem Unbracketed.level {s : CStr} (h : Unbracketed s) : Level s := by
  intro depth hdepth
  induction s with
  | nil => rfl
  | cons b s ih =>
    obtain ⟨hopen, hclose⟩ := h b List.mem_cons_self
    rw [depthAfter, hopen, if_neg Bool.false_ne_true, hclose, if_neg Bool.false_ne_true,
      ih fun c hc ↦ h c (List.mem_cons_of_mem b hc)]

theorem Level.bracketed {b c : UInt8} (hb : isOpening b = true)
    (hc : isOpening c = false ∧ isClosing c = true) {s : CStr} (h : Level s) :
    Level (b :: s ++ [c]) := by
  intro depth hdepth
  rw [List.cons_append, depthAfter, if_pos hb, depthAfter_append, h _ (by omega), Option.bind_some,
    depthAfter, hc.1, if_neg Bool.false_ne_true, if_pos hc.2, if_neg (by omega),
    Int.add_sub_cancel]
  rfl

theorem level_quoted {s : CStr} (h : Level s) : Level (quoted s) :=
  ((Unbracketed.level (s := [34]) (by decide)).append h).append
    (Unbracketed.level (s := [34]) (by decide))

theorem level_member {name : String} (hname : Unbracketed (ascii name)) {s : CStr} (h : Level s) :
    Level (member name s) :=
  (level_quoted hname.level).append ((Unbracketed.level (s := [58]) (by decide)).append h)

theorem level_comma {s : CStr} (h : Level s) : Level (44 :: s) :=
  (Unbracketed.level (s := [44]) (by decide)).append h

theorem level_memberList {ms : List (String × CStr)}
    (h : ∀ m ∈ ms, Unbracketed (ascii m.1) ∧ Level m.2) : Level (memberList ms) := by
  fun_induction memberList ms with
  | case1 => exact Unbracketed.level (by decide)
  | case2 m =>
    obtain ⟨hname, hlevel⟩ := h m List.mem_cons_self
    exact level_member hname hlevel
  | case3 m n ms ih =>
    obtain ⟨hname, hlevel⟩ := h m List.mem_cons_self
    exact (level_member hname hlevel).append
      (level_comma (ih fun k hk ↦ h k (List.mem_cons_of_mem m hk)))

theorem level_object {ms : List (String × CStr)}
    (h : ∀ m ∈ ms, Unbracketed (ascii m.1) ∧ Level m.2) : Level (object ms) :=
  (level_memberList h).bracketed (by decide) (by decide)

theorem level_elemList {ss : List CStr} (h : ∀ s ∈ ss, Level s) : Level (Json.elemList ss) := by
  fun_induction Json.elemList ss with
  | case1 => exact Unbracketed.level (by decide)
  | case2 s => exact h s List.mem_cons_self
  | case3 s t ss ih =>
    exact (h s List.mem_cons_self).append
      (level_comma (ih fun u hu ↦ h u (List.mem_cons_of_mem s hu)))

/-! ## Skipping -/

/-- The loop over what is nested goes through a text in which the depth does not come to zero. -/
theorem skipNested_append {depth d : ℤ} {s : CStr} (hdepth : 0 < depth)
    (h : depthAfter depth s = some d) (t : CStr) :
    skipNested depth (s ++ t) = skipNested d t := by
  fun_induction depthAfter depth s with
  | case1 depth =>
    obtain rfl := Option.some_inj.mp h
    rfl
  | case2 depth b s hopen ih =>
    rw [List.cons_append, skipNested, if_pos hopen, if_pos (by omega), ih (by omega) h]
  | case3 depth b s hopen hclose hzero => exact absurd h (by simp)
  | case4 depth b s hopen hclose hzero ih =>
    rw [List.cons_append, skipNested, if_neg hopen, if_pos hclose, if_pos (by omega),
      ih (by omega) h]
  | case5 depth b s hopen hclose ih =>
    rw [List.cons_append, skipNested, if_neg hopen, if_neg hclose, if_pos hdepth, ih hdepth h]

theorem skipNested_bracketed {b c : UInt8} (hb : isOpening b = true)
    (hc : isOpening c = false ∧ isClosing c = true) {s : CStr} (h : Level s) (t : CStr) :
    skipNested 0 (b :: s ++ c :: t) = t := by
  rw [List.cons_append, skipNested, if_pos hb, zero_add, if_pos one_pos,
    skipNested_append one_pos (h 1 one_pos), skipNested, hc.1, if_neg Bool.false_ne_true,
    if_pos hc.2, Int.sub_self, if_neg (lt_irrefl 0)]

end NetForensics

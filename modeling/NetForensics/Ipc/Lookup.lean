import Mathlib.Data.List.TakeWhile
import NetForensics.Ipc.Request
import NetForensics.Json.Flat

/-!
# Members found by their key

A request is one JSON object on a line. `json_get_str` and `json_get_u32` do not read it; they
search for the key between quotes. For flat objects this says what the search finds: the first
string, be it a name or a value, that is written as the key or ends in an escaped quote and the key
(`FlatObject.found`). The member of that name is what is asked for only if that string is its name,
and its text is what it stands for only if dropping every backslash decodes it
(`jsonGet_members_iff`).
-/

namespace NetForensics

open Json

/-! ## The search -/

def isKeyByte (b : UInt8) : Bool :=
  (97 ≤ b && b ≤ 122) || (65 ≤ b && b ≤ 90) || (48 ≤ b && b ≤ 57) || b == 95

/-- A key as the handler looks for it: it fits into the buffer for the pattern. -/
structure SearchKey (key : String) : Prop where
  bytes : ∀ b ∈ ascii key, isKeyByte b = true
  short : (ascii key).length + 2 < 64

instance (key : String) : Decidable (SearchKey key) :=
  decidable_of_iff ((∀ b ∈ ascii key, isKeyByte b = true) ∧ (ascii key).length + 2 < 64)
    ⟨fun h ↦ ⟨h.1, h.2⟩, fun h ↦ ⟨h.bytes, h.short⟩⟩

example : ∀ key ∈ ["op", "max", "limit", "ip", "prefix", "top_n"], SearchKey key := by decide

/-- The search for a key finds a string that is written like this. -/
def FoundIn (k raw : CStr) : Prop := raw = k ∨ 34 :: k <:+ raw

instance (k raw : CStr) : Decidable (FoundIn k raw) :=
  inferInstanceAs (Decidable (raw = k ∨ 34 :: k <:+ raw))

private theorem keyByte_ne {b : UInt8} (hb : isKeyByte b = true) :
    b ≠ 34 ∧ b ≠ 92 ∧ b ≠ 58 ∧ b ≠ 44 ∧ b ≠ 125 := by
  refine ⟨?_, ?_, ?_, ?_, ?_⟩ <;> rintro rfl <;> exact absurd hb (by decide)

theorem afterFirst_cons_of_ne {k s : CStr} {b : UInt8} (hb : b ≠ 34) :
    afterFirst (quoted k) (b :: s) = afterFirst (quoted k) s :=
  if_neg fun h ↦ hb (List.cons_prefix_cons.mp h).1.symm

theorem afterFirst_append {k w : CStr} (hw : 34 ∉ w) (s : CStr) :
    afterFirst (quoted k) (w ++ s) = afterFirst (quoted k) s := by
  induction w with
  | nil => rfl
  | cons b w ih =>
    rw [List.cons_append, afterFirst_cons_of_ne (List.ne_of_not_mem_cons hw).symm,
      ih (List.not_mem_of_not_mem_cons hw)]

/-- From the end of a string to the next quote there is a byte that no key has. -/
theorem not_key_prefix {k w : CStr} {c : UInt8} (hw : 34 ∉ w) (hc : c ∉ k) (hquote : c ≠ 34)
    (s : CStr) : ¬ k ++ [34] <+: w ++ c :: s := by
  induction w generalizing k with
  | nil =>
    intro h
    cases k with
    | nil => exact hquote (List.cons_prefix_cons.mp h).1.symm
    | cons b k => exact hc ((List.cons_prefix_cons.mp h).1 ▸ List.mem_cons_self)
  | cons b w ih =>
    intro h
    cases k with
    | nil => exact hw ((List.cons_prefix_cons.mp h).1 ▸ List.mem_cons_self)
    | cons a k =>
      exact ih (List.not_mem_of_not_mem_cons hw) (List.not_mem_of_not_mem_cons hc)
        (List.cons_prefix_cons.mp h).2

theorem Json.StrBody.key_prefix_iff {k raw : CStr} (h : StrBody raw)
    (hk : ∀ b ∈ k, isKeyByte b = true) (t : CStr) : k ++ [34] <+: raw ++ 34 :: t ↔ raw = k := by
  induction h generalizing k with
  | nil =>
    cases k with
    | nil => exact iff_of_true ⟨t, rfl⟩ rfl
    | cons b k =>
      refine iff_of_false (fun h ↦ ?_) nofun
      exact (keyByte_ne (hk b List.mem_cons_self)).1 (List.cons_prefix_cons.mp h).1
  | @char c s hquote hback _ ih =>
    cases k with
    | nil => exact iff_of_false (fun h ↦ hquote (List.cons_prefix_cons.mp h).1.symm) nofun
    | cons b k =>
      rw [List.cons_append, List.cons_append, List.cons_prefix_cons, List.cons.injEq,
        ih fun d hd ↦ hk d (List.mem_cons_of_mem b hd), eq_comm (a := b)]
  | @escape c s _ ih =>
    cases k with
    | nil => exact iff_of_false (fun h ↦ nomatch (List.cons_prefix_cons.mp h).1) nofun
    | cons b k =>
      have hback := (keyByte_ne (hk b List.mem_cons_self)).2.1
      exact iff_of_false (fun h ↦ hback (List.cons_prefix_cons.mp h).1) fun h ↦
        hback (List.cons.inj h).1.symm

/-- The search at a quote that is followed by a whole string, or by the rest of one. -/
theorem Json.StrBody.afterFirst_quote {k raw : CStr} (h : StrBody raw)
    (hk : ∀ b ∈ k, isKeyByte b = true) (t : CStr) :
    afterFirst (quoted k) (34 :: (raw ++ 34 :: t))
      = if raw = k then some t else afterFirst (quoted k) (raw ++ 34 :: t) := by
  have hiff : quoted k <+: 34 :: (raw ++ 34 :: t) ↔ raw = k := by
    rw [quoted, List.cons_append, List.cons_prefix_cons, and_iff_right rfl, h.key_prefix_iff hk]
  rw [NetForensics.afterFirst]
  by_cases heq : raw = k
  · have hdrop : (34 :: (raw ++ 34 :: t)).drop (quoted k).length = t := by
      rw [heq]
      simp [quoted]
    rw [if_pos (hiff.mpr heq), if_pos heq, hdrop]
  · rw [if_neg (mt hiff.mp heq), if_neg heq]

/-- The search inside of a string finds what ends in an escaped quote and the key. -/
theorem Json.StrBody.afterFirst {k raw t : CStr} (h : StrBody raw)
    (hk : ∀ b ∈ k, isKeyByte b = true) (ht : ¬ k ++ [34] <+: t) :
    afterFirst (quoted k) (raw ++ 34 :: t)
      = if 34 :: k <:+ raw then some t else NetForensics.afterFirst (quoted k) t := by
  induction h with
  | nil =>
    have hclose : NetForensics.afterFirst (quoted k) (34 :: t)
        = NetForensics.afterFirst (quoted k) t :=
      if_neg fun h ↦ ht (List.cons_prefix_cons.mp h).2
    have hnot : ¬ 34 :: k <:+ [] := fun h ↦ nomatch List.suffix_nil.mp h
    rw [List.nil_append, hclose, if_neg hnot]
  | @char b s hquote _ _ ih =>
    have hsuffix : 34 :: k <:+ b :: s ↔ 34 :: k <:+ s := by
      rw [List.suffix_cons_iff]
      exact or_iff_right fun h ↦ hquote (List.cons.inj h).1.symm
    rw [List.cons_append, afterFirst_cons_of_ne hquote, ih, if_congr hsuffix rfl rfl]
  | @escape c s hs ih =>
    have hsuffix : 34 :: k <:+ 92 :: c :: s ↔ c = 34 ∧ s = k ∨ 34 :: k <:+ s := by
      have hback : ¬ 34 :: k = 92 :: c :: s := fun h ↦ nomatch (List.cons.inj h).1
      rw [List.suffix_cons_iff, or_iff_right hback, List.suffix_cons_iff, List.cons.injEq,
        eq_comm (a := (34 : UInt8)), eq_comm (a := k)]
    rw [List.cons_append, List.cons_append, afterFirst_cons_of_ne (by decide)]
    by_cases hc : c = 34
    · subst hc
      rw [hs.afterFirst_quote hk, ih]
      by_cases heq : s = k
      · rw [if_pos heq, if_pos (hsuffix.mpr (.inl ⟨rfl, heq⟩))]
      · have hrest : 34 :: k <:+ 92 :: 34 :: s ↔ 34 :: k <:+ s :=
          hsuffix.trans (or_iff_right fun h ↦ heq h.2)
        rw [if_neg heq, if_congr hrest rfl rfl]
    · have hrest : 34 :: k <:+ 92 :: c :: s ↔ 34 :: k <:+ s :=
        hsuffix.trans (or_iff_right fun h ↦ hc h.1)
      rw [afterFirst_cons_of_ne hc, ih, if_congr hrest rfl rfl]

theorem Json.StrText.afterFirst (s : StrText) {k t : CStr} (hk : ∀ b ∈ k, isKeyByte b = true)
    (ht : ¬ k ++ [34] <+: t) :
    afterFirst (quoted k) (quoted s.raw ++ t)
      = if FoundIn k s.raw then some t else NetForensics.afterFirst (quoted k) t := by
  have htext : quoted s.raw ++ t = 34 :: (s.raw ++ 34 :: t) := by
    rw [quoted, List.cons_append, List.cons_append, List.append_assoc, List.singleton_append]
  rw [htext, s.body.afterFirst_quote hk, s.body.afterFirst hk ht]
  by_cases heq : s.raw = k
  · have hfound : FoundIn k s.raw := .inl heq
    rw [if_pos heq, if_pos hfound]
  · have hiff : FoundIn k s.raw ↔ 34 :: k <:+ s.raw := or_iff_right heq
    rw [if_neg heq, if_congr hiff rfl rfl]

/-! ## The first string that is found -/

/-- The strings of a member as they are written, with the member whose name it is. -/
def Json.FlatMember.strings (m : FlatMember) : List (CStr × Option FlatMember) :=
  (m.key.raw, some m) :: (m.value.str?.map fun s ↦ (s.raw, none)).toList

/-- The first string of a list of members that is found: `some (some m)` for the name of `m`, and
`some none` for a value. -/
def foundFirst (k : CStr) (ms : List FlatMember) : Option (Option FlatMember) :=
  ((ms.flatMap FlatMember.strings).find? fun p ↦ FoundIn k p.1).map Prod.snd

def Json.FlatObject.found (o : FlatObject) (k : CStr) : Option (Option FlatMember) :=
  foundFirst k o.members

def Follows (t : CStr) : Prop := ∃ u, t = 44 :: u ∨ t = 125 :: u

/-- Where the search ends: behind a name, behind a value, or nowhere. -/
def Lands (f : Option (Option FlatMember)) (r : Option CStr) : Prop :=
  match f with
  | none => r = none
  | some none => ∃ m : FlatMember, ∃ t, Follows t ∧ r = some (m.trail ++ t)
  | some (some m) => ∃ t, Follows t ∧ r = some (m.behindKey ++ t)

theorem not_quote_of_white {w : CStr} (hw : ∀ b ∈ w, Json.isSpace b = true) : 34 ∉ w :=
  fun h ↦ absurd (hw 34 h) (by decide)

theorem Follows.not_key_prefix {k t w : CStr} (ht : Follows t) (hk : ∀ b ∈ k, isKeyByte b = true)
    (hw : ∀ b ∈ w, Json.isSpace b = true) : ¬ k ++ [34] <+: w ++ t := by
  obtain ⟨u, rfl | rfl⟩ := ht
  · exact NetForensics.not_key_prefix (not_quote_of_white hw)
      (fun h ↦ (keyByte_ne (hk 44 h)).2.2.2.1 rfl) (by decide) u
  · exact NetForensics.not_key_prefix (not_quote_of_white hw)
      (fun h ↦ (keyByte_ne (hk 125 h)).2.2.2.2 rfl) (by decide) u

/-- The search over the value of a member, when it is not the string that is found. -/
theorem afterFirst_value (m : FlatMember) {k t : CStr} (hk : ∀ b ∈ k, isKeyByte b = true)
    (ht : Follows t) :
    afterFirst (quoted k) (m.value.text ++ (m.trail ++ t)) =
      if ∃ s ∈ m.value.str?, FoundIn k s.raw then some (m.trail ++ t)
      else afterFirst (quoted k) t := by
  have htrail := not_quote_of_white m.white_trail
  have hother : 34 ∉ m.value.text → m.value.str? = none →
      afterFirst (quoted k) (m.value.text ++ (m.trail ++ t)) =
        if ∃ s ∈ m.value.str?, FoundIn k s.raw then some (m.trail ++ t)
        else afterFirst (quoted k) t := by
    intro hquote hnone
    rw [hnone, afterFirst_append hquote, afterFirst_append htrail, if_neg nofun]
  cases hvalue : m.value with
  | null => exact hvalue ▸ hother (hvalue ▸ by decide) (hvalue ▸ rfl)
  | bool b => exact hvalue ▸ hother (hvalue ▸ by cases b <;> decide) (hvalue ▸ rfl)
  | num n => exact hvalue ▸ hother (hvalue ▸ n.not_quote) (hvalue ▸ rfl)
  | str s =>
    have hiff : (∃ s' ∈ (FlatValue.str s).str?, FoundIn k s'.raw) ↔ FoundIn k s.raw := by
      simp [FlatValue.str?]
    rw [FlatValue.text, s.afterFirst hk (ht.not_key_prefix hk m.white_trail),
      afterFirst_append htrail, if_congr hiff rfl rfl]

theorem foundFirst_cons (k : CStr) (m : FlatMember) (ms : List FlatMember) :
    foundFirst k (m :: ms) =
      if FoundIn k m.key.raw then some (some m)
      else if ∃ s ∈ m.value.str?, FoundIn k s.raw then some none
      else foundFirst k ms := by
  rw [foundFirst, List.flatMap_cons, FlatMember.strings]
  by_cases hkey : FoundIn k m.key.raw
  · rw [List.cons_append, List.find?_cons_of_pos (by simpa using hkey), if_pos hkey]
    rfl
  · rw [List.cons_append, List.find?_cons_of_neg (by simpa using hkey), if_neg hkey]
    cases hstr : m.value.str? with
    | none =>
      rw [if_neg nofun]
      rfl
    | some s =>
      by_cases hs : FoundIn k s.raw
      · have hex : ∃ s' ∈ some s, FoundIn k s'.raw := ⟨s, rfl, hs⟩
        rw [Option.map_some, Option.toList_some, List.singleton_append,
          List.find?_cons_of_pos (by simpa using hs), if_pos hex]
        rfl
      · have hnex : ¬ ∃ s' ∈ some s, FoundIn k s'.raw := by
          rintro ⟨s', hs', hfound⟩
          exact hs (Option.some_inj.mp hs' ▸ hfound)
        rw [Option.map_some, Option.toList_some, List.singleton_append,
          List.find?_cons_of_neg (by simpa using hs), if_neg hnex]
        rfl

theorem afterFirst_member (m : FlatMember) {k t : CStr} (hk : ∀ b ∈ k, isKeyByte b = true)
    (ht : Follows t) :
    afterFirst (quoted k) (m.text ++ t) =
      if FoundIn k m.key.raw then some (m.behindKey ++ t)
      else if ∃ s ∈ m.value.str?, FoundIn k s.raw then some (m.trail ++ t)
      else afterFirst (quoted k) t := by
  have hgap := not_quote_of_white m.white_gap
  have hsep := not_quote_of_white m.white_sep
  have hbehind : m.behindKey ++ t = m.gap ++ 58 :: (m.sep ++ (m.value.text ++ (m.trail ++ t))) := by
    simp only [FlatMember.behindKey, List.append_assoc, List.cons_append]
  have hguard : ¬ k ++ [34] <+: m.behindKey ++ t := by
    rw [hbehind]
    exact not_key_prefix hgap (fun h ↦ (keyByte_ne (hk 58 h)).2.2.1 rfl) (by decide) _
  have hvalue : afterFirst (quoted k) (m.behindKey ++ t) =
      if ∃ s ∈ m.value.str?, FoundIn k s.raw then some (m.trail ++ t)
      else afterFirst (quoted k) t := by
    rw [hbehind, afterFirst_append hgap, afterFirst_cons_of_ne (by decide), afterFirst_append hsep,
      afterFirst_value m hk ht]
  rw [FlatMember.text, List.append_assoc, List.append_assoc,
    afterFirst_append (not_quote_of_white m.white_lead), m.key.afterFirst hk hguard, hvalue]

theorem afterFirst_of_not_mem {k s : CStr} (hs : 34 ∉ s) : afterFirst (quoted k) s = none := by
  have hnil := afterFirst_append (k := k) hs []
  rwa [List.append_nil] at hnil

/-- The search over members lands behind the first string that is found. -/
theorem lands_membersText (ms : List FlatMember) {k w : CStr}
    (hk : ∀ b ∈ k, isKeyByte b = true) (hw : ∀ b ∈ w, Json.isSpace b = true) :
    Lands (foundFirst k ms) (afterFirst (quoted k) (membersText ms (125 :: w))) := by
  have hclose : (34 : UInt8) ∉ 125 :: w := by
    rw [List.mem_cons, not_or]
    exact ⟨by decide, not_quote_of_white hw⟩
  -- one member, with what comes behind it
  have hmember : ∀ (m : FlatMember) (ms : List FlatMember) (t : CStr), Follows t →
      Lands (foundFirst k ms) (afterFirst (quoted k) t) →
      Lands (foundFirst k (m :: ms)) (afterFirst (quoted k) (m.text ++ t)) := by
    intro m ms t ht hrest
    rw [foundFirst_cons, afterFirst_member m hk ht]
    by_cases hkey : FoundIn k m.key.raw
    · rw [if_pos hkey, if_pos hkey]
      exact ⟨t, ht, rfl⟩
    · rw [if_neg hkey, if_neg hkey]
      by_cases hvalue : ∃ s ∈ m.value.str?, FoundIn k s.raw
      · rw [if_pos hvalue, if_pos hvalue]
        exact ⟨m, t, ht, rfl⟩
      · rwa [if_neg hvalue, if_neg hvalue]
  induction ms with
  | nil => exact afterFirst_of_not_mem hclose
  | cons m ms ih =>
    cases ms with
    | nil => exact hmember m [] (125 :: w) ⟨w, .inr rfl⟩ (afterFirst_of_not_mem hclose)
    | cons n ms =>
      refine hmember m (n :: ms) (44 :: membersText (n :: ms) (125 :: w)) ⟨_, .inl rfl⟩ ?_
      rw [afterFirst_cons_of_ne (by decide)]
      exact ih

theorem Json.FlatObject.lands (o : FlatObject) {k : CStr} (hk : ∀ b ∈ k, isKeyByte b = true) :
    Lands (o.found k) (afterFirst (quoted k) o.text) := by
  have hbefore : 34 ∉ o.before := not_quote_of_white fun b hb ↦
    o.white b (List.mem_append_left _ (List.mem_append_left _ hb))
  have hinner : 34 ∉ o.inner := not_quote_of_white fun b hb ↦
    o.white b (List.mem_append_left _ (List.mem_append_right _ hb))
  rw [FlatObject.text, afterFirst_append hbefore, afterFirst_cons_of_ne (by decide),
    afterFirst_append hinner]
  exact lands_membersText o.members hk fun b hb ↦ o.white b (List.mem_append_right _ hb)

/-! ## What stands behind it -/

/-- Only blanks, which the scanner skips, stand before the colon of a member. -/
def Json.FlatMember.BlankGap (m : FlatMember) : Prop := ∀ b ∈ m.gap, isBlank b = true

def Json.FlatMember.BlankColon (m : FlatMember) : Prop := ∀ b ∈ m.gap ++ m.sep, isBlank b = true

instance (m : FlatMember) : Decidable m.BlankGap :=
  inferInstanceAs (Decidable (∀ b ∈ m.gap, isBlank b = true))

instance (m : FlatMember) : Decidable m.BlankColon :=
  inferInstanceAs (Decidable (∀ b ∈ m.gap ++ m.sep, isBlank b = true))

/-- Skipping blanks stops at other white space, if there is some. -/
theorem dropWhile_blank {w : CStr} (hw : ∀ b ∈ w, Json.isSpace b = true) {c : UInt8}
    (hc : isBlank c = false) (s : CStr) :
    (w ++ c :: s).dropWhile isBlank = c :: s ∧ (∀ b ∈ w, isBlank b = true) ∨
      (∃ b t, (w ++ c :: s).dropWhile isBlank = b :: t ∧ Json.isSpace b = true ∧
        isBlank b = false) ∧ ¬ ∀ b ∈ w, isBlank b = true := by
  induction w with
  | nil =>
    refine .inl ⟨?_, fun b hb ↦ absurd hb List.not_mem_nil⟩
    rw [List.nil_append, List.dropWhile_cons_of_neg (by rw [hc]; exact Bool.false_ne_true)]
  | cons b w ih =>
    by_cases hb : isBlank b = true
    · rw [List.cons_append, List.dropWhile_cons_of_pos hb]
      rcases ih fun d hd ↦ hw d (List.mem_cons_of_mem b hd) with ⟨heq, hall⟩ | ⟨hstop, hnot⟩
      · exact .inl ⟨heq, List.forall_mem_cons.mpr ⟨hb, hall⟩⟩
      · exact .inr ⟨hstop, fun hall ↦ hnot (List.forall_mem_cons.mp hall).2⟩
    · refine .inr ⟨⟨b, w ++ c :: s, ?_, hw b List.mem_cons_self, Bool.eq_false_of_not_eq_true hb⟩,
        fun hall ↦ hb (hall b List.mem_cons_self)⟩
      rw [List.cons_append, List.dropWhile_cons_of_neg hb]

theorem jsonValue_of_cons {json : CStr} {key : String} {b : UInt8} {t : CStr}
    (h : (afterFirst (quoted (ascii key)) json).map (List.dropWhile isBlank) = some (b :: t))
    (hb : b ≠ 58) : jsonValue json key = none := by
  rw [jsonValue, h]
  split
  · rename_i rest heq
    exact absurd (List.cons.inj (Option.some_inj.mp heq)).1 hb
  · rfl

theorem jsonValue_of_colon {json : CStr} {key : String} {t : CStr}
    (h : (afterFirst (quoted (ascii key)) json).map (List.dropWhile isBlank) = some (58 :: t)) :
    jsonValue json key = some (t.dropWhile isBlank) := by
  rw [jsonValue, h]
  rfl

private theorem white_ne : ∀ b, Json.isSpace b = true → b ≠ 58 ∧ b ≠ 34 :=
  forall_byte (by decide +kernel)

section Object

variable {o : FlatObject} {key : String}

/-- Where the search does not end behind a name, there is no colon. -/
theorem jsonValue_eq_none (hk : SearchKey key) (h : (o.found (ascii key)).join = none) :
    jsonValue o.text key = none := by
  have hlands := o.lands hk.bytes
  cases hfound : o.found (ascii key) with
  | none =>
    rw [hfound] at hlands
    have hnone : afterFirst (quoted (ascii key)) o.text = none := hlands
    rw [jsonValue, hnone]
    rfl
  | some f =>
    rw [hfound] at hlands h
    obtain rfl : f = none := h
    obtain ⟨m, t, ⟨u, ht⟩, hafter⟩ := hlands
    have hstop : ∀ c, c = 44 ∨ c = 125 → t = c :: u → jsonValue o.text key = none := by
      intro c hc ht
      have hblank : isBlank c = false := by
        rcases hc with rfl | rfl <;> rfl
      have hcolon : c ≠ 58 := by
        rcases hc with rfl | rfl <;> decide
      have hmap : (afterFirst (quoted (ascii key)) o.text).map (List.dropWhile isBlank)
          = some ((m.trail ++ c :: u).dropWhile isBlank) := by
        rw [hafter, ht]
        rfl
      rcases dropWhile_blank m.white_trail hblank u with ⟨heq, -⟩ | ⟨⟨b, s, heq, hb, -⟩, -⟩
      · exact jsonValue_of_cons (hmap.trans (congrArg some heq)) hcolon
      · exact jsonValue_of_cons (hmap.trans (congrArg some heq)) (white_ne b hb).1
    rcases ht with rfl | rfl
    · exact hstop 44 (.inl rfl) rfl
    · exact hstop 125 (.inr rfl) rfl

/-- Behind a name, the value comes if only blanks are before the colon. -/
theorem jsonValue_of_found (hk : SearchKey key) {m : FlatMember}
    (h : (o.found (ascii key)).join = some m) :
    ∃ t, Follows t ∧ jsonValue o.text key =
      if m.BlankGap then some ((m.sep ++ (m.value.text ++ (m.trail ++ t))).dropWhile isBlank)
      else none := by
  have hlands := o.lands hk.bytes
  have hfound : o.found (ascii key) = some (some m) := Option.join_eq_some_iff.mp h
  rw [hfound] at hlands
  obtain ⟨t, ht, hafter⟩ := hlands
  refine ⟨t, ht, ?_⟩
  have hmap : (afterFirst (quoted (ascii key)) o.text).map (List.dropWhile isBlank) = some
      ((m.gap ++ 58 :: (m.sep ++ (m.value.text ++ (m.trail ++ t)))).dropWhile isBlank) := by
    rw [hafter, FlatMember.behindKey]
    simp only [List.append_assoc, List.cons_append, Option.map_some]
  have hcolon : isBlank 58 = false := rfl
  rcases dropWhile_blank m.white_gap hcolon (m.sep ++ (m.value.text ++ (m.trail ++ t))) with
    ⟨heq, hblank⟩ | ⟨⟨b, s, heq, hb, -⟩, hblank⟩
  · have hgap : m.BlankGap := hblank
    rw [if_pos hgap]
    exact jsonValue_of_colon (hmap.trans (congrArg some heq))
  · have hgap : ¬ m.BlankGap := hblank
    rw [if_neg hgap]
    exact jsonValue_of_cons (hmap.trans (congrArg some heq)) (white_ne b hb).1

end Object

/-! ## Strings -/

def dropBackslashes : CStr → CStr
  | [] => []
  | 92 :: c :: s => c :: dropBackslashes s
  | b :: s => b :: dropBackslashes s

theorem dropBackslashes_cons {b : UInt8} (hb : b ≠ 92) (s : CStr) :
    dropBackslashes (b :: s) = b :: dropBackslashes s :=
  dropBackslashes.eq_3 _ _ fun _ _ heq _ ↦ hb heq

theorem Json.StrBody.copyQuoted {raw : CStr} (h : StrBody raw) (room : ℕ) (t : CStr) :
    copyQuoted room (raw ++ 34 :: t) = (dropBackslashes raw).take room := by
  induction h generalizing room with
  | nil => cases room <;> rfl
  | @char b s hquote hback _ ih =>
    cases room with
    | zero => rfl
    | succ room =>
      have hstep : NetForensics.copyQuoted (room + 1) (b :: (s ++ 34 :: t))
          = b :: NetForensics.copyQuoted room (s ++ 34 :: t) :=
        copyQuoted.eq_5 _ _ _ (fun heq ↦ hquote heq) fun _ _ heq _ ↦ hback heq
      rw [List.cons_append, hstep, ih, dropBackslashes_cons hback, List.take_succ_cons]
  | @escape c s _ ih =>
    cases room with
    | zero => rfl
    | succ room =>
      have hstep : NetForensics.copyQuoted (room + 1) (92 :: c :: (s ++ 34 :: t))
          = c :: NetForensics.copyQuoted room (s ++ 34 :: t) := rfl
      rw [List.cons_append, List.cons_append, hstep, ih, dropBackslashes, List.take_succ_cons]

/-- A value that is not a string does not begin with a quote. -/
theorem Json.FlatValue.text_of_not_str {v : FlatValue} (h : v.str? = none) :
    ∃ c r, v.text = c :: r ∧ c ≠ 34 ∧ isBlank c = false := by
  cases v with
  | null => exact ⟨_, _, rfl, by decide, rfl⟩
  | bool b => cases b <;> exact ⟨_, _, rfl, by decide, rfl⟩
  | num t =>
    obtain ⟨d, s, ⟨hlow, hhigh⟩, htext⟩ := t.text_cases
    rcases htext with htext | htext
    · refine ⟨d, s, htext, ?_, ?_⟩
      · rintro rfl
        exact absurd hlow (by decide)
      · rw [isBlank, Bool.or_eq_false_iff]
        constructor
        · exact beq_false_of_ne fun heq ↦ absurd (heq ▸ hlow) (by decide)
        · exact beq_false_of_ne fun heq ↦ absurd (heq ▸ hlow) (by decide)
    · exact ⟨45, d :: s, htext, by decide, rfl⟩
  | str s => exact nomatch h

/-- What `json_get_str` copies: the first string that is found has to be a name, with blanks around
its colon and a string behind it. -/
def Json.FlatObject.strCopied (o : FlatObject) (k : CStr) (n : ℕ) : Option CStr :=
  (o.found k).join.bind fun m ↦
    if m.BlankColon then m.value.str?.map fun s ↦ (dropBackslashes s.raw).take n else none

theorem jsonGetStr_of_cons {json : CStr} {key : String} {c : UInt8} {s : CStr}
    (h : jsonValue json key = some (c :: s)) (hc : c ≠ 34) (outSz : ℕ) :
    jsonGetStr json key outSz = none := by
  rw [jsonGetStr, h]
  split
  · rename_i t heq
    exact absurd (List.cons.inj (Option.some_inj.mp heq)).1 hc
  · rfl

theorem jsonGetStr_text (o : FlatObject) {key : String} (hk : SearchKey key) (n : ℕ) :
    jsonGetStr o.text key (n + 1) = o.strCopied (ascii key) n := by
  rw [FlatObject.strCopied]
  cases hfound : (o.found (ascii key)).join with
  | none =>
    rw [jsonGetStr, jsonValue_eq_none hk hfound]
    rfl
  | some m =>
    obtain ⟨t, ht, hvalue⟩ := jsonValue_of_found hk hfound
    rw [Option.bind_some]
    by_cases hgap : m.BlankGap
    · rw [if_pos hgap] at hvalue
      have hcolon : m.BlankColon ↔ ∀ b ∈ m.sep, isBlank b = true :=
        ⟨fun h b hb ↦ h b (List.mem_append_right _ hb), fun h b hb ↦
          (List.mem_append.mp hb).elim (hgap b) (h b)⟩
      cases hstr : m.value.str? with
      | none =>
        obtain ⟨c, r, htext, hc, hblank⟩ := FlatValue.text_of_not_str hstr
        have hnone : jsonGetStr o.text key (n + 1) = none := by
          rw [htext, List.cons_append] at hvalue
          rcases dropWhile_blank m.white_sep hblank (r ++ (m.trail ++ t)) with
            ⟨heq, -⟩ | ⟨⟨b, u, heq, hb, -⟩, -⟩
          · exact jsonGetStr_of_cons (hvalue.trans (congrArg some heq)) hc _
          · exact jsonGetStr_of_cons (hvalue.trans (congrArg some heq)) (white_ne b hb).2 _
        rw [hnone, Option.map_none, ite_self]
      | some s =>
        have htext : m.value.text ++ (m.trail ++ t) = 34 :: (s.raw ++ 34 :: (m.trail ++ t)) := by
          rw [FlatValue.str?_eq_some_iff.mp hstr, FlatValue.text, quoted, List.cons_append,
            List.cons_append, List.append_assoc, List.singleton_append]
        rw [htext] at hvalue
        have hblank : isBlank 34 = false := rfl
        rcases dropWhile_blank m.white_sep hblank (s.raw ++ 34 :: (m.trail ++ t)) with
          ⟨heq, hsep⟩ | ⟨⟨b, u, heq, hb, -⟩, hsep⟩
        · rw [heq] at hvalue
          rw [if_pos (hcolon.mpr hsep), jsonGetStr, hvalue, Option.map_some,
            ← s.body.copyQuoted n (m.trail ++ t)]
          rfl
        · rw [if_neg (mt hcolon.mp hsep)]
          exact jsonGetStr_of_cons (hvalue.trans (congrArg some heq)) (white_ne b hb).2 _
    · have hcolon : ¬ m.BlankColon := fun h ↦ hgap fun b hb ↦ h b (List.mem_append_left _ hb)
      rw [if_neg hgap] at hvalue
      rw [if_neg hcolon, jsonGetStr, hvalue]

/-! ## Numbers -/

private theorem isSpace_of_blank : ∀ b, isBlank b = true → NetForensics.isSpace b = true :=
  forall_byte (by decide +kernel)

private theorem isSpace_of_white : ∀ b, Json.isSpace b = true → NetForensics.isSpace b = true :=
  forall_byte (by decide +kernel)

private theorem digit_not_space : ∀ b, isDigit b = true →
    NetForensics.isSpace b = false ∧ b ≠ 45 ∧ b ≠ 43 :=
  forall_byte (by decide +kernel)

private theorem digit_not_white : ∀ b, Json.isSpace b = true ∨ b = 44 ∨ b = 125 →
    isDigit b = false :=
  forall_byte (by decide +kernel)

theorem strtoull_white {w : CStr} (hw : ∀ b ∈ w, Json.isSpace b = true) (s : CStr) :
    strtoull ((w ++ s).dropWhile isBlank) = strtoull s := by
  have hwhite : (w ++ s).dropWhile NetForensics.isSpace = s.dropWhile NetForensics.isSpace := by
    induction w with
    | nil => rfl
    | cons b w ih =>
      rw [List.cons_append,
        List.dropWhile_cons_of_pos (isSpace_of_white b (hw b List.mem_cons_self)),
        ih fun c hc ↦ hw c (List.mem_cons_of_mem b hc)]
  have hblanks : ∀ x : CStr, (x.dropWhile isBlank).dropWhile NetForensics.isSpace
      = x.dropWhile NetForensics.isSpace := by
    intro x
    induction x with
    | nil => rfl
    | cons b x ih =>
      by_cases hb : isBlank b = true
      · rw [List.dropWhile_cons_of_pos hb, ih, List.dropWhile_cons_of_pos (isSpace_of_blank b hb)]
      · rw [List.dropWhile_cons_of_neg hb]
  rw [strtoull, strtoull, hblanks, hwhite]

theorem takeSign_digit {d : UInt8} (hd : isDigit d = true) (s : CStr) :
    takeSign ((d :: s).dropWhile NetForensics.isSpace) = (false, d :: s) := by
  obtain ⟨hspace, hminus, hplus⟩ := digit_not_space d hd
  rw [List.dropWhile_cons_of_neg (by rw [hspace]; exact Bool.false_ne_true)]
  exact takeSign.eq_3 _ (fun _ heq ↦ hminus (List.cons.inj heq).1) fun _ heq ↦
    hplus (List.cons.inj heq).1

theorem takeSign_number {x : CStr} {d : UInt8} {s : CStr} (hd : isDigit d = true)
    (hx : x = d :: s ∨ x = 45 :: d :: s) :
    ∃ neg, ∀ u, takeSign ((x ++ u).dropWhile NetForensics.isSpace) = (neg, d :: (s ++ u)) := by
  rcases hx with rfl | rfl
  · exact ⟨false, fun u ↦ takeSign_digit hd (s ++ u)⟩
  · exact ⟨true, fun u ↦ rfl⟩

theorem strtoull_append {x u : CStr} {d : UInt8} {s : CStr} (hd : isDigit d = true)
    (hx : x = d :: s ∨ x = 45 :: d :: s) (hu : ∀ b ∈ u.head?, isDigit b = false) :
    (strtoull (x ++ u)).map Prod.fst = (strtoull x).map Prod.fst ∧ strtoull x ≠ none := by
  obtain ⟨neg, hsign⟩ := takeSign_number hd hx
  have hnil := hsign []
  rw [List.append_nil, List.append_nil] at hnil
  have hdigits : (d :: (s ++ u)).takeWhile isDigit = (d :: s).takeWhile isDigit := by
    have hstop : u.takeWhile isDigit = [] := by
      cases u with
      | nil => rfl
      | cons b u =>
        have hb := hu b rfl
        exact List.takeWhile_cons_of_neg (by rw [hb]; exact Bool.false_ne_true)
    rw [← List.cons_append, List.takeWhile_append, hstop, List.append_nil]
    split
    · rename_i hlen
      exact ((List.takeWhile_prefix isDigit).eq_of_length hlen).symm
    · rfl
  have hne : (d :: s).takeWhile isDigit ≠ [] := by
    rw [List.takeWhile_cons_of_pos hd]
    exact List.cons_ne_nil _ _
  constructor
  · rw [strtoull, strtoull, hsign, hnil]
    dsimp only
    rw [hdigits, if_neg hne, if_neg hne]
    rfl
  · rw [strtoull, hnil]
    dsimp only
    rw [if_neg hne]
    exact Option.some_ne_none _

/-- The number that is read off a number as it is written. -/
def numberRead (t : NumText) : ℕ := ((strtoull t.text).map Prod.fst).getD 0

theorem strtoull_number (t : NumText) {u : CStr} (hu : ∀ b ∈ u.head?, isDigit b = false) :
    (strtoull (t.text ++ u)).map Prod.fst = some (numberRead t) := by
  obtain ⟨d, s, hd, htext⟩ := t.text_cases
  have hdigit : isDigit d = true := by
    rw [isDigit, Bool.and_eq_true, decide_eq_true_iff, decide_eq_true_iff]
    exact hd
  obtain ⟨heq, hne⟩ := strtoull_append hdigit htext hu
  obtain ⟨r, hr⟩ := Option.ne_none_iff_exists'.mp hne
  rw [heq, numberRead, hr]
  rfl

theorem strtoull_other {v : FlatValue} (h : v.num? = none) (u : CStr) :
    strtoull (v.text ++ u) = none := by
  cases v with
  | null => rfl
  | bool b => cases b <;> rfl
  | num t => exact nomatch h
  | str s => rfl

/-- What `json_get_u32` reads: the first string that is found has to be a name, with blanks before
its colon and a number behind it. -/
def Json.FlatObject.numberTaken (o : FlatObject) (k : CStr) : Option UInt32 :=
  (o.found k).join.bind fun m ↦
    if m.BlankGap then m.value.num?.map fun t ↦ UInt32.ofNat (numberRead t) else none

theorem jsonGetU32_text (o : FlatObject) {key : String} (hk : SearchKey key) :
    jsonGetU32 o.text key = o.numberTaken (ascii key) := by
  rw [FlatObject.numberTaken]
  cases hfound : (o.found (ascii key)).join with
  | none =>
    rw [jsonGetU32, jsonValue_eq_none hk hfound]
    rfl
  | some m =>
    obtain ⟨t, ⟨u, ht⟩, hvalue⟩ := jsonValue_of_found hk hfound
    rw [Option.bind_some]
    by_cases hgap : m.BlankGap
    · have hhead : ∀ b ∈ (m.trail ++ t).head?, isDigit b = false := by
        intro b hb
        refine digit_not_white b ?_
        cases htrail : m.trail with
        | nil =>
          rw [htrail, List.nil_append] at hb
          rcases ht with rfl | rfl
          · exact .inr (.inl (Option.some_inj.mp hb).symm)
          · exact .inr (.inr (Option.some_inj.mp hb).symm)
        | cons c w =>
          rw [htrail] at hb
          have hc : c ∈ m.trail := htrail ▸ List.mem_cons_self
          exact .inl (Option.some_inj.mp hb ▸ m.white_trail c hc)
      rw [if_pos hgap] at hvalue ⊢
      rw [jsonGetU32, hvalue, Option.bind_some, strtoull_white m.white_sep]
      cases hnum : m.value.num? with
      | none =>
        rw [strtoull_other hnum]
        rfl
      | some n =>
        obtain ⟨⟨v, rest⟩, hread, rfl⟩ := Option.map_eq_some_iff.mp (strtoull_number n hhead)
        rw [FlatValue.num?_eq_some_iff.mp hnum, FlatValue.text, hread]
        rfl
    · rw [if_neg hgap] at hvalue ⊢
      rw [jsonGetU32, hvalue]
      rfl

/-! ## Members by their key -/

def Json.FlatObject.lookup (o : FlatObject) (k : CStr) : Option FlatValue :=
  (o.members.find? fun m ↦ m.key.value = k).map FlatMember.value

/-- The string that is bound to a key, as much of it as there is room for. -/
def Json.FlatObject.stringMember (o : FlatObject) (k : CStr) (n : ℕ) : Option CStr :=
  ((o.lookup k).bind FlatValue.str?).map fun s ↦ s.value.take n

/-- The unsigned number of 32 bits that is bound to a key. -/
def Json.FlatObject.numberMember (o : FlatObject) (k : CStr) : Option UInt32 :=
  ((o.lookup k).bind FlatValue.num?).bind fun t ↦
    (readDecimal t.text).bind fun n ↦ if n < 2 ^ 32 then some (UInt32.ofNat n) else none

/-- The search for a string finds the right text, or none if there is none to be found. -/
structure StringFound (o : FlatObject) (k : CStr) (n : ℕ) : Prop where
  bound : ∀ s, (o.lookup k).bind FlatValue.str? = some s → ∃ m t, o.found k = some (some m) ∧
    m.BlankColon ∧ m.value = .str t ∧ (dropBackslashes t.raw).take n = s.value.take n
  unbound : (o.lookup k).bind FlatValue.str? = none → ∀ m, o.found k = some (some m) →
    m.BlankColon → m.value.str? = none

/-- The search for a number finds the right one, or none if there is none to be found. -/
structure NumberFound (o : FlatObject) (k : CStr) : Prop where
  bound : ∀ v, o.numberMember k = some v → ∃ m t, o.found k = some (some m) ∧
    m.BlankGap ∧ m.value = .num t ∧ UInt32.ofNat (numberRead t) = v
  unbound : o.numberMember k = none → ∀ m, o.found k = some (some m) → m.BlankGap →
    m.value.num? = none

section Object

variable {o : FlatObject} {k : CStr}

theorem strCopied_eq_some_iff {n : ℕ} {x : CStr} :
    o.strCopied k n = some x ↔ ∃ m t, o.found k = some (some m) ∧ m.BlankColon ∧
      m.value = .str t ∧ (dropBackslashes t.raw).take n = x := by
  simp only [FlatObject.strCopied, Option.bind_eq_some_iff, Option.join_eq_some_iff,
    Option.ite_none_right_eq_some, Option.map_eq_some_iff, FlatValue.str?_eq_some_iff]
  constructor
  · rintro ⟨m, hm, hblank, t, ht, heq⟩
    exact ⟨m, t, hm, hblank, ht, heq⟩
  · rintro ⟨m, t, hm, hblank, ht, heq⟩
    exact ⟨m, hm, hblank, t, ht, heq⟩

theorem numberTaken_eq_some_iff {v : UInt32} :
    o.numberTaken k = some v ↔ ∃ m t, o.found k = some (some m) ∧ m.BlankGap ∧
      m.value = .num t ∧ UInt32.ofNat (numberRead t) = v := by
  simp only [FlatObject.numberTaken, Option.bind_eq_some_iff, Option.join_eq_some_iff,
    Option.ite_none_right_eq_some, Option.map_eq_some_iff, FlatValue.num?_eq_some_iff]
  constructor
  · rintro ⟨m, hm, hblank, t, ht, heq⟩
    exact ⟨m, t, hm, hblank, ht, heq⟩
  · rintro ⟨m, t, hm, hblank, ht, heq⟩
    exact ⟨m, hm, hblank, t, ht, heq⟩

theorem strCopied_eq_none_iff {n : ℕ} :
    o.strCopied k n = none ↔ ∀ m, o.found k = some (some m) → m.BlankColon →
      m.value.str? = none := by
  rw [FlatObject.strCopied, Option.bind_eq_none_iff]
  refine forall_congr' fun m ↦ ?_
  rw [Option.join_eq_some_iff, ite_eq_right_iff, Option.map_eq_none_iff]

theorem numberTaken_eq_none_iff :
    o.numberTaken k = none ↔ ∀ m, o.found k = some (some m) → m.BlankGap →
      m.value.num? = none := by
  rw [FlatObject.numberTaken, Option.bind_eq_none_iff]
  refine forall_congr' fun m ↦ ?_
  rw [Option.join_eq_some_iff, ite_eq_right_iff, Option.map_eq_none_iff]

theorem strCopied_iff (n : ℕ) : o.strCopied k n = o.stringMember k n ↔ StringFound o k n := by
  rw [FlatObject.stringMember]
  cases hbound : (o.lookup k).bind FlatValue.str? with
  | none =>
    rw [Option.map_none, strCopied_eq_none_iff]
    exact ⟨fun h ↦ ⟨fun s hs ↦ (nomatch hbound.symm.trans hs), fun _ ↦ h⟩, fun h ↦ h.unbound hbound⟩
  | some s =>
    rw [Option.map_some, strCopied_eq_some_iff]
    refine ⟨fun h ↦ ⟨fun s' hs ↦ ?_, fun hnone ↦ nomatch hbound.symm.trans hnone⟩, fun h ↦
      h.bound s hbound⟩
    obtain rfl := Option.some_inj.mp (hbound.symm.trans hs)
    exact h

theorem numberTaken_iff : o.numberTaken k = o.numberMember k ↔ NumberFound o k := by
  cases hbound : o.numberMember k with
  | none =>
    rw [numberTaken_eq_none_iff]
    exact ⟨fun h ↦ ⟨fun v hv ↦ (nomatch hbound.symm.trans hv), fun _ ↦ h⟩, fun h ↦ h.unbound hbound⟩
  | some v =>
    rw [numberTaken_eq_some_iff]
    refine ⟨fun h ↦ ⟨fun v' hv ↦ ?_, fun hnone ↦ nomatch hbound.symm.trans hnone⟩, fun h ↦
      h.bound v hbound⟩
    obtain rfl := Option.some_inj.mp (hbound.symm.trans hv)
    exact h

end Object

/-! ## Objects of plain strings -/

/-- No backslashes, only blanks around the colons, and no other value is the key. -/
structure PlainFor (o : FlatObject) (k : CStr) : Prop where
  names : ∀ m ∈ o.members, Plain m.key.raw
  values : ∀ m ∈ o.members, ∀ s, m.value = .str s → Plain s.raw ∧ s.raw ≠ k
  blanks : ∀ m ∈ o.members, m.BlankColon

theorem Json.StrText.value_of_plain {s : StrText} (h : Plain s.raw) : s.value = s.raw :=
  (Prod.mk.inj (Option.some_inj.mp (s.decodes.symm.trans (run_of_plain h)))).2

theorem foundIn_of_plain {k raw : CStr} (h : Plain raw) : FoundIn k raw ↔ raw = k :=
  or_iff_left fun hsuffix ↦ (h 34 (hsuffix.subset List.mem_cons_self)).2.1 rfl

theorem dropBackslashes_of_plain {s : CStr} (h : Plain s) : dropBackslashes s = s := by
  induction s with
  | nil => rfl
  | cons b s ih =>
    rw [dropBackslashes_cons (h b List.mem_cons_self).2.2,
      ih fun c hc ↦ h c (List.mem_cons_of_mem b hc)]

/-- The first string that is found is the name of the member that is asked for. -/
theorem PlainFor.found {o : FlatObject} {k : CStr} (h : PlainFor o k) :
    o.found k = (o.members.find? fun m ↦ m.key.value = k).map some := by
  have hmembers : ∀ ms : List FlatMember, (∀ m ∈ ms, m ∈ o.members) →
      foundFirst k ms = (ms.find? fun m ↦ m.key.value = k).map some := by
    intro ms
    induction ms with
    | nil => exact fun _ ↦ rfl
    | cons m ms ih =>
      intro hms
      have hm := hms m List.mem_cons_self
      have hkey : FoundIn k m.key.raw ↔ m.key.value = k := by
        rw [foundIn_of_plain (h.names m hm), StrText.value_of_plain (h.names m hm)]
      have hvalue : ¬ ∃ s ∈ m.value.str?, FoundIn k s.raw := by
        rintro ⟨s, hs, hfound⟩
        obtain ⟨hplain, hne⟩ := h.values m hm s (FlatValue.str?_eq_some_iff.mp hs)
        exact hne ((foundIn_of_plain hplain).mp hfound)
      rw [foundFirst_cons, if_neg hvalue]
      by_cases heq : m.key.value = k
      · rw [if_pos (hkey.mpr heq), List.find?_cons_of_pos (by simpa using heq)]
        rfl
      · rw [if_neg (mt hkey.mp heq), List.find?_cons_of_neg (by simpa using heq)]
        exact ih fun n hn ↦ hms n (List.mem_cons_of_mem m hn)
  exact hmembers o.members fun m hm ↦ hm

theorem PlainFor.member {o : FlatObject} {k : CStr} (h : PlainFor o k) {v : FlatValue}
    (hv : o.lookup k = some v) :
    ∃ m ∈ o.members, m.value = v ∧ o.found k = some (some m) := by
  obtain ⟨m, hm, rfl⟩ := Option.map_eq_some_iff.mp hv
  refine ⟨m, List.mem_of_find?_eq_some hm, rfl, ?_⟩
  rw [h.found, hm]
  rfl

theorem PlainFor.lookup_of_found {o : FlatObject} {k : CStr} (h : PlainFor o k) {m : FlatMember}
    (hm : o.found k = some (some m)) : o.lookup k = some m.value := by
  rw [h.found] at hm
  obtain ⟨n, hn, hnm⟩ := Option.map_eq_some_iff.mp hm
  rw [FlatObject.lookup, hn, Option.some_inj.mp hnm]
  rfl

theorem PlainFor.stringFound {o : FlatObject} {k : CStr} (h : PlainFor o k) (n : ℕ) :
    StringFound o k n where
  bound := by
    intro s hs
    obtain ⟨v, hv, hstr⟩ := Option.bind_eq_some_iff.mp hs
    obtain ⟨m, hm, rfl, hfound⟩ := h.member hv
    have hvalue := FlatValue.str?_eq_some_iff.mp hstr
    have hplain := (h.values m hm s hvalue).1
    refine ⟨m, s, hfound, h.blanks m hm, hvalue, ?_⟩
    rw [dropBackslashes_of_plain hplain, StrText.value_of_plain hplain]
  unbound := by
    intro hnone m hm _
    rwa [h.lookup_of_found hm] at hnone

/-- A number is read as it is written, if it has 64 bits and no sign. -/
theorem strtoull_of_readDecimal {s : CStr} {n : ℕ} (h : readDecimal s = some n) (hn : n < 2 ^ 64) :
    strtoull s = some (n, []) := by
  obtain ⟨⟨hne, hall⟩, hfold⟩ := Option.ite_none_right_eq_some.mp h
  have hdigits : ∀ b ∈ s, isDigit b = true := by
    intro b hb
    obtain ⟨hlow, hhigh⟩ := hall b hb
    rw [isDigit, Bool.and_eq_true, decide_eq_true_iff, decide_eq_true_iff]
    exact ⟨UInt8.le_iff_toNat_le.mpr hlow, UInt8.le_iff_toNat_le.mpr hhigh⟩
  have hsign : takeSign (s.dropWhile NetForensics.isSpace) = (false, s) := by
    obtain ⟨d, t, rfl⟩ := List.exists_cons_of_ne_nil hne
    exact takeSign_digit (hdigits d List.mem_cons_self) t
  rw [strtoull, hsign]
  dsimp only
  rw [List.takeWhile_eq_self_iff.mpr hdigits, List.dropWhile_eq_nil_iff.mpr hdigits, if_neg hne,
    Option.some_inj.mp hfold, if_neg (Nat.not_le_of_lt hn)]
  rfl

theorem numberRead_of_readDecimal {t : NumText} {n : ℕ} (h : readDecimal t.text = some n)
    (hn : n < 2 ^ 64) : numberRead t = n := by
  rw [numberRead, strtoull_of_readDecimal h hn]
  rfl

theorem PlainFor.numberFound {o : FlatObject} {k : CStr} (h : PlainFor o k)
    (hnumbers : ∀ t, o.lookup k = some (.num t) → ∃ n < 2 ^ 32, readDecimal t.text = some n) :
    NumberFound o k where
  bound := by
    intro v hv
    obtain ⟨t, ht, hread⟩ := Option.bind_eq_some_iff.mp hv
    obtain ⟨w, hw, hnum⟩ := Option.bind_eq_some_iff.mp ht
    obtain rfl := FlatValue.num?_eq_some_iff.mp hnum
    obtain ⟨m, hm, hvalue, hfound⟩ := h.member hw
    obtain ⟨n, hn, htaken⟩ := Option.bind_eq_some_iff.mp hread
    obtain ⟨hlt, heq⟩ := Option.ite_none_right_eq_some.mp htaken
    refine ⟨m, t, hfound, fun b hb ↦ h.blanks m hm b (List.mem_append_left _ hb), hvalue, ?_⟩
    rw [numberRead_of_readDecimal hn (hlt.trans (by decide))]
    exact Option.some_inj.mp heq
  unbound := by
    intro hnone m hm _
    have hlookup := h.lookup_of_found hm
    by_contra hsome
    obtain ⟨t, ht⟩ := Option.ne_none_iff_exists'.mp hsome
    have hvalue := FlatValue.num?_eq_some_iff.mp ht
    rw [hvalue] at hlookup
    obtain ⟨n, hn, hread⟩ := hnumbers t hlookup
    have hsome : o.numberMember k = some (UInt32.ofNat n) := by
      rw [FlatObject.numberMember, hlookup, Option.bind_some, FlatValue.num?, Option.bind_some,
        hread, Option.bind_some, if_pos hn]
    exact nomatch hnone.symm.trans hsome

/-- Members are looked up by their key exactly when the first string that is found is the name of
the right one, or of one with the same text or number, and when nothing that can be copied or read
is found in place of a member that is not there. -/
theorem jsonGet_members_iff (o : FlatObject) {key : String} (hk : SearchKey key) :
    (∀ n, jsonGetStr o.text key (n + 1) = o.stringMember (ascii key) n ↔
      StringFound o (ascii key) n) ∧
    (jsonGetU32 o.text key = o.numberMember (ascii key) ↔ NumberFound o (ascii key)) := by
  refine ⟨fun n ↦ ?_, ?_⟩
  · rw [jsonGetStr_text o hk, strCopied_iff]
  · rw [jsonGetU32_text o hk, numberTaken_iff]

def plainText (s : String) (h : Plain (ascii s)) : StrText := ⟨ascii s, ascii s, run_of_plain h⟩

def tightMember (key : StrText) (value : FlatValue) : FlatMember :=
  ⟨[], key, [], [], value, [], fun _ hb ↦ absurd hb List.not_mem_nil⟩

def pollRequest : FlatObject where
  before := []
  inner := []
  members :=
    [tightMember (plainText "op" (by decide)) (.str (plainText "tcp_poll" (by decide))),
     tightMember (plainText "max" (by decide))
       (.num ⟨ascii "16", 49, [54], .int, .int, rfl, rfl, rfl, rfl⟩)]
  after := []
  white := fun _ hb ↦ absurd hb List.not_mem_nil
  distinct := by decide

theorem jsonGet_members_poll :
    jsonGetStr pollRequest.text "op" 48 = pollRequest.stringMember (ascii "op") 47 ∧
      jsonGetU32 pollRequest.text "max" = pollRequest.numberMember (ascii "max") := by
  have hplain : ∀ k, k ≠ ascii "tcp_poll" → PlainFor pollRequest k := by
    intro k hk
    refine ⟨?_, ?_, ?_⟩
    · simp only [pollRequest, List.forall_mem_cons]
      exact ⟨by decide, by decide, List.forall_mem_nil _⟩
    · simp only [pollRequest, List.forall_mem_cons]
      refine ⟨?_, nofun, List.forall_mem_nil _⟩
      rintro s hs
      obtain rfl := FlatValue.str.inj hs
      exact ⟨by decide, hk.symm⟩
    · simp only [pollRequest, List.forall_mem_cons]
      exact ⟨by decide, by decide, List.forall_mem_nil _⟩
  have hop := (@jsonGet_members_iff pollRequest "op" ⟨by decide, by decide⟩).1 47
  have hmax := (@jsonGet_members_iff pollRequest "max" ⟨by decide, by decide⟩).2
  refine ⟨hop.mpr ((hplain _ (by decide)).stringFound 47), hmax.mpr
    ((hplain _ (by decide)).numberFound ?_)⟩
  intro t ht
  have hlookup : (pollRequest.lookup (ascii "max")).bind FlatValue.num?
      = some ⟨ascii "16", 49, [54], .int, .int, rfl, rfl, rfl, rfl⟩ := rfl
  rw [ht, Option.bind_some, FlatValue.num?, Option.some_inj] at hlookup
  rw [hlookup]
  exact ⟨16, by decide, by decide⟩

def valueFirst : FlatObject where
  before := []
  inner := []
  members :=
    [tightMember (plainText "cmd" (by decide)) (.str (plainText "op" (by decide))),
     tightMember (plainText "op" (by decide)) (.str (plainText "ping" (by decide)))]
  after := []
  white := fun _ hb ↦ absurd hb List.not_mem_nil
  distinct := by decide

/-- The operation is there, but it is not found. -/
theorem jsonGetStr_misses_op :
    jsonGetStr valueFirst.text "op" 48 = none ∧
      valueFirst.stringMember (ascii "op") 47 = some (ascii "ping") := by
  decide

end NetForensics

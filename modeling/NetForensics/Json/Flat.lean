import NetForensics.Json.Print

/-!
# Flat objects

An object whose members are strings, numbers and literals, as a text: every string as it is
written, and white space wherever the grammar has it. Such a text reads back as the object
(`FlatObject.parse_text`).

For a program that looks into the text without reading it, what counts is where the quotes are. In a
string as it is written every quote and every backslash is behind a backslash (`StrBody`).
-/

namespace NetForensics

namespace Json

/-! ## The texts -/

/-- A string as it is written, and what it stands for. -/
structure StrText where
  raw : CStr
  value : CStr
  decodes : StrState.body.run raw = some (.body, value)

def NumState.run : NumState → CStr → Option NumState
  | st, [] => some st
  | st, b :: s => (st.step b).bind fun st ↦ st.run s

/-- A number as it is written. -/
structure NumText where
  text : CStr
  valid : ∃ b s st st', text = b :: s ∧ NumState.start b = some st ∧ NumState.run st s = some st' ∧
    st'.final = true

/-- A value that is neither an array nor an object. -/
inductive FlatValue where
  | null
  | bool (b : Bool)
  | num (t : NumText)
  | str (s : StrText)

def FlatValue.text : FlatValue → CStr
  | null => ascii "null"
  | bool b => if b then ascii "true" else ascii "false"
  | num t => t.text
  | str s => quoted s.raw

def FlatValue.str? : FlatValue → Option StrText
  | str s => some s
  | _ => none

def FlatValue.num? : FlatValue → Option NumText
  | num t => some t
  | _ => none

theorem FlatValue.str?_eq_some_iff {v : FlatValue} {s : StrText} :
    v.str? = some s ↔ v = .str s := by
  cases v with
  | str t => exact Option.some_inj.trans (FlatValue.str.injEq t s).symm.to_iff
  | _ => exact iff_of_false nofun nofun

theorem FlatValue.num?_eq_some_iff {v : FlatValue} {t : NumText} :
    v.num? = some t ↔ v = .num t := by
  cases v with
  | num s => exact Option.some_inj.trans (FlatValue.num.injEq s t).symm.to_iff
  | _ => exact iff_of_false nofun nofun

def FlatValue.toJson : FlatValue → Json
  | null => .null
  | bool b => .bool b
  | num t => .num t.text
  | str s => .str s.value

/-- A member, with the white space before and behind its name, and before and behind its value. -/
structure FlatMember where
  lead : CStr
  key : StrText
  gap : CStr
  sep : CStr
  value : FlatValue
  trail : CStr
  white : ∀ b ∈ lead ++ gap ++ sep ++ trail, isSpace b = true

def FlatMember.behindKey (m : FlatMember) : CStr :=
  m.gap ++ 58 :: (m.sep ++ (m.value.text ++ m.trail))

def FlatMember.entry (m : FlatMember) : CStr × Json := (m.key.value, m.value.toJson)

def FlatMember.text (m : FlatMember) : CStr := m.lead ++ (quoted m.key.raw ++ m.behindKey)

/-- The members, separated by commas, and what follows them. -/
def membersText : List FlatMember → CStr → CStr
  | [], close => close
  | [m], close => m.text ++ close
  | m :: n :: ms, close => m.text ++ 44 :: membersText (n :: ms) close

/-- An object with pairwise distinct names. -/
structure FlatObject where
  before : CStr
  inner : CStr
  members : List FlatMember
  after : CStr
  white : ∀ b ∈ before ++ inner ++ after, isSpace b = true
  distinct : (members.map fun m ↦ m.key.value).Nodup

def FlatObject.text (o : FlatObject) : CStr :=
  o.before ++ 123 :: (o.inner ++ membersText o.members (125 :: o.after))

def FlatObject.toJson (o : FlatObject) : Json := .obj (o.members.map FlatMember.entry)

/-! ## They read back -/

theorem reads_str (s : StrText) : Reads (quoted s.raw) (.str s.value) := by
  intro stack
  refine ⟨⟨.after (.str s.value), stack⟩, ?_, Or.inl rfl⟩
  rw [quoted, List.cons_append, Reader.run_cons_of_eq (q := ⟨.str .body [], stack⟩) rfl,
    Reader.run_append_of_eq (Reader.run_str s.decodes [] stack)]
  rfl

theorem run_num {st st' : NumState} {s : CStr} (h : st.run s = some st') (acc : CStr)
    (stack : List Frame) :
    Reader.run ⟨.num st acc, stack⟩ s = some ⟨.num st' (acc ++ s), stack⟩ := by
  induction s generalizing st acc with
  | nil =>
    rw [Option.some_inj.mp h, List.append_nil]
    rfl
  | cons b s ih =>
    obtain ⟨st₁, hstep, hrest⟩ := Option.bind_eq_some_iff.mp h
    have hone : Reader.step ⟨.num st acc, stack⟩ b = some ⟨.num st₁ (acc ++ [b]), stack⟩ := by
      rw [Reader.step]
      dsimp only
      rw [hstep]
    rw [Reader.run_cons_of_eq hone, ih hrest, List.append_assoc, List.singleton_append]

private theorem start_eq_none : ∀ b, b = 34 ∨ b = 123 ∨ b = 91 ∨ b = 110 ∨ b = 116 ∨ b = 102 ∨
    isSpace b = true → NumState.start b = none :=
  forall_byte (by decide +kernel)

theorem reads_num (t : NumText) : Reads t.text (.num t.text) := by
  obtain ⟨b, s, st, st', htext, hstart, hrun, hfinal⟩ := t.valid
  have hother : ¬ (b = 34 ∨ b = 123 ∨ b = 91 ∨ b = 110 ∨ b = 116 ∨ b = 102 ∨
      isSpace b = true) := by
    intro h
    rw [start_eq_none b h] at hstart
    exact nomatch hstart
  simp only [not_or] at hother
  obtain ⟨hquote, hbrace, hbracket, hnull, htrue, hfalse, hspace⟩ := hother
  intro stack
  have hfirst : Reader.step ⟨.value, stack⟩ b = some ⟨.num st [b], stack⟩ := by
    rw [Reader.step]
    dsimp only
    rw [if_neg hspace, Reader.startValue, if_neg hquote, if_neg hbrace, if_neg hbracket,
      if_neg hnull, if_neg htrue, if_neg hfalse, hstart]
    rfl
  refine ⟨⟨.num st' t.text, stack⟩, ?_, Or.inr ⟨st', t.text, rfl, hfinal, rfl⟩⟩
  rw [htext, Reader.run_cons_of_eq hfirst, run_num hrun]
  rfl

private theorem numStep_quote : ∀ b, b = 34 → ∀ st : NumState, st.step b = none := by
  rintro b rfl st
  cases st <;> decide

theorem NumText.not_quote (t : NumText) : 34 ∉ t.text := by
  have hrun : ∀ {s : CStr} {st st' : NumState}, st.run s = some st' → 34 ∉ s := by
    intro s
    induction s with
    | nil => exact fun _ ↦ List.not_mem_nil
    | cons b s ih =>
      intro st st' h
      obtain ⟨st₁, hstep, hrest⟩ := Option.bind_eq_some_iff.mp h
      rw [List.mem_cons, not_or]
      refine ⟨fun hb ↦ ?_, ih hrest⟩
      rw [numStep_quote b hb.symm st] at hstep
      exact nomatch hstep
  obtain ⟨b, s, st, st', htext, hstart, hrest, -⟩ := t.valid
  rw [htext, List.mem_cons, not_or]
  refine ⟨fun hb ↦ ?_, hrun hrest⟩
  rw [start_eq_none b (.inl hb.symm)] at hstart
  exact nomatch hstart

theorem NumText.text_cases (t : NumText) :
    ∃ d s, (48 ≤ d ∧ d ≤ 57) ∧ (t.text = d :: s ∨ t.text = 45 :: d :: s) := by
  obtain ⟨b, s, st, st', htext, hstart, hrest, hfinal⟩ := t.valid
  by_cases hminus : b = 45
  · subst hminus
    obtain rfl : NumState.minus = st := Option.some_inj.mp hstart
    cases s with
    | nil =>
      obtain rfl : NumState.minus = st' := Option.some_inj.mp hrest
      exact Bool.noConfusion hfinal
    | cons d s =>
      obtain ⟨st₁, hstep, -⟩ := Option.bind_eq_some_iff.mp hrest
      refine ⟨d, s, ?_, .inr htext⟩
      rw [NumState.step] at hstep
      by_cases hzero : d = 48
      · subst hzero
        decide
      · rw [if_neg hzero] at hstep
        obtain ⟨⟨hlow, hhigh⟩, -⟩ := Option.ite_none_right_eq_some.mp hstep
        exact ⟨UInt8.le_trans (by decide) hlow, hhigh⟩
  · refine ⟨b, s, ?_, .inl htext⟩
    rw [NumState.start, if_neg hminus] at hstart
    by_cases hzero : b = 48
    · subst hzero
      decide
    · rw [if_neg hzero] at hstart
      obtain ⟨⟨hlow, hhigh⟩, -⟩ := Option.ite_none_right_eq_some.mp hstart
      exact ⟨UInt8.le_trans (by decide) hlow, hhigh⟩

theorem FlatValue.reads (v : FlatValue) : Reads v.text v.toJson := by
  cases v with
  | null => exact reads_null
  | bool b =>
    cases b with
    | true => exact reads_true
    | false => exact reads_false
  | num t => exact reads_num t
  | str s => exact reads_str s

theorem Reader.run_white {r : Reader} {w : CStr} (hw : ∀ b ∈ w, isSpace b = true)
    (h : ∀ b, isSpace b = true → r.step b = some r) : r.run w = some r := by
  induction w with
  | nil => rfl
  | cons b w ih =>
    rw [Reader.run_cons_of_eq (h b (hw b List.mem_cons_self)),
      ih fun c hc ↦ hw c (List.mem_cons_of_mem b hc)]

theorem Reader.step_after {stack : List Frame} {v : Json} {b : UInt8} (hb : isSpace b = true) :
    Reader.step ⟨.after v, stack⟩ b = some ⟨.after v, stack⟩ := by
  rw [Reader.step]
  exact if_pos hb

private theorem numStep_white : ∀ b, isSpace b = true → ∀ st : NumState, st.step b = none := by
  refine forall_byte ?_
  intro n hn st
  cases st <;> revert n <;> decide +kernel

theorem Reader.Ends.run_white {r : Reader} {stack : List Frame} {v : Json} (h : r.Ends stack v)
    {w : CStr} (hw : ∀ b ∈ w, isSpace b = true) : ∃ q, r.run w = some q ∧ q.Ends stack v := by
  cases w with
  | nil => exact ⟨r, rfl, h⟩
  | cons b w =>
    have hb := hw b List.mem_cons_self
    have hstep : r.step b = some ⟨.after v, stack⟩ := by
      rcases h with rfl | ⟨st, acc, rfl, hfinal, rfl⟩
      · exact Reader.step_after hb
      · rw [Reader.step]
        dsimp only
        rw [numStep_white b hb st]
        dsimp only
        rw [if_pos hfinal]
        exact Reader.step_after hb
    refine ⟨_, ?_, Or.inl rfl⟩
    rw [Reader.run_cons_of_eq hstep]
    exact Reader.run_white (fun c hc ↦ hw c (List.mem_cons_of_mem b hc)) fun c hc ↦
      Reader.step_after hc

theorem run_keyStr {st st' : StrState} {s out : CStr} (h : st.run s = some (st', out))
    (done : List (CStr × Json)) (acc : CStr) (stack : List Frame) :
    Reader.run ⟨.keyStr done st acc, stack⟩ s = some ⟨.keyStr done st' (acc ++ out), stack⟩ := by
  induction s generalizing st acc out with
  | nil =>
    obtain ⟨rfl, rfl⟩ := Prod.mk.inj (Option.some_inj.mp h)
    rw [List.append_nil]
    rfl
  | cons b s ih =>
    obtain ⟨⟨st₁, out₁⟩, hstep, hrest⟩ := Option.bind_eq_some_iff.mp h
    obtain ⟨⟨st₂, out₂⟩, hrun, heq⟩ := Option.map_eq_some_iff.mp hrest
    obtain ⟨rfl, rfl⟩ := Prod.mk.inj heq
    have hquote : ¬ (st = .body ∧ b = 34) := by
      rintro ⟨rfl, rfl⟩
      exact nomatch hstep
    have hone : Reader.step ⟨.keyStr done st acc, stack⟩ b
        = some ⟨.keyStr done st₁ (acc ++ out₁), stack⟩ := by
      rw [Reader.step]
      dsimp only
      rw [if_neg hquote, hstep]
      rfl
    rw [Reader.run_cons_of_eq hone, ih hrun, List.append_assoc]

theorem FlatMember.white_lead (m : FlatMember) : ∀ b ∈ m.lead, isSpace b = true := fun b hb ↦
  m.white b (List.mem_append_left _ (List.mem_append_left _ (List.mem_append_left _ hb)))

theorem FlatMember.white_gap (m : FlatMember) : ∀ b ∈ m.gap, isSpace b = true := fun b hb ↦
  m.white b (List.mem_append_left _ (List.mem_append_left _ (List.mem_append_right _ hb)))

theorem FlatMember.white_sep (m : FlatMember) : ∀ b ∈ m.sep, isSpace b = true := fun b hb ↦
  m.white b (List.mem_append_left _ (List.mem_append_right _ hb))

theorem FlatMember.white_trail (m : FlatMember) : ∀ b ∈ m.trail, isSpace b = true := fun b hb ↦
  m.white b (List.mem_append_right _ hb)

theorem FlatMember.text_eq (m : FlatMember) :
    m.text = m.lead ++ 34 :: (m.key.raw ++ 34 :: m.behindKey) := by
  rw [FlatMember.text, quoted, List.cons_append, List.cons_append, List.append_assoc,
    List.singleton_append]

private theorem step_white {mode : Mode} (h : mode = .keyOrEnd ∨ (∃ done, mode = .key done) ∨
    (∃ done key, mode = .colon done key) ∨ mode = .value) (stack : List Frame) {b : UInt8}
    (hb : isSpace b = true) : Reader.step ⟨mode, stack⟩ b = some ⟨mode, stack⟩ := by
  rcases h with rfl | ⟨done, rfl⟩ | ⟨done, key, rfl⟩ | rfl <;> exact if_pos hb

theorem run_flatMember (m : FlatMember) (done : List (CStr × Json)) (stack : List Frame) :
    ∃ r, Reader.run ⟨.key done, stack⟩ m.text = some r ∧
      r.Ends (.obj done m.key.value :: stack) m.value.toJson := by
  obtain ⟨r, hvalue, hends⟩ := m.value.reads (.obj done m.key.value :: stack)
  obtain ⟨q, htrail, hq⟩ := hends.run_white m.white_trail
  refine ⟨q, ?_, hq⟩
  have hlead : Reader.run ⟨.key done, stack⟩ m.lead = some ⟨.key done, stack⟩ :=
    Reader.run_white m.white_lead fun b hb ↦ step_white (.inr (.inl ⟨done, rfl⟩)) stack hb
  have hgap : Reader.run ⟨.colon done m.key.value, stack⟩ m.gap
      = some ⟨.colon done m.key.value, stack⟩ :=
    Reader.run_white m.white_gap fun b hb ↦
      step_white (.inr (.inr (.inl ⟨done, m.key.value, rfl⟩))) stack hb
  have hsep : Reader.run ⟨.value, .obj done m.key.value :: stack⟩ m.sep
      = some ⟨.value, .obj done m.key.value :: stack⟩ :=
    Reader.run_white m.white_sep fun b hb ↦ step_white (.inr (.inr (.inr rfl))) _ hb
  rw [FlatMember.text_eq, Reader.run_append_of_eq hlead,
    Reader.run_cons_of_eq (q := ⟨.keyStr done .body [], stack⟩) rfl,
    Reader.run_append_of_eq (run_keyStr m.key.decodes done [] stack), List.nil_append,
    Reader.run_cons_of_eq (q := ⟨.colon done m.key.value, stack⟩) rfl, FlatMember.behindKey,
    Reader.run_append_of_eq hgap,
    Reader.run_cons_of_eq (q := ⟨.value, .obj done m.key.value :: stack⟩) rfl,
    Reader.run_append_of_eq hsep, Reader.run_append_of_eq hvalue, htrail]

/-- The members from the one at hand, up to the closing brace. -/
theorem run_membersText (m : FlatMember) (ms : List FlatMember) (done : List (CStr × Json))
    (stack : List Frame) (after : CStr) :
    Reader.run ⟨.key done, stack⟩ (membersText (m :: ms) (125 :: after))
      = Reader.run ⟨.after (.obj (done ++ (m :: ms).map FlatMember.entry)), stack⟩ after := by
  induction ms generalizing m done with
  | nil =>
    obtain ⟨r, hrun, hends⟩ := run_flatMember m done stack
    have hclose : r.step 125 = some ⟨.after (.obj (done ++ [m.entry])), stack⟩ := by
      rw [hends.step (Or.inr (Or.inr rfl))]
      rfl
    rw [membersText, Reader.run_append_of_eq hrun, Reader.run_cons_of_eq hclose]
    rfl
  | cons n ms ih =>
    obtain ⟨r, hrun, hends⟩ := run_flatMember m done stack
    have hcomma : r.step 44 = some ⟨.key (done ++ [m.entry]), stack⟩ := by
      rw [hends.step (Or.inl rfl)]
      rfl
    rw [membersText, Reader.run_append_of_eq hrun, Reader.run_cons_of_eq hcomma, ih,
      List.append_assoc]
    rfl

/-- Behind an opening brace a name is read as it is behind a comma. -/
private theorem run_keyOrEnd {w : CStr} (hw : ∀ b ∈ w, isSpace b = true) (t : CStr)
    (stack : List Frame) :
    Reader.run ⟨.keyOrEnd, stack⟩ (w ++ 34 :: t) = Reader.run ⟨.key [], stack⟩ (w ++ 34 :: t) := by
  have hopen : Reader.run ⟨.keyOrEnd, stack⟩ w = some ⟨.keyOrEnd, stack⟩ :=
    Reader.run_white hw fun b hb ↦ step_white (.inl rfl) stack hb
  have hkey : Reader.run ⟨.key [], stack⟩ w = some ⟨.key [], stack⟩ :=
    Reader.run_white hw fun b hb ↦ step_white (.inr (.inl ⟨[], rfl⟩)) stack hb
  rw [Reader.run_append_of_eq hopen, Reader.run_append_of_eq hkey]
  rfl

theorem membersText_eq (m : FlatMember) (ms : List FlatMember) (close : CStr) :
    ∃ t, membersText (m :: ms) close = m.lead ++ 34 :: t := by
  cases ms with
  | nil =>
    refine ⟨m.key.raw ++ 34 :: m.behindKey ++ close, ?_⟩
    rw [membersText, FlatMember.text_eq, List.append_assoc, List.cons_append]
  | cons n ms =>
    refine ⟨m.key.raw ++ 34 :: m.behindKey ++ 44 :: membersText (n :: ms) close, ?_⟩
    rw [membersText, FlatMember.text_eq, List.append_assoc, List.cons_append]

theorem FlatObject.parse_text (o : FlatObject) : parse o.text = some o.toJson := by
  have hbefore : Reader.run ⟨.value, []⟩ o.before = some ⟨.value, []⟩ :=
    Reader.run_white (fun b hb ↦ o.white b (List.mem_append_left _ (List.mem_append_left _ hb)))
      fun b hb ↦ step_white (.inr (.inr (.inr rfl))) [] hb
  have hinner : Reader.run ⟨.keyOrEnd, []⟩ o.inner = some ⟨.keyOrEnd, []⟩ :=
    Reader.run_white (fun b hb ↦ o.white b (List.mem_append_left _ (List.mem_append_right _ hb)))
      fun b hb ↦ step_white (.inl rfl) [] hb
  have hafter : Reader.run ⟨.after o.toJson, []⟩ o.after = some ⟨.after o.toJson, []⟩ :=
    Reader.run_white (fun b hb ↦ o.white b (List.mem_append_right _ hb)) fun b hb ↦
      Reader.step_after hb
  have hmembers : Reader.run ⟨.keyOrEnd, []⟩ (membersText o.members (125 :: o.after))
      = Reader.run ⟨.after o.toJson, []⟩ o.after := by
    rw [FlatObject.toJson]
    cases o.members with
    | nil => rfl
    | cons m ms =>
      obtain ⟨t, ht⟩ := membersText_eq m ms (125 :: o.after)
      rw [ht, run_keyOrEnd m.white_lead, ← ht, run_membersText, List.nil_append]
  rw [parse, FlatObject.text, Reader.run_append_of_eq hbefore,
    Reader.run_cons_of_eq (q := ⟨.keyOrEnd, []⟩) rfl, Reader.run_append_of_eq hinner, hmembers,
    hafter]
  rfl

/-! ## Quotes in a string as it is written -/

/-- A string as it is written: every quote and every backslash is behind a backslash. -/
inductive StrBody : CStr → Prop
  | nil : StrBody []
  | char {b : UInt8} {s : CStr} (hquote : b ≠ 34) (hback : b ≠ 92) (hs : StrBody s) :
      StrBody (b :: s)
  | escape {c : UInt8} {s : CStr} (hs : StrBody s) : StrBody (92 :: c :: s)

def StrState.Escaping : StrState → Prop
  | .esc | .lowUni _ => True
  | _ => False

private theorem hexVal_quote : ∀ b, b = 34 ∨ b = 92 → hexVal b = none :=
  forall_byte (by decide +kernel)

private theorem codeUnit_not_escaping {high : Option ℕ} {unit : ℕ} {st : StrState} {out : CStr}
    (h : codeUnit high unit = some (st, out)) : ¬ st.Escaping := by
  cases high with
  | none =>
    rw [codeUnit] at h
    split at h
    · exact (Prod.mk.inj (Option.some_inj.mp h)).1 ▸ id
    · split at h
      · contradiction
      · exact (Prod.mk.inj (Option.some_inj.mp h)).1 ▸ id
  | some high =>
    rw [codeUnit] at h
    split at h
    · exact (Prod.mk.inj (Option.some_inj.mp h)).1 ▸ id
    · contradiction

/-- A backslash is followed by any byte; outside of such a pair there is no quote. -/
theorem StrState.step_escaping {st st' : StrState} {b : UInt8} {out : CStr}
    (h : st.step b = some (st', out)) :
    st.Escaping ∧ ¬ st'.Escaping ∨
      ¬ st.Escaping ∧ b ≠ 34 ∧ (b = 92 ∧ st'.Escaping ∨ b ≠ 92 ∧ ¬ st'.Escaping) := by
  cases st with
  | body =>
    refine .inr ⟨id, ?_⟩
    rw [StrState.step] at h
    split at h
    · contradiction
    · rename_i hchar
      refine ⟨fun heq ↦ hchar (.inl heq), ?_⟩
      split at h
      · rename_i hback
        exact .inl ⟨hback, (Prod.mk.inj (Option.some_inj.mp h)).1 ▸ trivial⟩
      · rename_i hback
        exact .inr ⟨hback, (Prod.mk.inj (Option.some_inj.mp h)).1 ▸ id⟩
  | esc =>
    refine .inl ⟨trivial, ?_⟩
    rw [StrState.step] at h
    split at h
    · exact (Prod.mk.inj (Option.some_inj.mp h)).1 ▸ id
    · obtain ⟨c, -, heq⟩ := Option.map_eq_some_iff.mp h
      exact (Prod.mk.inj heq).1 ▸ id
  | uni high digits acc =>
    obtain ⟨d, hd, hrest⟩ := Option.bind_eq_some_iff.mp h
    have hhex : ¬ (b = 34 ∨ b = 92) := by
      intro hb
      rw [hexVal_quote b hb] at hd
      contradiction
    refine .inr ⟨id, fun heq ↦ hhex (.inl heq), .inr ⟨fun heq ↦ hhex (.inr heq), ?_⟩⟩
    split at hrest
    · exact (Prod.mk.inj (Option.some_inj.mp hrest)).1 ▸ id
    · exact codeUnit_not_escaping hrest
  | lowEsc high =>
    obtain ⟨hb, heq⟩ := Option.ite_none_right_eq_some.mp h
    refine .inr ⟨id, ?_, .inl ⟨hb, (Prod.mk.inj (Option.some_inj.mp heq)).1 ▸ trivial⟩⟩
    exact hb ▸ by decide
  | lowUni high =>
    obtain ⟨-, heq⟩ := Option.ite_none_right_eq_some.mp h
    exact .inl ⟨trivial, (Prod.mk.inj (Option.some_inj.mp heq)).1 ▸ id⟩

theorem strBody_of_run {st : StrState} {s out : CStr} (h : st.run s = some (.body, out)) :
    (¬ st.Escaping → StrBody s) ∧ (st.Escaping → ∃ c t, s = c :: t ∧ StrBody t) := by
  induction s generalizing st out with
  | nil =>
    obtain ⟨rfl, -⟩ := Prod.mk.inj (Option.some_inj.mp h)
    exact ⟨fun _ ↦ .nil, fun hesc ↦ hesc.elim⟩
  | cons b s ih =>
    obtain ⟨⟨st₁, out₁⟩, hstep, hrest⟩ := Option.bind_eq_some_iff.mp h
    obtain ⟨⟨st₂, out₂⟩, hrun, heq⟩ := Option.map_eq_some_iff.mp hrest
    obtain ⟨rfl, -⟩ := Prod.mk.inj heq
    obtain ⟨hplain, hescape⟩ := ih hrun
    rcases StrState.step_escaping hstep with ⟨hesc, hnext⟩ | ⟨hesc, hquote, hnext⟩
    · exact ⟨fun hnot ↦ absurd hesc hnot, fun _ ↦ ⟨b, s, rfl, hplain hnext⟩⟩
    · refine ⟨fun _ ↦ ?_, fun hyes ↦ absurd hyes hesc⟩
      rcases hnext with ⟨rfl, hnext⟩ | ⟨hback, hnext⟩
      · obtain ⟨c, t, rfl, ht⟩ := hescape hnext
        exact .escape ht
      · exact .char hquote hback (hplain hnext)

theorem StrText.body (s : StrText) : StrBody s.raw := (strBody_of_run s.decodes).1 id

end Json

end NetForensics

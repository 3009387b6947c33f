import NetForensics.Json.Raw

/-!
# Lines with strings that are not escaped

A formatter prints an object on one line, member by member. Most members read back whatever they
stand next to: they are `Sound`. A string that is printed between quotes as it is need not be. What
counts then is where it leaves the reader: the text around it is right again exactly when the reader
is inside a string once more, with the same objects open (`Resumes`).
-/

namespace NetForensics

namespace Json

/-! ## Members that read back -/

/-- Printable ASCII without quotes and backslashes, as the names of members are. -/
def Safe (s : CStr) : Prop := ∀ b ∈ s, 32 ≤ b ∧ b < 128 ∧ b ≠ 34 ∧ b ≠ 92

instance (s : CStr) : Decidable (Safe s) := inferInstanceAs (Decidable (∀ b ∈ s, _))

theorem Safe.plain {s : CStr} (h : Safe s) : Plain s := fun b hb ↦ ⟨(h b hb).1, (h b hb).2.2⟩

theorem Safe.clean {s : CStr} (h : Safe s) : Clean s :=
  clean_of_printable fun b hb ↦ ⟨(h b hb).1, (h b hb).2.1⟩

theorem safe_nil : Safe [] := fun _ h ↦ absurd h List.not_mem_nil

theorem Safe.append {s t : CStr} (hs : Safe s) (ht : Safe t) : Safe (s ++ t) := by
  intro b hb
  rcases List.mem_append.mp hb with h | h
  · exact hs b h
  · exact ht b h

theorem Safe.cons {b : UInt8} {s : CStr} (hb : 32 ≤ b ∧ b < 128 ∧ b ≠ 34 ∧ b ≠ 92) (hs : Safe s) :
    Safe (b :: s) := by
  intro c hc
  rcases List.mem_cons.mp hc with rfl | h
  · exact hb
  · exact hs c h

theorem Safe.copyStr {s : CStr} (h : Safe s) (size : ℕ) : Safe (copyStr size s) :=
  fun b hb ↦ h b (List.mem_of_mem_take hb)

theorem safe_of_token {s : CStr} (h : Token s) : Safe s :=
  fun b hb ↦ ⟨(plain_of_token h b hb).1, h.lt hb, (plain_of_token h b hb).2⟩

/-- Letters, digits, and the marks in addresses, prefixes and time stamps. -/
def isWordByte (b : UInt8) : Bool := (45 ≤ b && b ≤ 58) || (65 ≤ b && b ≤ 90) || (97 ≤ b && b ≤ 122)

def Word (s : CStr) : Prop := ∀ b ∈ s, isWordByte b = true

instance (s : CStr) : Decidable (Word s) := inferInstanceAs (Decidable (∀ b ∈ s, _))

theorem isWordByte_spec {b : UInt8} (h : isWordByte b = true) :
    (32 ≤ b ∧ b < 128 ∧ b ≠ 34 ∧ b ≠ 92) ∧ b ≠ 123 ∧ b ≠ 125 ∧ b ≠ 91 ∧ b ≠ 93 := by
  exact forall_byte (P := fun b ↦ isWordByte b = true →
    (32 ≤ b ∧ b < 128 ∧ b ≠ 34 ∧ b ≠ 92) ∧ b ≠ 123 ∧ b ≠ 125 ∧ b ≠ 91 ∧ b ≠ 93)
    (by decide +kernel) b h

theorem Word.safe {s : CStr} (h : Word s) : Safe s := fun b hb ↦ (isWordByte_spec (h b hb)).1

theorem word_nil : Word [] := fun _ h ↦ absurd h List.not_mem_nil

theorem Word.append {s t : CStr} (hs : Word s) (ht : Word t) : Word (s ++ t) := by
  intro b hb
  rcases List.mem_append.mp hb with h | h
  · exact hs b h
  · exact ht b h

theorem Word.cons {b : UInt8} {s : CStr} (hb : isWordByte b = true) (hs : Word s) :
    Word (b :: s) := by
  intro c hc
  rcases List.mem_cons.mp hc with rfl | h
  · exact hb
  · exact hs c h

theorem Word.copyStr {s : CStr} (h : Word s) (size : ℕ) : Word (copyStr size s) :=
  fun b hb ↦ h b (List.mem_of_mem_take hb)

theorem word_of_token {s : CStr} (h : Token s) : Word s := by
  intro b hb
  exact forall_byte (P := fun b ↦ isToken b = true → isWordByte b = true) (by decide +kernel) b
    (h b hb)

/-- A member that reads back, on a clean line. -/
structure Sound (m : String × CStr) : Prop where
  name : Safe (ascii m.1)
  reads : ∃ v, Reads m.2 v
  clean : Clean m.2

theorem sound_quoted {name : String} (hname : Safe (ascii name)) {s : CStr} (hs : Plain s)
    (hclean : Clean s) : Sound (name, quoted s) :=
  ⟨hname, ⟨_, reads_quoted hs⟩, (clean_quoted_iff s).mpr hclean⟩

theorem sound_safe {name : String} (hname : Safe (ascii name)) {s : CStr} (hs : Safe s) :
    Sound (name, quoted s) :=
  sound_quoted hname hs.plain hs.clean

theorem sound_decimal {name : String} (hname : Safe (ascii name)) (n : ℕ) :
    Sound (name, decimal n) :=
  ⟨hname, ⟨_, reads_decimal n⟩, clean_of_token (token_decimal n)⟩

theorem token_fixed (k : ℕ) (q : ℚ) : Token (fixed k q) :=
  (token_decimal _).append (Token.cons (by decide) (token_zeroPad (token_decimal _)))

theorem sound_fixed {name : String} (hname : Safe (ascii name)) (k : ℕ) (q : ℚ) :
    Sound (name, fixed k q) :=
  ⟨hname, ⟨_, reads_fixed k q⟩, clean_of_token (token_fixed k q)⟩

/-- `true` or `false`. -/
def boolText (b : Bool) : CStr := if b then ascii "true" else ascii "false"

theorem reads_boolText (b : Bool) : Reads (boolText b) (.bool b) := by
  cases b with
  | true => exact reads_true
  | false => exact reads_false

theorem sound_bool {name : String} (hname : Safe (ascii name)) (b : Bool) :
    Sound (name, boolText b) := by
  have hclean : Clean (boolText b) := by
    cases b <;> exact clean_of_printable (by decide)
  exact ⟨hname, ⟨_, reads_boolText b⟩, hclean⟩

theorem sound_null {name : String} (hname : Safe (ascii name)) : Sound (name, ascii "null") :=
  have hclean : Clean (ascii "null") := clean_of_printable (by decide)
  ⟨hname, ⟨_, reads_null⟩, hclean⟩

theorem exists_memberReads {ms : List (String × CStr)} (h : ∀ m ∈ ms, Sound m) :
    ∃ kvs, List.Forall₂ MemberReads ms kvs := by
  induction ms with
  | nil => exact ⟨[], .nil⟩
  | cons m ms ih =>
    obtain ⟨v, hv⟩ := (h m List.mem_cons_self).reads
    obtain ⟨kvs, hkvs⟩ := ih fun n hn ↦ h n (List.mem_cons_of_mem m hn)
    exact ⟨(ascii m.1, v) :: kvs, .cons ⟨rfl, (h m List.mem_cons_self).name.plain, hv⟩ hkvs⟩

theorem clean_of_sound {ms : List (String × CStr)} (h : ∀ m ∈ ms, Sound m) :
    Clean (memberList ms) :=
  clean_memberList fun m hm ↦ ⟨(h m hm).name.clean, (h m hm).clean⟩

theorem sound_object {name : String} (hname : Safe (ascii name)) {ms : List (String × CStr)}
    (h : ∀ m ∈ ms, Sound m) : Sound (name, object ms) := by
  obtain ⟨kvs, hkvs⟩ := exists_memberReads h
  exact ⟨hname, ⟨_, reads_object hkvs⟩, (clean_object_iff ms).mpr (clean_of_sound h)⟩

theorem clean_array {ss : List CStr} (h : ∀ s ∈ ss, Clean s) : Clean (array ss) := by
  have hmark : ∀ b : UInt8, 32 ≤ b ∧ b < 128 → Clean [b] := fun b hb ↦
    clean_of_printable fun c hc ↦ List.mem_singleton.mp hc ▸ hb
  have hlist : Clean (elemList ss) := by
    induction ss with
    | nil => exact clean_of_printable (by decide)
    | cons s ss ih =>
      have hs := h s List.mem_cons_self
      cases ss with
      | nil => exact hs
      | cons t ss =>
        exact (clean_append_cons_iff (by decide) _ _).mpr
          ⟨hs, ih fun u hu ↦ h u (List.mem_cons_of_mem s hu)⟩
  exact ((hmark 91 (by decide)).append hlist).append (hmark 93 (by decide))

theorem reads_rows {rows : List (List (String × CStr))} (h : ∀ ms ∈ rows, ∀ m ∈ ms, Sound m) :
    ∃ vs, Reads (array (rows.map object)) (.arr vs) ∧ vs.length = rows.length := by
  obtain ⟨vs, hvs⟩ : ∃ vs, List.Forall₂ Reads (rows.map object) vs := by
    induction rows with
    | nil => exact ⟨[], .nil⟩
    | cons ms rows ih =>
      obtain ⟨kvs, hkvs⟩ := exists_memberReads (h ms List.mem_cons_self)
      obtain ⟨vs, hvs⟩ := ih fun ns hns ↦ h ns (List.mem_cons_of_mem ms hns)
      exact ⟨.obj kvs :: vs, .cons (reads_object hkvs) hvs⟩
  refine ⟨vs, reads_array hvs ?_, ?_⟩
  · intro s hs
    obtain ⟨ms, -, rfl⟩ := List.mem_map.mp hs
    exact ⟨_, Or.inl rfl⟩
  · rw [← hvs.length_eq, List.length_map]

theorem clean_rows {rows : List (List (String × CStr))} (h : ∀ ms ∈ rows, ∀ m ∈ ms, Sound m) :
    Clean (array (rows.map object)) := by
  refine clean_array fun s hs ↦ ?_
  obtain ⟨ms, hms, rfl⟩ := List.mem_map.mp hs
  exact (clean_object_iff ms).mpr (clean_of_sound (h ms hms))

/-- The names an object is read with are those it was printed with. -/
theorem names_of_memberReads {ms : List (String × CStr)} {kvs : List (CStr × Json)}
    (h : List.Forall₂ MemberReads ms kvs) {name : CStr} (hms : ∀ m ∈ ms, ascii m.1 ≠ name) :
    ∀ kv ∈ kvs, kv.1 ≠ name := by
  induction h with
  | nil => exact fun kv hkv ↦ absurd hkv List.not_mem_nil
  | @cons m kv ms kvs hhead _ ih =>
    intro kv' hkv'
    rcases List.mem_cons.mp hkv' with rfl | hmem
    · rw [hhead.1]
      exact hms m List.mem_cons_self
    · exact ih (fun n hn ↦ hms n (List.mem_cons_of_mem m hn)) kv' hmem

theorem membersOf_eq_nil {name : CStr} {kvs : List (CStr × Json)} (h : ∀ kv ∈ kvs, kv.1 ≠ name) :
    membersOf name (.obj kvs) = [] := by
  have happ : membersOf name (.obj (kvs ++ [])) = membersOf name (.obj []) := membersOf_append h
  rwa [List.append_nil] at happ

/-! ## The line as a whole -/

/-- One line with one object on it, in which the member `name` is there once and is the string
`s`. -/
def Carries (line : CStr) (name : String) (s : CStr) : Prop :=
  ∃ ms, IsJsonLine line (.obj ms) ∧ membersOf (ascii name) (.obj ms) = [.str s]

/-- One line with one object on it that has no member `name`. -/
def Lacks (line : CStr) (name : String) : Prop :=
  ∃ ms, IsJsonLine line (.obj ms) ∧ membersOf (ascii name) (.obj ms) = []

theorem lacks_of_sound {ms : List (String × CStr)} (h : ∀ m ∈ ms, Sound m) {name : String}
    (hname : ∀ m ∈ ms, ascii m.1 ≠ ascii name) : Lacks (object ms) name := by
  obtain ⟨kvs, hkvs⟩ := exists_memberReads h
  exact ⟨kvs, ⟨(clean_object_iff ms).mpr (clean_of_sound h), (reads_object hkvs).parse⟩,
    membersOf_eq_nil (names_of_memberReads hkvs hname)⟩

/-- The first byte of a name that can follow neither a value nor a name. -/
def isLetter (c : UInt8) : Bool := 97 ≤ c && c ≤ 122

theorem isLetter_spec {c : UInt8} (h : isLetter c = true) :
    isSpace c = false ∧ c ≠ 44 ∧ c ≠ 125 ∧ c ≠ 93 ∧ c ≠ 58 := by
  exact forall_byte (P := fun c ↦ isLetter c = true →
    isSpace c = false ∧ c ≠ 44 ∧ c ≠ 125 ∧ c ≠ 93 ∧ c ≠ 58) (by decide +kernel) c h

def Lettered (name : String) : Prop := ∃ c ∈ (ascii name).head?, isLetter c = true

theorem Lettered.eq_cons {name : String} (h : Lettered name) :
    ∃ c cs, ascii name = c :: cs ∧ isLetter c = true := by
  obtain ⟨c, hc, hletter⟩ := h
  obtain ⟨cs, hcs⟩ := List.head?_eq_some_iff.mp (Option.mem_def.mp hc)
  exact ⟨c, cs, hcs, hletter⟩

instance (name : String) : Decidable (Lettered name) :=
  inferInstanceAs (Decidable (∃ c ∈ (ascii name).head?, isLetter c = true))

/-- One string that is not escaped, after members that are sound. -/
theorem carries_iff {pre : List (String × CStr)} {name : String} {s : CStr} {m : String × CStr}
    {rest : List (String × CStr)} (hpre : ∀ m ∈ pre, Sound m) (hne : pre ≠ [])
    (hkeys : ∀ m ∈ pre, ascii m.1 ≠ ascii name) (hname : Safe (ascii name)) (hm : Lettered m.1) :
    Carries (object (pre ++ (name, quoted s) :: m :: rest)) name s ↔
      Plain s ∧ ValidUtf8 s ∧ Lacks (object (m :: rest)) name := by
  obtain ⟨kvs, hkvs⟩ := exists_memberReads hpre
  obtain ⟨c, cs, hcs, hc⟩ := hm.eq_cons
  obtain ⟨hspace, hcomma, hbrace, -⟩ := isLetter_spec hc
  exact raw_member_iff hkvs hne (clean_of_sound hpre) (names_of_memberReads hkvs hkeys)
    ⟨hname.plain, hname.clean⟩ hcs ⟨hspace, hcomma, hbrace⟩

/-! ## Leading the reader back -/

/-- The reader is not waiting for a quote as part of a literal. -/
def Reader.LitOk (r : Reader) : Prop := ∀ rest v, r.mode = .lit rest v → (34 : UInt8) ∉ rest

theorem Reader.litOk_startValue {stack : List Frame} {b : UInt8} {r : Reader}
    (h : startValue stack b = some r) : r.LitOk := by
  intro rest v hmode
  rw [startValue] at h
  split_ifs at h
  · rw [Option.some_inj] at h
    exact absurd (h ▸ hmode) (by simp)
  · rw [Option.some_inj] at h
    exact absurd (h ▸ hmode) (by simp)
  · rw [Option.some_inj] at h
    exact absurd (h ▸ hmode) (by simp)
  · rw [Option.some_inj] at h
    rw [← h, Mode.lit.injEq] at hmode
    rw [← hmode.1]
    decide
  · rw [Option.some_inj] at h
    rw [← h, Mode.lit.injEq] at hmode
    rw [← hmode.1]
    decide
  · rw [Option.some_inj] at h
    rw [← h, Mode.lit.injEq] at hmode
    rw [← hmode.1]
    decide
  · obtain ⟨st, -, rfl⟩ := Option.map_eq_some_iff.mp h
    exact absurd hmode (by simp)

theorem Reader.litOk_afterValue {stack : List Frame} {v : Json} {b : UInt8} {r : Reader}
    (h : afterValue stack v b = some r) : r.LitOk := by
  intro rest w hmode
  unfold afterValue at h
  split at h
  · rw [Option.some_inj] at h
    exact absurd (h ▸ hmode) (by simp)
  · split at h
    · exact absurd h (by simp)
    · split_ifs at h <;> rw [Option.some_inj] at h <;> exact absurd (h ▸ hmode) (by simp)
    · split_ifs at h <;> rw [Option.some_inj] at h <;> exact absurd (h ▸ hmode) (by simp)

theorem Reader.LitOk.step {r q : Reader} (hr : r.LitOk) {b : UInt8} (h : r.step b = some q) :
    q.LitOk := by
  obtain ⟨mode, stack⟩ := r
  have hother : ∀ {mode' : Mode}, (∀ rest v, mode' ≠ .lit rest v) → Reader.LitOk ⟨mode', stack⟩ :=
    fun hne rest v hmode ↦ absurd hmode (hne rest v)
  rw [Reader.step] at h
  cases mode with
  | value =>
    dsimp only at h
    split at h
    · exact Option.some_inj.mp h ▸ hr
    · exact litOk_startValue h
  | elemOrEnd =>
    dsimp only at h
    split_ifs at h
    · exact Option.some_inj.mp h ▸ hr
    · exact Option.some_inj.mp h ▸ hother (by simp)
    · exact litOk_startValue h
  | keyOrEnd =>
    dsimp only at h
    split_ifs at h
    · exact Option.some_inj.mp h ▸ hr
    · exact Option.some_inj.mp h ▸ hother (by simp)
    · exact Option.some_inj.mp h ▸ hother (by simp)
  | key done =>
    dsimp only at h
    split_ifs at h
    · exact Option.some_inj.mp h ▸ hr
    · exact Option.some_inj.mp h ▸ hother (by simp)
  | keyStr done st acc =>
    dsimp only at h
    split_ifs at h
    · exact Option.some_inj.mp h ▸ hother (by simp)
    · obtain ⟨p, -, rfl⟩ := Option.map_eq_some_iff.mp h
      exact hother (by simp)
  | colon done key =>
    dsimp only at h
    split_ifs at h
    · exact Option.some_inj.mp h ▸ hr
    · rw [← Option.some_inj.mp h]
      exact fun rest v hmode ↦ absurd hmode (by simp)
  | str st acc =>
    dsimp only at h
    split_ifs at h
    · exact Option.some_inj.mp h ▸ hother (by simp)
    · obtain ⟨p, -, rfl⟩ := Option.map_eq_some_iff.mp h
      exact hother (by simp)
  | num st acc =>
    dsimp only at h
    split at h
    · exact Option.some_inj.mp h ▸ hother (by simp)
    · split_ifs at h
      exact litOk_afterValue h
  | lit rest v =>
    cases rest with
    | nil => exact absurd h (by simp)
    | cons c rest =>
      dsimp only at h
      split_ifs at h
      · exact Option.some_inj.mp h ▸ hother (by simp)
      · rw [← Option.some_inj.mp h]
        intro rest' v' hmode
        rw [Mode.lit.injEq] at hmode
        rw [← hmode.1]
        exact fun hmem ↦ hr _ _ rfl (List.mem_cons_of_mem c hmem)
  | after v =>
    exact litOk_afterValue h

theorem Reader.LitOk.run {r q : Reader} (hr : r.LitOk) {s : CStr} (h : r.run s = some q) :
    q.LitOk := by
  induction s generalizing r with
  | nil => exact Option.some_inj.mp h ▸ hr
  | cons b s ih =>
    rw [Reader.run, Option.bind_eq_some_iff] at h
    obtain ⟨r', hstep, hrun⟩ := h
    exact ih (hr.step hstep) hrun

theorem Reader.afterValue_eq_none {stack : List Frame} {v : Json} {b : UInt8}
    (hspace : isSpace b = false) (hcomma : b ≠ 44) (hbrace : b ≠ 125) (hbracket : b ≠ 93) :
    afterValue stack v b = none := by
  rcases stack with - | ⟨done | ⟨done, key⟩, stack⟩ <;>
    simp [afterValue, hspace, hcomma, hbrace, hbracket]

theorem Reader.afterValue_quote (stack : List Frame) (v : Json) : afterValue stack v 34 = none :=
  afterValue_eq_none rfl (by decide) (by decide) (by decide)

/-- Where a quote leads: out of a string, or else into one, into or out of a name. -/
theorem Reader.step_quote {r q : Reader} (hr : r.LitOk) (h : r.step 34 = some q) :
    (∃ acc, r.mode = .str .body acc) ∨ (∃ acc stack, q = ⟨.str .body acc, stack⟩) ∨
      (∃ done acc stack, q = ⟨.keyStr done .body acc, stack⟩) ∨
      ∃ done key stack, q = ⟨.colon done key, stack⟩ := by
  obtain ⟨mode, stack⟩ := r
  have hesc : ∀ {st : StrState}, st ≠ .body → ∀ {p : StrState × CStr}, st.step 34 = some p →
      p.1 = .body := by
    intro st hst p hp
    cases st with
    | body => exact absurd rfl hst
    | esc => exact (congrArg Prod.fst (Option.some_inj.mp hp)).symm
    | uni high digits acc => exact absurd hp (by simp [StrState.step, hexVal])
    | lowEsc high => exact absurd hp (by simp [StrState.step])
    | lowUni high => exact absurd hp (by simp [StrState.step])
  cases mode with
  | value => exact Or.inr (Or.inl ⟨[], stack, (Option.some_inj.mp h).symm⟩)
  | elemOrEnd => exact Or.inr (Or.inl ⟨[], _, (Option.some_inj.mp h).symm⟩)
  | keyOrEnd => exact Or.inr (Or.inr (Or.inl ⟨[], [], stack, (Option.some_inj.mp h).symm⟩))
  | key done => exact Or.inr (Or.inr (Or.inl ⟨done, [], stack, (Option.some_inj.mp h).symm⟩))
  | keyStr done st acc =>
    rw [Reader.step] at h
    dsimp only at h
    split_ifs at h with hbody
    · exact Or.inr (Or.inr (Or.inr ⟨done, acc, stack, (Option.some_inj.mp h).symm⟩))
    · obtain ⟨⟨st', out⟩, hp, rfl⟩ := Option.map_eq_some_iff.mp h
      obtain rfl : st' = .body := hesc (fun hst ↦ hbody ⟨hst, rfl⟩) hp
      exact Or.inr (Or.inr (Or.inl ⟨done, acc ++ out, stack, rfl⟩))
  | colon done key => exact absurd h (by simp [Reader.step, isSpace])
  | str st acc =>
    rw [Reader.step] at h
    dsimp only at h
    split_ifs at h with hbody
    · exact Or.inl ⟨acc, by rw [hbody.1]⟩
    · obtain ⟨⟨st', out⟩, hp, rfl⟩ := Option.map_eq_some_iff.mp h
      obtain rfl : st' = .body := hesc (fun hst ↦ hbody ⟨hst, rfl⟩) hp
      exact Or.inr (Or.inl ⟨acc ++ out, stack, rfl⟩)
  | num st acc =>
    have hst : st.step 34 = none := by cases st <;> rfl
    rw [Reader.step] at h
    dsimp only at h
    rw [hst, afterValue_quote, ite_self] at h
    exact absurd h (by simp)
  | lit rest v =>
    cases rest with
    | nil => exact absurd h (by simp [Reader.step])
    | cons c rest =>
      have hc : (34 : UInt8) ≠ c := fun heq ↦ hr _ _ rfl (heq ▸ List.mem_cons_self)
      rw [Reader.step] at h
      dsimp only at h
      rw [if_neg hc] at h
      exact absurd h (by simp)
  | after v => exact absurd ((afterValue_quote stack v).symm.trans h) (by simp)

/-- The end of a string member and the start of the next: only inside a string is it that. -/
theorem Reader.mode_of_next {r q : Reader} (hr : r.LitOk) {c : UInt8} (hc : isLetter c = true)
    {u : CStr} (h : r.run (34 :: 44 :: 34 :: c :: u) = some q) :
    ∃ acc, r.mode = .str .body acc := by
  obtain ⟨hspace, hcomma, hbrace, hbracket, hcolon⟩ := isLetter_spec hc
  have hafter : ∀ v stack, Reader.run ⟨.after v, stack⟩ (c :: u) = none := by
    intro v stack
    have hstep : Reader.step ⟨.after v, stack⟩ c = none :=
      afterValue_eq_none hspace hcomma hbrace hbracket
    rw [Reader.run, hstep, Option.bind_none]
  have hname : ∀ done key stack, Reader.run ⟨.colon done key, stack⟩ (c :: u) = none := by
    intro done key stack
    simp [Reader.run, Reader.step, hspace, hcolon]
  rw [Reader.run, Option.bind_eq_some_iff] at h
  obtain ⟨r', hstep, hrun⟩ := h
  rcases step_quote hr hstep with hmode | ⟨acc, stack, rfl⟩ | ⟨done, acc, stack, rfl⟩ |
    ⟨done, key, stack, rfl⟩
  · exact hmode
  · exact absurd ((hafter (.str (acc ++ [44])) stack).symm.trans hrun) (by simp)
  · exact absurd ((hname done (acc ++ [44]) stack).symm.trans hrun) (by simp)
  · exact absurd hrun (by simp [Reader.run, Reader.step, isSpace])

/-- The reader between two members: those it has read of the innermost object, and what is open
around it. -/
structure Between where
  members : List (CStr × Json)
  around : List Frame

/-- Where the reader goes on if the string it is inside of ends now. -/
def Reader.between (r : Reader) : Option Between :=
  match r.mode, r.stack with
  | .str .body acc, .obj done key :: stack => some ⟨done ++ [(key, .str acc)], stack⟩
  | _, _ => none

theorem Reader.between_eq_some_iff {r : Reader} {b : Between} :
    r.between = some b ↔ ∃ acc done key, r = ⟨.str .body acc, .obj done key :: b.around⟩ ∧
      b.members = done ++ [(key, .str acc)] := by
  constructor
  · intro h
    obtain ⟨mode, stack⟩ := r
    unfold Reader.between at h
    split at h
    · rename_i acc done key stack hmode hstack
      obtain rfl : mode = .str .body acc := hmode
      obtain rfl := hstack
      obtain rfl := Option.some_inj.mp h
      exact ⟨acc, done, key, rfl, rfl⟩
    · exact absurd h (by simp)
  · obtain ⟨ms, stack⟩ := b
    rintro ⟨acc, done, key, rfl, hms⟩
    obtain rfl : ms = done ++ [(key, .str acc)] := hms
    rfl

/-- The end of a string and the next member: only inside a string of an object is it that. -/
theorem Reader.next_iff {r : Reader} (hr : r.LitOk) {name : String} (hplain : Plain (ascii name))
    (hletter : Lettered name) {w : CStr} {v : Json} :
    (r.run (34 :: 44 :: member name w)).bind Reader.result = some v ↔
      ∃ b, r.between = some b ∧
        (Reader.run ⟨.key b.members, b.around⟩ (member name w)).bind Reader.result = some v := by
  constructor
  · intro hres
    obtain ⟨q, hrun, -⟩ := Option.bind_eq_some_iff.mp hres
    obtain ⟨c, cs, hcs, hc⟩ := hletter.eq_cons
    obtain ⟨acc, hacc⟩ : ∃ acc, r.mode = .str .body acc := by
      rw [member_eq, hcs, List.cons_append] at hrun
      exact mode_of_next hr hc hrun
    obtain ⟨mode, stack⟩ := r
    obtain rfl : mode = .str .body acc := hacc
    rcases stack with - | ⟨done | ⟨done, key⟩, stack⟩
    · exact absurd hrun (by simp [Reader.run, Reader.step, afterValue, isSpace])
    · -- in an array the name would have to be an element, and nothing but a comma may follow it
      rw [member_eq] at hrun
      have helem : Reader.run ⟨.str .body [], .arr (done ++ [.str acc]) :: stack⟩
          (ascii name ++ 34 :: 58 :: w) = some q := hrun
      rw [Reader.run_append_of_eq (Reader.run_str (run_of_plain hplain) [] _)] at helem
      exact absurd helem (by simp [Reader.run, Reader.step, afterValue, isSpace])
    · exact ⟨_, rfl, hres⟩
  · rintro ⟨⟨ms, stack⟩, hb, hres⟩
    obtain ⟨acc, done, key, rfl, hms⟩ := between_eq_some_iff.mp hb
    obtain rfl : ms = done ++ [(key, .str acc)] := hms
    exact hres

/-- The end of a string and of the object it is in, before nothing but braces. -/
theorem Reader.close_iff {r : Reader} (hr : r.LitOk) {k : ℕ} {v : Json} :
    (r.run (34 :: List.replicate (k + 1) 125)).bind Reader.result = some v ↔
      ∃ b, r.between = some b ∧ (Reader.run ⟨.after (.obj b.members), b.around⟩
        (List.replicate k 125)).bind Reader.result = some v := by
  -- braces inside a string are part of it
  have hstr : ∀ acc stack j, Reader.run ⟨.str .body acc, stack⟩ (List.replicate j 125)
      = some ⟨.str .body (acc ++ List.replicate j 125), stack⟩ := fun acc stack j ↦
    Reader.run_str (run_of_plain fun b hb ↦ by
      rw [List.eq_of_mem_replicate hb]
      decide) acc stack
  have hkey : ∀ done acc stack j, Reader.run ⟨.keyStr done .body acc, stack⟩ (List.replicate j 125)
      = some ⟨.keyStr done .body (acc ++ List.replicate j 125), stack⟩ := fun done acc stack j ↦
    run_key (fun b hb ↦ by
      rw [List.eq_of_mem_replicate hb]
      decide) done acc stack
  constructor
  · intro hres
    obtain ⟨acc, hacc⟩ : ∃ acc, r.mode = .str .body acc := by
      obtain ⟨q, hrun, hq⟩ := Option.bind_eq_some_iff.mp hres
      rw [Reader.run, Option.bind_eq_some_iff] at hrun
      obtain ⟨r', hstep, hrun⟩ := hrun
      rcases step_quote hr hstep with hmode | ⟨acc, stack, rfl⟩ | ⟨done, acc, stack, rfl⟩ |
        ⟨done, key, stack, rfl⟩
      · exact hmode
      · rw [hstr] at hrun
        obtain rfl := Option.some_inj.mp hrun
        exact absurd hq (by simp [Reader.result])
      · rw [hkey] at hrun
        obtain rfl := Option.some_inj.mp hrun
        exact absurd hq (by simp [Reader.result])
      · exact absurd hrun (by simp [List.replicate_succ, Reader.run, Reader.step, isSpace])
    obtain ⟨mode, stack⟩ := r
    obtain rfl : mode = .str .body acc := hacc
    rw [List.replicate_succ] at hres
    rcases stack with - | ⟨done | ⟨done, key⟩, stack⟩
    · exact absurd hres (by simp [Reader.run, Reader.step, afterValue, isSpace])
    · exact absurd hres (by simp [Reader.run, Reader.step, afterValue, isSpace])
    · exact ⟨_, rfl, hres⟩
  · rintro ⟨⟨ms, stack⟩, hb, hres⟩
    obtain ⟨acc, done, key, rfl, hms⟩ := between_eq_some_iff.mp hb
    obtain rfl : ms = done ++ [(key, .str acc)] := hms
    exact hres

/-- What is left of the line after a string that was not escaped: it completes an object exactly
when the reader is inside a string of that object. -/
theorem Reader.run_next_iff {r : Reader} (hr : r.LitOk) {m : String × CStr}
    {rest : List (String × CStr)} {kv : CStr × Json} {kvs : List (CStr × Json)}
    (h : List.Forall₂ MemberReads (m :: rest) (kv :: kvs)) (hm : Lettered m.1) {v : Json} :
    (r.run (34 :: 44 :: (memberList (m :: rest) ++ [125]))).bind Reader.result = some v ↔
      ∃ acc done key, r = ⟨.str .body acc, [.obj done key]⟩ ∧
        v = .obj (done ++ (key, .str acc) :: kv :: kvs) := by
  have hplain : Plain (ascii m.1) := (List.forall₂_cons.mp h).1.2.1
  obtain ⟨w, hw⟩ : ∃ w, memberList (m :: rest) ++ [125] = member m.1 w := by
    cases rest with
    | nil => exact ⟨m.2 ++ [125], by rw [memberList, member, member, List.append_assoc]; rfl⟩
    | cons n rest =>
      refine ⟨m.2 ++ 44 :: (memberList (n :: rest) ++ [125]), ?_⟩
      rw [memberList, member, member]
      simp only [List.cons_append, List.append_assoc]
  rw [hw, next_iff hr hplain hm]
  constructor
  · rintro ⟨⟨ms, stack⟩, hb, hres⟩
    obtain ⟨acc, done, key, rfl, hms⟩ := between_eq_some_iff.mp hb
    obtain rfl : ms = done ++ [(key, .str acc)] := hms
    rw [← hw, run_memberList h, List.append_assoc, List.singleton_append] at hres
    cases stack with
    | nil => exact ⟨acc, done, key, rfl, (Option.some_inj.mp hres).symm⟩
    | cons f stack => exact absurd hres (by simp [Reader.result])
  · rintro ⟨acc, done, key, rfl, rfl⟩
    refine ⟨_, rfl, ?_⟩
    rw [← hw, run_memberList h, List.append_assoc, List.singleton_append]
    rfl

/-- The same for the last string of an object that is the last member of another. -/
theorem Reader.run_close_iff {r : Reader} (hr : r.LitOk) {v : Json} :
    (r.run [34, 125, 125]).bind Reader.result = some v ↔
      ∃ acc done key done' key', r = ⟨.str .body acc, [.obj done key, .obj done' key']⟩ ∧
        v = .obj (done' ++ [(key', .obj (done ++ [(key, .str acc)]))]) := by
  rw [show [34, 125, 125] = (34 : UInt8) :: List.replicate (1 + 1) 125 from rfl, close_iff hr]
  constructor
  · rintro ⟨⟨ms, stack⟩, hb, hres⟩
    obtain ⟨acc, done, key, rfl, hms⟩ := between_eq_some_iff.mp hb
    obtain rfl : ms = done ++ [(key, .str acc)] := hms
    rcases stack with - | ⟨done' | ⟨done', key'⟩, stack⟩
    · exact absurd hres (by simp [Reader.run, Reader.step, afterValue, isSpace])
    · exact absurd hres (by simp [Reader.run, Reader.step, afterValue, isSpace])
    · cases stack with
      | nil => exact ⟨acc, done, key, done', key', rfl, (Option.some_inj.mp hres).symm⟩
      | cons f stack =>
        exact absurd hres (by simp [Reader.run, Reader.step, afterValue, isSpace, Reader.result])
  · rintro ⟨acc, done, key, done', key', rfl, rfl⟩
    exact ⟨_, rfl, rfl⟩

/-- The reader is inside a string, with objects open around it: from the innermost, the members it
has read and the name of the one it is at. It reads `t` and is inside a string again, with as many
objects open, and the outermost has no member `name`. -/
def Resumes (name : String) (objs : List (List (CStr × Json) × CStr)) (t : CStr) : Prop :=
  ∃ (acc : CStr) (objs' : List (List (CStr × Json) × CStr)), objs'.length = objs.length ∧
    Reader.run ⟨.str .body [], objs.map fun o ↦ .obj o.1 o.2⟩ t
      = some ⟨.str .body acc, objs'.map fun o ↦ .obj o.1 o.2⟩ ∧
    ∀ o ∈ objs'.getLast?, o.2 ≠ ascii name ∧ ∀ kv ∈ o.1, kv.1 ≠ ascii name

theorem resumes_of_plain {name : String} {objs : List (List (CStr × Json) × CStr)} {t : CStr}
    (ht : Plain t) (hobjs : ∀ o ∈ objs.getLast?, o.2 ≠ ascii name ∧ ∀ kv ∈ o.1, kv.1 ≠ ascii name) :
    Resumes name objs t :=
  ⟨t, objs, rfl, Reader.run_str (run_of_plain ht) [] _, hobjs⟩

theorem litOk_str (st : StrState) (acc : CStr) (stack : List Frame) :
    Reader.LitOk ⟨.str st acc, stack⟩ := fun _ _ hmode ↦ absurd hmode (by simp)

/-- A string member, from before its name to inside its quotes. -/
theorem run_raw_member {name : String} (hname : Plain (ascii name)) (done : List (CStr × Json))
    (stack : List Frame) (s u : CStr) :
    Reader.run ⟨.key done, stack⟩ (member name (quoted s) ++ u)
      = Reader.run ⟨.str .body [], .obj done (ascii name) :: stack⟩ (s ++ 34 :: u) := by
  have htext : member name (quoted s) ++ u
      = 34 :: (ascii name ++ 34 :: 58 :: 34 :: (s ++ 34 :: u)) := by
    rw [member_eq, quoted]
    simp only [List.cons_append, List.append_assoc, List.nil_append]
  rw [htext, Reader.run_cons_of_eq (q := ⟨.keyStr done .body [], stack⟩) rfl,
    Reader.run_append_of_eq (run_key hname done [] stack), List.nil_append]
  rfl

section Embedded

variable {name nm : String} {t : CStr}

theorem lacks_append_iff {pre rest : List (String × CStr)} (hpre : ∀ m ∈ pre, Sound m)
    (hkeys : ∀ m ∈ pre, ascii m.1 ≠ ascii name) (hne : pre ≠ []) (hrest : rest ≠ []) :
    Lacks (object (pre ++ rest)) name ↔ Lacks (object rest) name := by
  obtain ⟨kvs, hkvs⟩ := exists_memberReads hpre
  have hnames := names_of_memberReads hkvs hkeys
  have hclean : Clean (object (pre ++ rest)) ↔ Clean (object rest) := by
    rw [clean_object_iff, clean_object_iff, memberList_append hne hrest,
      clean_append_cons_iff (by decide)]
    exact and_iff_right (clean_of_sound hpre)
  constructor
  · rintro ⟨ms, ⟨hline, hparse⟩, hmem⟩
    obtain ⟨ms', hparse', heq⟩ := (parse_object_append hkvs hrest).mp hparse
    rw [heq, membersOf_append hnames] at hmem
    exact ⟨ms', ⟨hclean.mp hline, hparse'⟩, hmem⟩
  · rintro ⟨ms, ⟨hline, hparse⟩, hmem⟩
    exact ⟨kvs ++ ms, ⟨hclean.mpr hline, (parse_object_append hkvs hrest).mpr ⟨ms, hparse, rfl⟩⟩,
      (membersOf_append hnames).trans hmem⟩

theorem membersOf_eq_nil_iff {kvs : List (CStr × Json)} :
    membersOf (ascii name) (.obj kvs) = [] ↔ ∀ kv ∈ kvs, kv.1 ≠ ascii name := by
  rw [membersOf, List.map_eq_nil_iff, List.filter_eq_nil_iff]
  simp only [decide_eq_true_eq, ne_eq]

/-- A string that is not escaped, as the first of several members. -/
theorem lacks_raw_iff {m : String × CStr} {rest : List (String × CStr)} (hnm : Safe (ascii nm))
    (hm : Lettered m.1) (hrest : ∀ n ∈ m :: rest, Sound n)
    (hkeys : ∀ n ∈ m :: rest, ascii n.1 ≠ ascii name) :
    Lacks (object ((nm, quoted t) :: m :: rest)) name ↔
      Clean t ∧ Resumes name [([], ascii nm)] t := by
  obtain ⟨kvs, hkvs⟩ := exists_memberReads hrest
  obtain ⟨kv, kvs, hhead, htail, rfl⟩ := List.forall₂_cons_left_iff.mp hkvs
  have hnames := names_of_memberReads hkvs hkeys
  have hclean : Clean (object ((nm, quoted t) :: m :: rest)) ↔ Clean t := by
    rw [clean_object_iff, memberList, clean_append_cons_iff (by decide),
      clean_member_iff hnm.clean, clean_quoted_iff]
    exact and_iff_left (clean_of_sound hrest)
  have hparse : ∀ v, parse (object ((nm, quoted t) :: m :: rest)) = some v ↔
      ∃ acc done key, Reader.run ⟨.str .body [], [.obj [] (ascii nm)]⟩ t
          = some ⟨.str .body acc, [.obj done key]⟩ ∧
        v = .obj (done ++ (key, .str acc) :: kv :: kvs) := by
    intro v
    rw [parse_object (List.cons_ne_nil _ _), memberList, List.append_assoc, List.cons_append,
      run_raw_member hnm.plain, Reader.run_append]
    constructor
    · intro h
      rw [Option.bind_assoc, Option.bind_eq_some_iff] at h
      obtain ⟨r, hrun, hres⟩ := h
      obtain ⟨acc, done, key, rfl, hv⟩ :=
        (Reader.run_next_iff ((litOk_str _ _ _).run hrun) hkvs hm).mp hres
      exact ⟨acc, done, key, hrun, hv⟩
    · rintro ⟨acc, done, key, hrun, hv⟩
      rw [hrun, Option.bind_some]
      exact (Reader.run_next_iff (litOk_str _ _ _) hkvs hm).mpr ⟨acc, done, key, rfl, hv⟩
  constructor
  · rintro ⟨ms, ⟨hline, hms⟩, hmem⟩
    obtain ⟨acc, done, key, hrun, heq⟩ := (hparse _).mp hms
    rw [heq, membersOf_eq_nil_iff] at hmem
    refine ⟨hclean.mp hline, acc, [(done, key)], rfl, hrun, ?_⟩
    rintro o ho
    obtain rfl := Option.some_inj.mp ho
    exact ⟨hmem (key, .str acc) (by simp), fun kv hkv ↦ hmem kv (List.mem_append_left _ hkv)⟩
  · rintro ⟨ht, acc, objs, hlen, hrun, hlast⟩
    obtain ⟨⟨done, key⟩, rfl⟩ := List.length_eq_one_iff.mp hlen
    obtain ⟨hkey, hdone⟩ := hlast (done, key) rfl
    refine ⟨_, ⟨hclean.mpr ht, (hparse _).mpr ⟨acc, done, key, hrun, rfl⟩⟩, ?_⟩
    rw [membersOf_append hdone, membersOf_eq_nil_iff]
    intro kv' hkv'
    rcases List.mem_cons.mp hkv' with rfl | hmem
    · exact hkey
    · exact hnames kv' hmem

/-- A string that is not escaped, as the last member of an object that is the only member. -/
theorem lacks_raw_nested_iff {inner : String} {pre : List (String × CStr)}
    {kvs : List (CStr × Json)} (hnm : Safe (ascii nm)) (hinner : Safe (ascii inner))
    (hpre : ∀ n ∈ pre, Sound n) (hne : pre ≠ []) (hkvs : List.Forall₂ MemberReads pre kvs) :
    Lacks (object [(nm, object (pre ++ [(inner, quoted t)]))]) name ↔
      Clean t ∧ Resumes name [(kvs, ascii inner), ([], ascii nm)] t := by
  have hclean : Clean (object [(nm, object (pre ++ [(inner, quoted t)]))]) ↔ Clean t := by
    rw [clean_object_iff, memberList, clean_member_iff hnm.clean, clean_object_iff,
      memberList_append hne (List.cons_ne_nil _ _), clean_append_cons_iff (by decide), memberList,
      clean_member_iff hinner.clean, clean_quoted_iff]
    exact and_iff_right (clean_of_sound hpre)
  have hopen : parse (object [(nm, object (pre ++ [(inner, quoted t)]))])
      = (Reader.run ⟨.str .body [], [.obj kvs (ascii inner), .obj [] (ascii nm)]⟩
          (t ++ [34, 125, 125])).bind Reader.result := by
    have hmembers := run_members hkvs (List.cons_ne_nil (inner, quoted t) []) []
      [.obj [] (ascii nm)] [125, 125]
    obtain ⟨u, hu⟩ := memberList_eq_cons (List.append_ne_nil_of_right_ne_nil pre
      (List.cons_ne_nil (inner, quoted t) []))
    rw [memberList, run_raw_member hinner.plain, List.nil_append, hu] at hmembers
    have htext : memberList [(nm, object (pre ++ [(inner, quoted t)]))] ++ [125]
        = 34 :: (ascii nm ++ 34 :: 58 :: 123 :: (34 :: u ++ [125, 125])) := by
      rw [memberList, member_eq, object, hu]
      simp only [List.cons_append, List.append_assoc, List.nil_append]
    rw [parse_object (List.cons_ne_nil _ _), htext,
      Reader.run_cons_of_eq (q := ⟨.keyStr [] .body [], []⟩) rfl,
      Reader.run_append_of_eq (run_key hnm.plain [] [] []), List.nil_append, ← hmembers]
    rfl
  have hparse : ∀ v, parse (object [(nm, object (pre ++ [(inner, quoted t)]))]) = some v ↔
      ∃ acc done key done' key',
        Reader.run ⟨.str .body [], [.obj kvs (ascii inner), .obj [] (ascii nm)]⟩ t
          = some ⟨.str .body acc, [.obj done key, .obj done' key']⟩ ∧
        v = .obj (done' ++ [(key', .obj (done ++ [(key, .str acc)]))]) := by
    intro v
    rw [hopen, Reader.run_append]
    constructor
    · intro h
      rw [Option.bind_assoc, Option.bind_eq_some_iff] at h
      obtain ⟨r, hrun, hres⟩ := h
      obtain ⟨acc, done, key, done', key', rfl, hv⟩ :=
        (Reader.run_close_iff ((litOk_str _ _ _).run hrun)).mp hres
      exact ⟨acc, done, key, done', key', hrun, hv⟩
    · rintro ⟨acc, done, key, done', key', hrun, hv⟩
      rw [hrun, Option.bind_some]
      exact (Reader.run_close_iff (litOk_str _ _ _)).mpr ⟨acc, done, key, done', key', rfl, hv⟩
  constructor
  · rintro ⟨ms, ⟨hline, hms⟩, hmem⟩
    obtain ⟨acc, done, key, done', key', hrun, heq⟩ := (hparse _).mp hms
    rw [heq, membersOf_eq_nil_iff] at hmem
    refine ⟨hclean.mp hline, acc, [(done, key), (done', key')], rfl, hrun, ?_⟩
    rintro o ho
    obtain rfl := Option.some_inj.mp ho
    exact ⟨hmem _ (List.mem_append_right done' List.mem_cons_self),
      fun kv hkv ↦ hmem kv (List.mem_append_left _ hkv)⟩
  · rintro ⟨ht, acc, objs, hlen, hrun, hlast⟩
    obtain ⟨⟨done, key⟩, ⟨done', key'⟩, rfl⟩ := List.length_eq_two.mp hlen
    obtain ⟨hkey, hdone⟩ := hlast (done', key') rfl
    refine ⟨_, ⟨hclean.mpr ht, (hparse _).mpr ⟨acc, done, key, done', key', hrun, rfl⟩⟩, ?_⟩
    rw [membersOf_append hdone, membersOf_eq_nil_iff]
    intro kv hkv
    obtain rfl := List.mem_singleton.mp hkv
    exact hkey

end Embedded

end Json

end NetForensics

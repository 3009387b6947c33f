import NetForensics.Json.Reader

/-!
# Texts that read back

The formatters build their lines from pieces: quoted strings, numerals, `null`, `true` and `false`,
and objects and arrays of these. `Reads s v` says that the piece `s`, wherever a value is expected,
is the value `v`; its rules follow the ways the pieces are put together. A quoted string is a piece
if it is plain, with nothing in it that would have to be escaped.
-/

namespace NetForensics

namespace Json

/-- The string can stand between quotes as it is: no quote, no backslash, no control character. -/
def Plain (s : CStr) : Prop := ∀ b ∈ s, 32 ≤ b ∧ b ≠ 34 ∧ b ≠ 92

instance (s : CStr) : Decidable (Plain s) := inferInstanceAs (Decidable (∀ b ∈ s, _))

theorem plain_nil : Plain [] := fun _ h ↦ absurd h List.not_mem_nil

theorem Plain.append {s t : CStr} (hs : Plain s) (ht : Plain t) : Plain (s ++ t) := by
  intro b hb
  rcases List.mem_append.mp hb with h | h
  · exact hs b h
  · exact ht b h

theorem Plain.take {s : CStr} (h : Plain s) (n : ℕ) : Plain (s.take n) :=
  fun b hb ↦ h b (List.mem_of_mem_take hb)

theorem plain_of_token {s : CStr} (h : Token s) : Plain s := by
  intro b hb
  have hb' := h b hb
  refine ⟨?_, ?_, ?_⟩
  · rw [isToken, Bool.or_eq_true, Bool.or_eq_true, Bool.and_eq_true, Bool.and_eq_true,
      decide_eq_true_iff, decide_eq_true_iff, decide_eq_true_iff, decide_eq_true_iff,
      beq_iff_eq] at hb'
    rcases hb' with (⟨hlow, -⟩ | ⟨hlow, -⟩) | rfl
    · exact UInt8.le_trans (b := 48) (by decide) hlow
    · exact UInt8.le_trans (b := 97) (by decide) hlow
    · decide
  · rintro rfl
    exact absurd hb' (by decide)
  · rintro rfl
    exact absurd hb' (by decide)

theorem run_of_plain {s : CStr} (h : Plain s) : StrState.body.run s = some (.body, s) := by
  induction s with
  | nil => rfl
  | cons b s ih =>
    obtain ⟨hlow, hquote, hback⟩ := h b List.mem_cons_self
    have hstep : StrState.body.step b = some (.body, [b]) := by
      have hstop : ¬ (b = 34 ∨ b < 32) := by
        rintro (heq | hlt)
        · exact hquote heq
        · exact absurd hlow (UInt8.not_le.mpr hlt)
      rw [StrState.step, if_neg hstop, if_neg hback]
    rw [StrState.run, hstep, Option.bind_some]
    dsimp only
    rw [ih fun c hc ↦ h c (List.mem_cons_of_mem b hc)]
    rfl

/-! ## The end of a value -/

/-- The reader has come to the end of `v`, up to the byte that shows that a number is over. -/
def Reader.Ends (r : Reader) (stack : List Frame) (v : Json) : Prop :=
  r = ⟨.after v, stack⟩ ∨ ∃ st acc, r = ⟨.num st acc, stack⟩ ∧ st.final = true ∧ v = .num acc

theorem Reader.Ends.step {r : Reader} {stack : List Frame} {v : Json} (h : r.Ends stack v)
    {b : UInt8} (hb : b = 44 ∨ b = 93 ∨ b = 125) : r.step b = afterValue stack v b := by
  rcases h with rfl | ⟨st, acc, rfl, hfinal, rfl⟩
  · rfl
  · have hnone : st.step b = none := by
      rcases hb with rfl | rfl | rfl <;> cases st <;> decide
    rw [Reader.step]
    dsimp only
    rw [hnone]
    exact if_pos hfinal

theorem Reader.Ends.result {r : Reader} {v : Json} (h : r.Ends [] v) : r.result = some v := by
  rcases h with rfl | ⟨st, acc, rfl, hfinal, rfl⟩
  · rfl
  · rw [Reader.result]
    exact if_pos hfinal

/-- Where a value is expected, the text is the value `v`. -/
def Reads (s : CStr) (v : Json) : Prop :=
  ∀ stack, ∃ r, Reader.run ⟨.value, stack⟩ s = some r ∧ r.Ends stack v

theorem Reads.parse {s : CStr} {v : Json} (h : Reads s v) : parse s = some v := by
  obtain ⟨r, hrun, hends⟩ := h []
  rw [Json.parse, hrun, Option.bind_some, hends.result]

/-! ## Strings, literals and numbers -/

theorem reads_quoted {s : CStr} (h : Plain s) : Reads (quoted s) (.str s) := by
  intro stack
  refine ⟨⟨.after (.str s), stack⟩, ?_, Or.inl rfl⟩
  rw [quoted, List.cons_append, Reader.run_cons_of_eq (q := ⟨.str .body [], stack⟩) rfl,
    Reader.run_append_of_eq (Reader.run_str (run_of_plain h) [] stack)]
  rfl

theorem reads_null : Reads (ascii "null") .null :=
  fun stack ↦ ⟨⟨.after .null, stack⟩, rfl, Or.inl rfl⟩

theorem reads_true : Reads (ascii "true") (.bool true) :=
  fun stack ↦ ⟨⟨.after (.bool true), stack⟩, rfl, Or.inl rfl⟩

theorem reads_false : Reads (ascii "false") (.bool false) :=
  fun stack ↦ ⟨⟨.after (.bool false), stack⟩, rfl, Or.inl rfl⟩

def Digits (s : CStr) : Prop := ∀ b ∈ s, 48 ≤ b ∧ b ≤ 57

theorem digits_decimal (n : ℕ) : Digits (decimal n) := fun _ hb ↦ toNat_of_mem_decimal hb

theorem digits_zeroPad {s : CStr} (h : Digits s) (width : ℕ) : Digits (zeroPad width s) := by
  intro b hb
  rcases List.mem_append.mp hb with hmem | hmem
  · rw [List.eq_of_mem_replicate hmem]
    decide
  · exact h b hmem

theorem run_int {s : CStr} (h : Digits s) (acc : CStr) (stack : List Frame) :
    Reader.run ⟨.num .int acc, stack⟩ s = some ⟨.num .int (acc ++ s), stack⟩ := by
  induction s generalizing acc with
  | nil => rw [List.append_nil]; rfl
  | cons b s ih =>
    have hstep : Reader.step ⟨.num .int acc, stack⟩ b = some ⟨.num .int (acc ++ [b]), stack⟩ := by
      rw [Reader.step]
      dsimp only
      rw [NumState.step, if_pos (h b List.mem_cons_self)]
    rw [Reader.run_cons_of_eq hstep, ih fun c hc ↦ h c (List.mem_cons_of_mem b hc),
      List.append_assoc, List.singleton_append]

theorem run_frac {s : CStr} (h : Digits s) (acc : CStr) (stack : List Frame) :
    Reader.run ⟨.num .frac acc, stack⟩ s = some ⟨.num .frac (acc ++ s), stack⟩ := by
  induction s generalizing acc with
  | nil => rw [List.append_nil]; rfl
  | cons b s ih =>
    have hstep : Reader.step ⟨.num .frac acc, stack⟩ b = some ⟨.num .frac (acc ++ [b]), stack⟩ := by
      rw [Reader.step]
      dsimp only
      rw [NumState.step, if_pos (h b List.mem_cons_self)]
    rw [Reader.run_cons_of_eq hstep, ih fun c hc ↦ h c (List.mem_cons_of_mem b hc),
      List.append_assoc, List.singleton_append]

/-- The integer part of a number: a numeral, which is zero or has no leading zero. -/
theorem run_decimal (n : ℕ) (stack : List Frame) :
    ∃ st, (st = NumState.zero ∨ st = NumState.int) ∧
      Reader.run ⟨.value, stack⟩ (decimal n) = some ⟨.num st (decimal n), stack⟩ := by
  by_cases hn : n = 0
  · subst hn
    exact ⟨.zero, Or.inl rfl, rfl⟩
  · obtain ⟨b, s, heq, hlow, hhigh⟩ := decimal_eq_cons hn
    have hdigits := digits_decimal n
    rw [heq] at hdigits ⊢
    have hne : ∀ c : UInt8, c.toNat < 49 ∨ 57 < c.toNat → b ≠ c := by
      rintro c hc rfl
      omega
    have hspace : isSpace b = false := by
      rw [isSpace, beq_eq_false_iff_ne.mpr (hne 32 (by decide)),
        beq_eq_false_iff_ne.mpr (hne 9 (by decide)), beq_eq_false_iff_ne.mpr (hne 10 (by decide)),
        beq_eq_false_iff_ne.mpr (hne 13 (by decide))]
      rfl
    have hstart : NumState.start b = some .int := by
      rw [NumState.start, if_neg (hne 45 (by decide)), if_neg (hne 48 (by decide)),
        if_pos ⟨hlow, hhigh⟩]
    have hstep : Reader.step ⟨.value, stack⟩ b = some ⟨.num .int [b], stack⟩ := by
      rw [Reader.step]
      dsimp only
      rw [hspace, if_neg Bool.false_ne_true, Reader.startValue, if_neg (hne 34 (by decide)),
        if_neg (hne 123 (by decide)), if_neg (hne 91 (by decide)), if_neg (hne 110 (by decide)),
        if_neg (hne 116 (by decide)), if_neg (hne 102 (by decide)), hstart]
      rfl
    refine ⟨.int, Or.inr rfl, ?_⟩
    rw [Reader.run_cons_of_eq hstep, run_int fun c hc ↦ hdigits c (List.mem_cons_of_mem b hc)]
    rfl

theorem reads_decimal (n : ℕ) : Reads (decimal n) (.num (decimal n)) := by
  intro stack
  obtain ⟨st, hst, hrun⟩ := run_decimal n stack
  refine ⟨_, hrun, Or.inr ⟨st, _, rfl, ?_, rfl⟩⟩
  rcases hst with rfl | rfl <;> rfl

theorem zeroPad_ne_nil {width : ℕ} {s : CStr} (h : s ≠ []) : zeroPad width s ≠ [] :=
  List.append_ne_nil_of_right_ne_nil _ h

theorem reads_fixed (k : ℕ) (q : ℚ) : Reads (fixed k q) (.num (fixed k q)) := by
  intro stack
  rw [fixed]
  generalize roundHalfEven (q * 10 ^ k) = m
  obtain ⟨st, hst, hrun⟩ := run_decimal (m / 10 ^ k) stack
  have hpad : zeroPad k (decimal (m % 10 ^ k)) ≠ [] := zeroPad_ne_nil (decimal_ne_nil _)
  obtain ⟨d, ds, hds⟩ := List.exists_cons_of_ne_nil hpad
  have hdigits := digits_zeroPad (digits_decimal (m % 10 ^ k)) k
  rw [hds] at hdigits ⊢
  have hpoint : Reader.step ⟨.num st (decimal (m / 10 ^ k)), stack⟩ 46
      = some ⟨.num .point (decimal (m / 10 ^ k) ++ [46]), stack⟩ := by
    rcases hst with rfl | rfl <;> rfl
  have hfirst : Reader.step ⟨.num .point (decimal (m / 10 ^ k) ++ [46]), stack⟩ d
      = some ⟨.num .frac (decimal (m / 10 ^ k) ++ [46] ++ [d]), stack⟩ := by
    rw [Reader.step]
    dsimp only
    rw [NumState.step, if_pos (hdigits d List.mem_cons_self)]
  refine ⟨_, ?_, Or.inr ⟨.frac, _, rfl, rfl, rfl⟩⟩
  rw [Reader.run_append_of_eq hrun, Reader.run_cons_of_eq hpoint, Reader.run_cons_of_eq hfirst,
    run_frac fun c hc ↦ hdigits c (List.mem_cons_of_mem d hc), List.append_assoc,
    List.append_assoc]
  rfl

/-! ## Objects -/

theorem run_key {name : CStr} (h : Plain name) (done : List (CStr × Json)) (acc : CStr)
    (stack : List Frame) :
    Reader.run ⟨.keyStr done .body acc, stack⟩ name
      = some ⟨.keyStr done .body (acc ++ name), stack⟩ := by
  induction name generalizing acc with
  | nil => rw [List.append_nil]; rfl
  | cons b name ih =>
    obtain ⟨hlow, hquote, hback⟩ := h b List.mem_cons_self
    have hstop : ¬ (b = 34 ∨ b < 32) := by
      rintro (heq | hlt)
      · exact hquote heq
      · exact absurd hlow (UInt8.not_le.mpr hlt)
    have hstep : Reader.step ⟨.keyStr done .body acc, stack⟩ b
        = some ⟨.keyStr done .body (acc ++ [b]), stack⟩ := by
      rw [Reader.step]
      dsimp only
      rw [if_neg fun hc ↦ hquote hc.2, StrState.step, if_neg hstop, if_neg hback]
      rfl
    rw [Reader.run_cons_of_eq hstep, ih fun c hc ↦ h c (List.mem_cons_of_mem b hc),
      List.append_assoc, List.singleton_append]

theorem run_member {name : String} (hname : Plain (ascii name)) {s : CStr} {v : Json}
    (h : Reads s v) (done : List (CStr × Json)) (stack : List Frame) :
    ∃ r, Reader.run ⟨.keyStr done .body [], stack⟩ (ascii name ++ 34 :: 58 :: s) = some r ∧
      r.Ends (.obj done (ascii name) :: stack) v := by
  obtain ⟨r, hrun, hends⟩ := h (.obj done (ascii name) :: stack)
  refine ⟨r, ?_, hends⟩
  rw [Reader.run_append_of_eq (run_key hname done [] stack),
    Reader.run_cons_of_eq (q := ⟨.colon done (ascii name), stack⟩) rfl,
    Reader.run_cons_of_eq (q := ⟨.value, .obj done (ascii name) :: stack⟩) rfl, hrun]

/-- The text `m.2` is the value of a member called `m.1`. -/
def MemberReads (m : String × CStr) (kv : CStr × Json) : Prop :=
  kv.1 = ascii m.1 ∧ Plain (ascii m.1) ∧ Reads m.2 kv.2

theorem memberReads {name : String} (hname : Plain (ascii name)) {s : CStr} {v : Json}
    (h : Reads s v) : MemberReads (name, s) (ascii name, v) := ⟨rfl, hname, h⟩

theorem member_eq (name : String) (s : CStr) :
    member name s = 34 :: (ascii name ++ 34 :: 58 :: s) := by
  rw [member, quoted, List.cons_append, List.cons_append, List.append_assoc, List.singleton_append]

/-- The members of an object from the one at hand, up to the closing brace. -/
theorem run_memberList {m : String × CStr} {ms : List (String × CStr)} {kv : CStr × Json}
    {kvs : List (CStr × Json)} (h : List.Forall₂ MemberReads (m :: ms) (kv :: kvs))
    (done : List (CStr × Json)) (stack : List Frame) :
    Reader.run ⟨.key done, stack⟩ (memberList (m :: ms) ++ [125])
      = some ⟨.after (.obj (done ++ kv :: kvs)), stack⟩ := by
  induction ms generalizing m kv kvs done with
  | nil =>
    obtain ⟨⟨hkey, hname, hreads⟩, htail⟩ := List.forall₂_cons.mp h
    obtain rfl := List.forall₂_nil_left_iff.mp htail
    obtain ⟨r, hrun, hends⟩ := run_member hname hreads done stack
    rw [memberList, member_eq, List.cons_append,
      Reader.run_cons_of_eq (q := ⟨.keyStr done .body [], stack⟩) rfl,
      Reader.run_append_of_eq hrun, Reader.run, hends.step (Or.inr (Or.inr rfl)), ← hkey]
    rfl
  | cons n ms ih =>
    obtain ⟨⟨hkey, hname, hreads⟩, htail⟩ := List.forall₂_cons.mp h
    obtain ⟨kv', kvs', hhead, hrest, rfl⟩ := List.forall₂_cons_left_iff.mp htail
    obtain ⟨r, hrun, hends⟩ := run_member hname hreads done stack
    have hcomma : r.step 44 = some ⟨.key (done ++ [(ascii m.1, kv.2)]), stack⟩ := by
      rw [hends.step (Or.inl rfl)]
      rfl
    have hkv : (ascii m.1, kv.2) = kv := by rw [← hkey]
    rw [memberList, member_eq, List.cons_append, List.cons_append,
      Reader.run_cons_of_eq (q := ⟨.keyStr done .body [], stack⟩) rfl, List.append_assoc,
      Reader.run_append_of_eq hrun, List.cons_append, Reader.run_cons_of_eq hcomma, hkv, ih htail,
      List.append_assoc, List.singleton_append]

theorem reads_object {ms : List (String × CStr)} {kvs : List (CStr × Json)}
    (h : List.Forall₂ MemberReads ms kvs) : Reads (object ms) (.obj kvs) := by
  intro stack
  refine ⟨⟨.after (.obj kvs), stack⟩, ?_, Or.inl rfl⟩
  rw [object, List.cons_append, Reader.run_cons_of_eq (q := ⟨.keyOrEnd, stack⟩) rfl]
  cases h with
  | nil => rfl
  | @cons m kv ms kvs hhead htail =>
    -- after the brace a quote is taken as it is after a comma
    obtain ⟨t, ht⟩ : ∃ t, memberList (m :: ms) ++ [125] = 34 :: t := by
      cases ms with
      | nil => exact ⟨_, by rw [memberList, member_eq, List.cons_append]⟩
      | cons n ms => exact ⟨_, by rw [memberList, member_eq, List.cons_append, List.cons_append]⟩
    have hrun := run_memberList (List.Forall₂.cons hhead htail) [] stack
    rw [ht] at hrun ⊢
    exact hrun

/-! ## Arrays -/

def elemList : List CStr → CStr
  | [] => []
  | [s] => s
  | s :: t :: ss => s ++ 44 :: elemList (t :: ss)

/-- `[value,…]` -/
def array (ss : List CStr) : CStr := 91 :: elemList ss ++ [93]

/-- The elements of an array from the one at hand, up to the closing bracket. -/
theorem run_elemList {s : CStr} {ss : List CStr} {v : Json} {vs : List Json}
    (h : List.Forall₂ Reads (s :: ss) (v :: vs)) (done : List Json) (stack : List Frame) :
    Reader.run ⟨.value, .arr done :: stack⟩ (elemList (s :: ss) ++ [93])
      = some ⟨.after (.arr (done ++ v :: vs)), stack⟩ := by
  induction ss generalizing s v vs done with
  | nil =>
    obtain ⟨hreads, htail⟩ := List.forall₂_cons.mp h
    obtain rfl := List.forall₂_nil_left_iff.mp htail
    obtain ⟨r, hrun, hends⟩ := hreads (.arr done :: stack)
    rw [elemList, Reader.run_append_of_eq hrun, Reader.run, hends.step (Or.inr (Or.inl rfl))]
    rfl
  | cons t ss ih =>
    obtain ⟨hreads, htail⟩ := List.forall₂_cons.mp h
    obtain ⟨v', vs', -, -, rfl⟩ := List.forall₂_cons_left_iff.mp htail
    obtain ⟨r, hrun, hends⟩ := hreads (.arr done :: stack)
    have hcomma : r.step 44 = some ⟨.value, .arr (done ++ [v]) :: stack⟩ := by
      rw [hends.step (Or.inl rfl)]
      rfl
    rw [elemList, List.append_assoc, Reader.run_append_of_eq hrun, List.cons_append,
      Reader.run_cons_of_eq hcomma, ih htail, List.append_assoc, List.singleton_append]

/-- Arrays of objects and strings, whose texts start with a brace or a quote. -/
theorem reads_array {ss : List CStr} {vs : List Json} (h : List.Forall₂ Reads ss vs)
    (hstart : ∀ s ∈ ss, ∃ t, s = 123 :: t ∨ s = 34 :: t) : Reads (array ss) (.arr vs) := by
  intro stack
  refine ⟨⟨.after (.arr vs), stack⟩, ?_, Or.inl rfl⟩
  rw [array, List.cons_append, Reader.run_cons_of_eq (q := ⟨.elemOrEnd, stack⟩) rfl]
  cases h with
  | nil => rfl
  | @cons s v ss vs hhead htail =>
    have hrun := run_elemList (List.Forall₂.cons hhead htail) [] stack
    obtain ⟨t, ht⟩ := hstart s List.mem_cons_self
    obtain ⟨t', ht'⟩ : ∃ t', elemList (s :: ss) ++ [93] = s ++ t' := by
      cases ss with
      | nil => exact ⟨[93], rfl⟩
      | cons u ss => exact ⟨44 :: elemList (u :: ss) ++ [93], by rw [elemList, List.append_assoc]⟩
    rw [ht'] at hrun ⊢
    rcases ht with rfl | rfl
    · exact hrun
    · exact hrun

end Json

end NetForensics

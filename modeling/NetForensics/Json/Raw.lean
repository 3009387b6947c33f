import NetForensics.Json.Print
import NetForensics.Util.Utf8

/-!
# Strings that are not escaped

A formatter that prints a string between quotes as it is produces the intended object if the string
is plain. If it is not, the text may still be an object, but not one in which the member is that
string: an escape makes what is read shorter than what was printed, a quote ends the member early,
and a trailing backslash runs the string into the next member, whose name then stands where a comma
should.
-/

namespace NetForensics

namespace Json

/-! ## What is read is no longer than what was printed -/

/-- How many bytes of the text an unfinished escape has used up. -/
def StrState.pending : StrState → ℕ
  | .body => 0
  | .esc => 1
  | .uni none digits _ => 2 + digits
  | .uni (some _) digits _ => 8 + digits
  | .lowEsc _ => 6
  | .lowUni _ => 7

theorem codeUnit_length {high : Option ℕ} {unit : ℕ} {st : StrState} {out : CStr}
    (h : codeUnit high unit = some (st, out)) :
    (st = .body ∧ out.length ≤ 4) ∨ (st = .lowEsc unit ∧ high = none ∧ out = []) := by
  have hlen : ∀ c : Char, (String.utf8EncodeChar c).length ≤ 4 := fun c ↦ by
    rw [String.length_utf8EncodeChar]
    exact c.utf8Size_le_four
  rcases high with - | high
  · rw [codeUnit] at h
    split at h
    · simp only [Option.some_inj, Prod.mk.injEq] at h
      exact Or.inr ⟨h.1.symm, rfl, h.2.symm⟩
    · split at h
      · exact absurd h (by simp)
      · simp only [Option.some_inj, Prod.mk.injEq] at h
        exact Or.inl ⟨h.1.symm, h.2 ▸ hlen _⟩
  · rw [codeUnit] at h
    split at h
    · simp only [Option.some_inj, Prod.mk.injEq] at h
      exact Or.inl ⟨h.1.symm, h.2 ▸ hlen _⟩
    · exact absurd h (by simp)

/-- One byte of text gives at most one byte, counting what an escape has used up; and finishing an
escape costs at least one. -/
theorem StrState.step_length {st st' : StrState} {b : UInt8} {out : CStr}
    (h : st.step b = some (st', out)) :
    out.length + st'.pending ≤ st.pending + 1 ∧
      (st ≠ .body → st' = .body → out.length ≤ st.pending) := by
  cases st with
  | body =>
    rw [StrState.step] at h
    split at h
    · exact absurd h (by simp)
    · split at h
      · simp only [Option.some_inj, Prod.mk.injEq] at h
        obtain ⟨rfl, rfl⟩ := h
        exact ⟨le_rfl, fun hne ↦ absurd rfl hne⟩
      · simp only [Option.some_inj, Prod.mk.injEq] at h
        obtain ⟨rfl, rfl⟩ := h
        exact ⟨le_rfl, fun hne ↦ absurd rfl hne⟩
  | esc =>
    rw [StrState.step] at h
    split at h
    · simp only [Option.some_inj, Prod.mk.injEq] at h
      obtain ⟨rfl, rfl⟩ := h
      exact ⟨le_rfl, fun _ hbody ↦ absurd hbody (by simp)⟩
    · obtain ⟨c, -, heq⟩ := Option.map_eq_some_iff.mp h
      simp only [Prod.mk.injEq] at heq
      obtain ⟨rfl, rfl⟩ := heq
      exact ⟨Nat.le_succ 1, fun _ _ ↦ le_rfl⟩
  | uni high digits acc =>
    rw [StrState.step] at h
    obtain ⟨d, -, h⟩ := Option.bind_eq_some_iff.mp h
    have hpending : 2 + digits ≤ (StrState.uni high digits acc).pending := by
      cases high <;> simp only [StrState.pending] <;> omega
    split at h
    · simp only [Option.some_inj, Prod.mk.injEq] at h
      obtain ⟨rfl, rfl⟩ := h
      refine ⟨?_, fun _ hbody ↦ absurd hbody (by simp)⟩
      cases high <;> simp only [StrState.pending, List.length_nil] <;> omega
    · rcases codeUnit_length h with ⟨rfl, hlen⟩ | ⟨rfl, rfl, rfl⟩
      · refine ⟨?_, fun _ _ ↦ ?_⟩
        · rw [StrState.pending]
          omega
        · omega
      · refine ⟨?_, fun _ hbody ↦ absurd hbody (by simp)⟩
        simp only [StrState.pending, List.length_nil]
        omega
  | lowEsc high =>
    rw [StrState.step] at h
    split at h
    · simp only [Option.some_inj, Prod.mk.injEq] at h
      obtain ⟨rfl, rfl⟩ := h
      exact ⟨le_rfl, fun _ hbody ↦ absurd hbody (by simp)⟩
    · exact absurd h (by simp)
  | lowUni high =>
    rw [StrState.step] at h
    split at h
    · simp only [Option.some_inj, Prod.mk.injEq] at h
      obtain ⟨rfl, rfl⟩ := h
      exact ⟨le_rfl, fun _ hbody ↦ absurd hbody (by simp)⟩
    · exact absurd h (by simp)

theorem StrState.run_cons {st st' : StrState} {b : UInt8} {s out : CStr}
    (h : st.run (b :: s) = some (st', out)) :
    ∃ st₁ out₁ out₂, st.step b = some (st₁, out₁) ∧ st₁.run s = some (st', out₂) ∧
      out = out₁ ++ out₂ := by
  rw [StrState.run, Option.bind_eq_some_iff] at h
  obtain ⟨⟨st₁, out₁⟩, hstep, hrest⟩ := h
  obtain ⟨⟨st₂, out₂⟩, hrun, heq⟩ := Option.map_eq_some_iff.mp hrest
  obtain ⟨rfl, rfl⟩ := Prod.mk.inj heq
  exact ⟨st₁, out₁, out₂, hstep, hrun, rfl⟩

theorem StrState.run_length {st st' : StrState} {s out : CStr} (h : st.run s = some (st', out)) :
    out.length + st'.pending ≤ st.pending + s.length := by
  induction s generalizing st out with
  | nil =>
    rw [StrState.run, Option.some_inj, Prod.mk.injEq] at h
    obtain ⟨rfl, rfl⟩ := h
    simp
  | cons b s ih =>
    obtain ⟨st₁, out₁, out₂, hstep, hrun, rfl⟩ := StrState.run_cons h
    have hone := (StrState.step_length hstep).1
    have hrest := ih hrun
    rw [List.length_append, List.length_cons]
    omega

theorem StrState.run_length_lt {st : StrState} {s out : CStr} (hst : st ≠ .body)
    (h : st.run s = some (.body, out)) : out.length < st.pending + s.length := by
  induction s generalizing st out with
  | nil =>
    rw [StrState.run, Option.some_inj, Prod.mk.injEq] at h
    exact absurd h.1 hst
  | cons b s ih =>
    obtain ⟨st₁, out₁, out₂, hstep, hrun, rfl⟩ := StrState.run_cons h
    obtain ⟨hone, hfinish⟩ := StrState.step_length hstep
    rw [List.length_append, List.length_cons]
    by_cases hbody : st₁ = .body
    · subst hbody
      have hrest := StrState.run_length hrun
      have hcost := hfinish hst rfl
      simp only [StrState.pending] at hrest
      omega
    · have hrest := ih hbody hrun
      omega

theorem plain_of_run {s : CStr} (h : StrState.body.run s = some (.body, s)) : Plain s := by
  have hgen : ∀ {s out : CStr}, StrState.body.run s = some (.body, out) →
      out.length = s.length → Plain s := by
    intro s
    induction s with
    | nil => exact fun _ _ ↦ plain_nil
    | cons b s ih =>
      intro out h hlen
      obtain ⟨st₁, out₁, out₂, hstep, hrun, rfl⟩ := StrState.run_cons h
      rw [List.length_append, List.length_cons] at hlen
      rw [StrState.step] at hstep
      split at hstep
      · exact absurd hstep (by simp)
      · rename_i hstop
        rw [not_or, UInt8.not_lt] at hstop
        split at hstep
        · simp only [Option.some_inj, Prod.mk.injEq] at hstep
          obtain ⟨rfl, rfl⟩ := hstep
          have hlt := StrState.run_length_lt (by simp) hrun
          simp only [StrState.pending, List.length_nil] at hlt hlen
          omega
        · rename_i hback
          simp only [Option.some_inj, Prod.mk.injEq] at hstep
          obtain ⟨rfl, rfl⟩ := hstep
          rw [List.length_singleton] at hlen
          intro c hc
          rcases List.mem_cons.mp hc with rfl | hc
          · exact ⟨hstop.2, hstop.1, hback⟩
          · exact ih hrun (by omega) c hc
  exact hgen h rfl

/-- Reading on inside a string: it is still open at the end, or it was closed at some quote. -/
theorem Reader.run_str_cases {st : StrState} {acc s : CStr} {stack : List Frame} {r : Reader}
    (h : Reader.run ⟨.str st acc, stack⟩ s = some r) :
    (∃ st' out, st.run s = some (st', out) ∧ r = ⟨.str st' (acc ++ out), stack⟩) ∨
      ∃ w t out, s = w ++ 34 :: t ∧ st.run w = some (.body, out) ∧
        Reader.run ⟨.after (.str (acc ++ out)), stack⟩ t = some r := by
  induction s generalizing st acc with
  | nil =>
    rw [Reader.run, Option.some_inj] at h
    exact Or.inl ⟨st, [], rfl, by rw [← h, List.append_nil]⟩
  | cons b s ih =>
    rw [Reader.run, Option.bind_eq_some_iff] at h
    obtain ⟨r₁, hstep, hrun⟩ := h
    rw [Reader.step] at hstep
    dsimp only at hstep
    split at hstep
    · rename_i hquote
      obtain ⟨rfl, rfl⟩ := hquote
      rw [Option.some_inj] at hstep
      subst hstep
      exact Or.inr ⟨[], s, [], rfl, rfl, by rwa [List.append_nil]⟩
    · obtain ⟨⟨st₁, out₁⟩, hst, rfl⟩ := Option.map_eq_some_iff.mp hstep
      rcases ih hrun with ⟨st', out, hout, rfl⟩ | ⟨w, t, out, rfl, hout, hrest⟩
      · refine Or.inl ⟨st', out₁ ++ out, ?_, by rw [List.append_assoc]⟩
        rw [StrState.run, hst, Option.bind_some]
        dsimp only
        rw [hout]
        rfl
      · refine Or.inr ⟨b :: w, t, out₁ ++ out, rfl, ?_, by rwa [← List.append_assoc]⟩
        rw [StrState.run, hst, Option.bind_some]
        dsimp only
        rw [hout]
        rfl

/-! ## Members that have been read stay

Two readers inside the same object, of which one has read the members `ps` in addition before. -/

/-- Outside all frames but that of the object itself. -/
inductive Mode.Over (ps : List (CStr × Json)) : Mode → Mode → Prop
  | key (done : List (CStr × Json)) : Over ps (.key done) (.key (ps ++ done))
  | keyStr (done : List (CStr × Json)) (st : StrState) (acc : CStr) :
      Over ps (.keyStr done st acc) (.keyStr (ps ++ done) st acc)
  | colon (done : List (CStr × Json)) (key : CStr) :
      Over ps (.colon done key) (.colon (ps ++ done) key)
  | after (ms : List (CStr × Json)) : Over ps (.after (.obj ms)) (.after (.obj (ps ++ ms)))

inductive Reader.Over (ps : List (CStr × Json)) : Reader → Reader → Prop
  | inside (mode : Mode) (top : List Frame) (done : List (CStr × Json)) (key : CStr) :
      Over ps ⟨mode, top ++ [.obj done key]⟩ ⟨mode, top ++ [.obj (ps ++ done) key]⟩
  | outside {m m' : Mode} (h : m.Over ps m') : Over ps ⟨m, []⟩ ⟨m', []⟩

namespace Reader

variable {ps : List (CStr × Json)}

theorem over_startValue (top : List Frame) (done : List (CStr × Json)) (key : CStr) (b : UInt8) :
    Option.Rel (Over ps) (startValue (top ++ [.obj done key]) b)
      (startValue (top ++ [.obj (ps ++ done) key]) b) := by
  rw [startValue, startValue]
  split_ifs <;> try exact .some (.inside _ top done key)
  cases NumState.start b with
  | none => exact .none
  | some st => exact .some (.inside _ top done key)

theorem over_afterValue (top : List Frame) (done : List (CStr × Json)) (key : CStr) (v : Json)
    (b : UInt8) :
    Option.Rel (Over ps) (afterValue (top ++ [.obj done key]) v b)
      (afterValue (top ++ [.obj (ps ++ done) key]) v b) := by
  cases top with
  | nil =>
    -- the object itself: a comma goes on to the next member, a brace ends it
    rw [List.nil_append, List.nil_append, afterValue, afterValue, List.append_assoc]
    split_ifs
    · exact .some (.inside _ [] done key)
    · exact .some (.outside (.key _))
    · exact .some (.outside (.after _))
    · exact .none
  | cons f top =>
    rw [List.cons_append, List.cons_append]
    cases f with
    | arr d =>
      rw [afterValue, afterValue]
      split_ifs
      · exact .some (.inside _ (.arr d :: top) done key)
      · exact .some (.inside _ (.arr (d ++ [v]) :: top) done key)
      · exact .some (.inside _ top done key)
      · exact .none
    | obj d k =>
      rw [afterValue, afterValue]
      split_ifs
      · exact .some (.inside _ (.obj d k :: top) done key)
      · exact .some (.inside _ top done key)
      · exact .some (.inside _ top done key)
      · exact .none

theorem Over.step {r r' : Reader} (h : Over ps r r') (b : UInt8) :
    Option.Rel (Over ps) (r.step b) (r'.step b) := by
  rcases h with ⟨mode, top, done, key⟩ | h
  · rw [Reader.step, Reader.step]
    dsimp only
    cases mode with
    | value =>
      dsimp only
      split_ifs
      · exact .some (.inside _ top done key)
      · exact over_startValue top done key b
    | elemOrEnd =>
      dsimp only
      split_ifs
      · exact .some (.inside _ top done key)
      · exact .some (.inside _ top done key)
      · exact over_startValue (.arr [] :: top) done key b
    | keyOrEnd =>
      dsimp only
      split_ifs <;> first | exact .none | exact .some (.inside _ top done key)
    | key d =>
      dsimp only
      split_ifs <;> first | exact .none | exact .some (.inside _ top done key)
    | keyStr d st acc =>
      dsimp only
      split_ifs
      · exact .some (.inside _ top done key)
      · cases st.step b with
        | none => exact .none
        | some p => exact .some (.inside _ top done key)
    | colon d k =>
      dsimp only
      split_ifs
      · exact .some (.inside _ top done key)
      · exact .some (.inside _ (.obj d k :: top) done key)
      · exact .none
    | str st acc =>
      dsimp only
      split_ifs
      · exact .some (.inside _ top done key)
      · cases st.step b with
        | none => exact .none
        | some p => exact .some (.inside _ top done key)
    | num st acc =>
      dsimp only
      cases st.step b with
      | none =>
        dsimp only
        split_ifs
        · exact over_afterValue top done key (.num acc) b
        · exact .none
      | some st => exact .some (.inside _ top done key)
    | lit rest v =>
      cases rest with
      | nil => exact .none
      | cons c rest =>
        dsimp only
        split_ifs <;> first | exact .none | exact .some (.inside _ top done key)
    | after v => exact over_afterValue top done key v b
  · rw [Reader.step, Reader.step]
    cases h with
    | key d =>
      dsimp only
      split_ifs
      · exact .some (.outside (.key d))
      · exact .some (.outside (.keyStr d _ _))
      · exact .none
    | keyStr d st acc =>
      dsimp only
      split_ifs
      · exact .some (.outside (.colon d acc))
      · cases st.step b with
        | none => exact .none
        | some p => exact .some (.outside (.keyStr d _ _))
    | colon d k =>
      dsimp only
      split_ifs
      · exact .some (.outside (.colon d k))
      · exact .some (.inside _ [] d k)
      · exact .none
    | after ms =>
      dsimp only
      rw [afterValue, afterValue]
      split_ifs
      · exact .some (.outside (.after ms))
      · exact .none

theorem Over.run {r r' : Reader} (h : Over ps r r') (s : CStr) :
    Option.Rel (Over ps) (r.run s) (r'.run s) := by
  induction s generalizing r r' with
  | nil => exact .some h
  | cons b s ih =>
    have hstep := h.step b
    rw [Reader.run, Reader.run]
    generalize r.step b = x, r'.step b = y at hstep ⊢
    rcases hstep with hnext | -
    · exact ih hnext
    · exact .none

theorem Over.result {r r' : Reader} (h : Over ps r r') {v : Json} :
    r'.result = some v ↔ ∃ ms, r.result = some (.obj ms) ∧ v = .obj (ps ++ ms) := by
  rcases h with ⟨mode, top, done, key⟩ | h
  · have hnone : ∀ f : Frame, (Reader.mk mode (top ++ [f])).result = none := by
      intro f
      obtain ⟨g, gs, hg⟩ := List.exists_cons_of_ne_nil (List.append_ne_nil_of_right_ne_nil top
        (List.cons_ne_nil f []))
      rw [hg, Reader.result]
      cases mode <;> rfl
    rw [hnone, hnone]
    exact iff_of_false (by simp) (by simp)
  · cases h with
    | key d => exact iff_of_false (by simp [Reader.result]) (by simp [Reader.result])
    | keyStr d st acc => exact iff_of_false (by simp [Reader.result]) (by simp [Reader.result])
    | colon d k => exact iff_of_false (by simp [Reader.result]) (by simp [Reader.result])
    | after ms =>
      constructor
      · intro h
        exact ⟨ms, rfl, (Option.some_inj.mp h).symm⟩
      · rintro ⟨ms', h, rfl⟩
        have hms : Json.obj ms = .obj ms' := Option.some_inj.mp h
        rw [Json.obj.injEq] at hms
        rw [hms]
        rfl

end Reader

/-! ## Objects member by member -/

theorem memberList_cons_of_ne_nil {ms : List (String × CStr)} (h : ms ≠ []) (m : String × CStr) :
    memberList (m :: ms) = member m.1 m.2 ++ 44 :: memberList ms := by
  obtain ⟨n, ms, rfl⟩ := List.exists_cons_of_ne_nil h
  rfl

theorem memberList_eq_cons {ms : List (String × CStr)} (h : ms ≠ []) :
    ∃ t, memberList ms = 34 :: t := by
  obtain ⟨m, ms, rfl⟩ := List.exists_cons_of_ne_nil h
  cases ms with
  | nil => exact ⟨_, by rw [memberList, member_eq]⟩
  | cons n ms => exact ⟨_, by rw [memberList, member_eq, List.cons_append]⟩

/-- An object that is not empty is read like the members after a comma. -/
theorem parse_object {ms : List (String × CStr)} (h : ms ≠ []) :
    parse (object ms) = (Reader.run ⟨.key [], []⟩ (memberList ms ++ [125])).bind Reader.result := by
  obtain ⟨t, ht⟩ := memberList_eq_cons h
  rw [parse, object, ht]
  rfl

theorem run_members {pre : List (String × CStr)} {kvs : List (CStr × Json)}
    (h : List.Forall₂ MemberReads pre kvs) {rest : List (String × CStr)} (hrest : rest ≠ [])
    (done : List (CStr × Json)) (stack : List Frame) (t : CStr) :
    Reader.run ⟨.key done, stack⟩ (memberList (pre ++ rest) ++ t)
      = Reader.run ⟨.key (done ++ kvs), stack⟩ (memberList rest ++ t) := by
  induction h generalizing done with
  | nil => rw [List.nil_append, List.append_nil]
  | @cons m kv pre kvs hhead _ ih =>
    obtain ⟨hkey, hname, hreads⟩ := hhead
    obtain ⟨r, hrun, hends⟩ := run_member hname hreads done stack
    have hcomma : r.step 44 = some ⟨.key (done ++ [kv]), stack⟩ := by
      have hkv : (ascii m.1, kv.2) = kv := by rw [← hkey]
      rw [hends.step (Or.inl rfl), ← hkv]
      rfl
    rw [List.cons_append, memberList_cons_of_ne_nil (List.append_ne_nil_of_right_ne_nil pre hrest),
      member_eq, List.cons_append, List.cons_append,
      Reader.run_cons_of_eq (q := ⟨.keyStr done .body [], stack⟩) rfl, List.append_assoc,
      Reader.run_append_of_eq hrun, List.cons_append, Reader.run_cons_of_eq hcomma, ih,
      List.append_assoc, List.singleton_append]

/-- Members that read back in front of others, which need not. -/
theorem parse_object_append {pre : List (String × CStr)} {kvs : List (CStr × Json)}
    (h : List.Forall₂ MemberReads pre kvs) {rest : List (String × CStr)} (hrest : rest ≠ [])
    {v : Json} :
    parse (object (pre ++ rest)) = some v ↔
      ∃ ms, parse (object rest) = some (.obj ms) ∧ v = .obj (kvs ++ ms) := by
  rw [parse_object (List.append_ne_nil_of_right_ne_nil pre hrest), parse_object hrest,
    run_members h hrest, List.nil_append]
  have hover : Reader.Over kvs ⟨.key [], []⟩ ⟨.key kvs, []⟩ := by
    have hkey : Mode.Over kvs (.key []) (.key (kvs ++ [])) := .key []
    rw [List.append_nil] at hkey
    exact .outside hkey
  have hrun := hover.run (memberList rest ++ [125])
  generalize Reader.run ⟨.key [], []⟩ (memberList rest ++ [125]) = x,
    Reader.run ⟨.key kvs, []⟩ (memberList rest ++ [125]) = y at hrun ⊢
  rcases hrun with hnext | -
  · rw [Option.bind_some, Option.bind_some]
    exact hnext.result
  · exact iff_of_false (by simp) (by simp)

/-! ## A member that is not escaped -/

/-- A quote, a comma and a quote do not fit into a string, wherever it is taken up. -/
theorem run_quote_comma_quote (st : StrState) (t : CStr) : st.run (34 :: 44 :: 34 :: t) = none := by
  cases st <;> rfl

theorem result_after {done : List (CStr × Json)} {key : CStr} {v w : Json} {t : CStr} {r : Reader}
    (hrun : Reader.run ⟨.after v, [.obj done key]⟩ t = some r) (hres : r.result = some w) :
    ∃ ms, w = .obj (done ++ (key, v) :: ms) := by
  have hover : ∀ {m m' : Mode} {t : CStr}, m.Over (done ++ [(key, v)]) m' →
      Reader.run ⟨m', []⟩ t = some r → ∃ ms, w = .obj (done ++ (key, v) :: ms) := by
    intro m m' t hm hrun
    have h := (Reader.Over.outside hm).run t
    rw [hrun] at h
    generalize Reader.run ⟨m, []⟩ t = x at h
    cases h with
    | some hnext =>
      obtain ⟨ms, -, rfl⟩ := hnext.result.mp hres
      exact ⟨ms, by rw [List.append_assoc, List.singleton_append]⟩
  induction t with
  | nil =>
    rw [Reader.run, Option.some_inj] at hrun
    rw [← hrun] at hres
    exact absurd hres (by simp [Reader.result])
  | cons b t ih =>
    rw [Reader.run, Option.bind_eq_some_iff] at hrun
    obtain ⟨r₁, hstep, hrest⟩ := hrun
    rw [Reader.step] at hstep
    dsimp only at hstep
    rw [Reader.afterValue] at hstep
    split_ifs at hstep
    · rw [Option.some_inj] at hstep
      exact ih (hstep ▸ hrest)
    · rw [Option.some_inj] at hstep
      have hkey : Mode.Over (done ++ [(key, v)]) (.key []) (.key (done ++ [(key, v)] ++ [])) :=
        .key []
      rw [List.append_nil] at hkey
      exact hover hkey (hstep ▸ hrest)
    · rw [Option.some_inj] at hstep
      have hafter : Mode.Over (done ++ [(key, v)]) (.after (.obj []))
          (.after (.obj (done ++ [(key, v)] ++ []))) := .after []
      rw [List.append_nil] at hafter
      exact hover hafter (hstep ▸ hrest)

/-- A text `s` and its closing quote, followed by a comma and a quote, read as a string that is `s`
and ends at a quote after which something else follows than the name: then it ends at its own. -/
theorem plain_of_closing {s w t u : CStr} {c : UInt8}
    (htext : s ++ 34 :: 44 :: 34 :: c :: u = w ++ 34 :: t)
    (hout : StrState.body.run w = some (.body, s)) (hname : t ≠ c :: u) : Plain s := by
  rcases List.append_eq_append_iff.mp htext with ⟨x, hw, hx⟩ | ⟨x, hs, hx⟩
  · -- the string ends no earlier than its closing quote
    rcases x with - | ⟨b, x⟩
    · rw [List.append_nil] at hw
      rw [hw] at hout
      exact plain_of_run hout
    · obtain ⟨rfl, hx₁⟩ := List.cons.inj hx
      clear hx
      rcases x with - | ⟨b, x⟩
      · exact absurd (List.cons.inj hx₁).1 (by decide)
      · obtain ⟨rfl, hx₂⟩ := List.cons.inj hx₁
        clear hx₁
        rcases x with - | ⟨b, x⟩
        · exact absurd (List.cons.inj hx₂).2.symm hname
        · obtain ⟨rfl, -⟩ := List.cons.inj hx₂
          rw [hw, StrState.run_append] at hout
          obtain ⟨⟨st, out⟩, -, hmap⟩ := Option.bind_eq_some_iff.mp hout
          dsimp only at hmap
          rw [run_quote_comma_quote] at hmap
          exact absurd hmap (by simp)
  · -- the string ends before its closing quote, unless there is nothing in between
    rcases x with - | ⟨b, x⟩
    · rw [List.append_nil] at hs
      rw [← hs] at hout
      exact plain_of_run hout
    · have hlen := StrState.run_length hout
      have hlonger := congrArg List.length hs
      rw [List.length_append, List.length_cons] at hlonger
      simp only [StrState.pending] at hlen
      omega

/-- Whatever is printed between the quotes of the first member, if the text is read at all, then
the first member is some string; and if it is the one that was printed, that string is plain. -/
theorem parse_raw_member {name : String} (hname : Plain (ascii name)) {s : CStr}
    {m : String × CStr} {rest : List (String × CStr)} {c : UInt8} {cs : CStr}
    (hm : ascii m.1 = c :: cs) (hc : isSpace c = false ∧ c ≠ 44 ∧ c ≠ 125) {v : Json}
    (h : parse (object ((name, quoted s) :: m :: rest)) = some v) :
    ∃ out ms, v = .obj ((ascii name, .str out) :: ms) ∧ (out = s → Plain s) := by
  obtain ⟨u, hu⟩ : ∃ u, memberList (m :: rest) ++ [125] = 34 :: c :: u := by
    cases rest with
    | nil => exact ⟨_, by rw [memberList, member_eq, hm]; rfl⟩
    | cons n rest => exact ⟨_, by rw [memberList, member_eq, hm]; rfl⟩
  have hstart : Reader.run ⟨.key [], []⟩ (memberList ((name, quoted s) :: m :: rest) ++ [125])
      = Reader.run ⟨.str .body [], [.obj [] (ascii name)]⟩ (s ++ 34 :: 44 :: 34 :: c :: u) := by
    have htext : memberList ((name, quoted s) :: m :: rest) ++ [125]
        = 34 :: (ascii name ++ 34 :: 58 :: 34 :: (s ++ 34 :: 44 :: 34 :: c :: u)) := by
      rw [memberList, member_eq, quoted, List.append_assoc, List.cons_append (a := 44), hu]
      simp only [List.cons_append, List.append_assoc, List.nil_append]
    rw [htext, Reader.run_cons_of_eq (q := ⟨.keyStr [] .body [], []⟩) rfl,
      Reader.run_append_of_eq (run_key hname [] [] []), List.nil_append,
      Reader.run_cons_of_eq (q := ⟨.colon [] (ascii name), []⟩) rfl,
      Reader.run_cons_of_eq (q := ⟨.value, [.obj [] (ascii name)]⟩) rfl,
      Reader.run_cons_of_eq (q := ⟨.str .body [], [.obj [] (ascii name)]⟩) rfl]
  rw [parse_object (List.cons_ne_nil _ _), hstart, Option.bind_eq_some_iff] at h
  obtain ⟨r, hrun, hres⟩ := h
  rcases Reader.run_str_cases hrun with ⟨st, out, -, rfl⟩ | ⟨w, t, out, htext, hout, hrest⟩
  · exact absurd hres (by simp [Reader.result])
  · rw [List.nil_append] at hrest
    obtain ⟨ms, rfl⟩ := result_after hrest hres
    refine ⟨out, ms, rfl, ?_⟩
    rintro rfl
    refine plain_of_closing htext hout ?_
    rintro rfl
    -- the name of the next member cannot follow a value
    rw [Reader.run, Reader.step] at hrest
    dsimp only at hrest
    rw [Reader.afterValue, hc.1, if_neg Bool.false_ne_true, if_neg hc.2.1, if_neg hc.2.2] at hrest
    exact absurd hrest (by simp)

/-! ## Lines -/

/-- One line of text: UTF-8, and no control character in it. -/
def Clean (s : CStr) : Prop := ValidUtf8 s ∧ ∀ b ∈ s, 32 ≤ b

theorem Clean.append {s t : CStr} (hs : Clean s) (ht : Clean t) : Clean (s ++ t) := by
  refine ⟨hs.1.append ht.1, fun b hb ↦ ?_⟩
  rcases List.mem_append.mp hb with h | h
  · exact hs.2 b h
  · exact ht.2 b h

theorem clean_of_printable {s : CStr} (h : ∀ b ∈ s, 32 ≤ b ∧ b < 128) : Clean s :=
  ⟨validUtf8_of_ascii fun b hb ↦ (h b hb).2, fun b hb ↦ (h b hb).1⟩

theorem clean_of_token {s : CStr} (h : Token s) : Clean s :=
  clean_of_printable fun b hb ↦ ⟨(plain_of_token h b hb).1, h.lt hb⟩

theorem clean_append_cons_iff {b : UInt8} (hb : 32 ≤ b ∧ b < 128) (s t : CStr) :
    Clean (s ++ b :: t) ↔ Clean s ∧ Clean t := by
  rw [Clean, validUtf8_append_cons_iff hb.2]
  constructor
  · rintro ⟨⟨hs, ht⟩, hall⟩
    exact ⟨⟨hs, fun c hc ↦ hall c (List.mem_append_left _ hc)⟩,
      ⟨ht, fun c hc ↦ hall c (List.mem_append_right _ (List.mem_cons_of_mem b hc))⟩⟩
  · rintro ⟨hs, ht⟩
    refine ⟨⟨hs.1, ht.1⟩, fun c hc ↦ ?_⟩
    rcases List.mem_append.mp hc with hc | hc
    · exact hs.2 c hc
    · rcases List.mem_cons.mp hc with rfl | hc
      · exact hb.1
      · exact ht.2 c hc

theorem clean_quoted_iff (s : CStr) : Clean (quoted s) ↔ Clean s := by
  have hquote : (32 : UInt8) ≤ 34 ∧ (34 : UInt8) < 128 := by decide
  have hnil : Clean [] := clean_of_printable (by decide)
  have hopen := clean_append_cons_iff hquote [] (s ++ [34])
  rw [clean_append_cons_iff hquote s []] at hopen
  exact hopen.trans ⟨fun h ↦ h.2.1, fun h ↦ ⟨hnil, h, hnil⟩⟩

theorem clean_member_iff {name : String} (hname : Clean (ascii name)) (s : CStr) :
    Clean (member name s) ↔ Clean s := by
  rw [member, clean_append_cons_iff (by decide), clean_quoted_iff]
  exact and_iff_right hname

theorem clean_memberList {ms : List (String × CStr)}
    (h : ∀ m ∈ ms, Clean (ascii m.1) ∧ Clean m.2) : Clean (memberList ms) := by
  induction ms with
  | nil => exact clean_of_printable (by decide)
  | cons m ms ih =>
    obtain ⟨hname, hvalue⟩ := h m List.mem_cons_self
    have hmember : Clean (member m.1 m.2) := (clean_member_iff hname m.2).mpr hvalue
    by_cases hms : ms = []
    · rw [hms, memberList]
      exact hmember
    · rw [memberList_cons_of_ne_nil hms, clean_append_cons_iff (by decide)]
      exact ⟨hmember, ih fun n hn ↦ h n (List.mem_cons_of_mem m hn)⟩

theorem clean_object_iff (ms : List (String × CStr)) :
    Clean (object ms) ↔ Clean (memberList ms) := by
  have hbrace : (32 : UInt8) ≤ 123 ∧ (123 : UInt8) < 128 := by decide
  have hclose : (32 : UInt8) ≤ 125 ∧ (125 : UInt8) < 128 := by decide
  have hnil : Clean [] := clean_of_printable (by decide)
  have hopen := clean_append_cons_iff hbrace [] (memberList ms ++ [125])
  rw [clean_append_cons_iff hclose (memberList ms) []] at hopen
  exact hopen.trans ⟨fun h ↦ h.2.1, fun h ↦ ⟨hnil, h, hnil⟩⟩

theorem memberList_append {pre rest : List (String × CStr)} (hpre : pre ≠ []) (hrest : rest ≠ []) :
    memberList (pre ++ rest) = memberList pre ++ 44 :: memberList rest := by
  induction pre with
  | nil => exact absurd rfl hpre
  | cons m pre ih =>
    rw [List.cons_append, memberList_cons_of_ne_nil (List.append_ne_nil_of_right_ne_nil pre hrest)]
    by_cases h : pre = []
    · rw [h, List.nil_append, memberList]
    · rw [ih h, memberList_cons_of_ne_nil h, List.append_assoc, List.cons_append]

/-- The text is one line, and on it one JSON value. -/
def IsJsonLine (s : CStr) (v : Json) : Prop := Clean s ∧ parse s = some v

theorem membersOf_append {name : CStr} {kvs ms : List (CStr × Json)}
    (h : ∀ kv ∈ kvs, kv.1 ≠ name) :
    membersOf name (.obj (kvs ++ ms)) = membersOf name (.obj ms) := by
  have hnone : kvs.filter (fun m ↦ m.1 = name) = [] :=
    List.filter_eq_nil_iff.mpr fun kv hkv ↦ by simpa using h kv hkv
  rw [membersOf, membersOf, List.filter_append, hnone, List.nil_append]

theorem membersOf_cons_self (name : CStr) (v : Json) (ms : List (CStr × Json)) :
    membersOf name (.obj ((name, v) :: ms)) = v :: membersOf name (.obj ms) := by
  rw [membersOf, membersOf, List.filter_cons_of_pos (by simp), List.map_cons]

section Member

variable {pre : List (String × CStr)} {kvs : List (CStr × Json)} {name : String} {s : CStr}
  {m : String × CStr} {rest : List (String × CStr)} {c : UInt8} {cs : CStr}

/-- A text with one member printed as it is, between members that read back and others that need
not: it is an object in which the member is what was printed if and only if what was printed is
plain, and the members after it are by themselves an object without another of that name. -/
theorem parse_raw_member_iff (hpre : List.Forall₂ MemberReads pre kvs)
    (hkeys : ∀ kv ∈ kvs, kv.1 ≠ ascii name) (hname : Plain (ascii name)) (hm : ascii m.1 = c :: cs)
    (hc : isSpace c = false ∧ c ≠ 44 ∧ c ≠ 125) :
    (∃ ms, parse (object (pre ++ (name, quoted s) :: m :: rest)) = some (.obj ms) ∧
        membersOf (ascii name) (.obj ms) = [.str s]) ↔
      Plain s ∧ ∃ ms, parse (object (m :: rest)) = some (.obj ms) ∧
        membersOf (ascii name) (.obj ms) = [] := by
  have hafter : Plain s → ∀ {ms : List (CStr × Json)},
      parse (object ((name, quoted s) :: m :: rest)) = some (.obj ms) ↔
        ∃ ms', parse (object (m :: rest)) = some (.obj ms') ∧ ms = (ascii name, .str s) :: ms' := by
    intro hplain ms
    have hone : List.Forall₂ MemberReads [(name, quoted s)] [(ascii name, .str s)] :=
      .cons (memberReads hname (reads_quoted hplain)) .nil
    have happ := parse_object_append hone (List.cons_ne_nil m rest) (v := .obj ms)
    rw [List.singleton_append] at happ
    simp only [Json.obj.injEq, List.singleton_append] at happ
    exact happ
  constructor
  · rintro ⟨ms, hparse, hmem⟩
    obtain ⟨ms', hparse', heq⟩ := (parse_object_append hpre (List.cons_ne_nil _ _)).mp hparse
    rw [Json.obj.injEq] at heq
    obtain ⟨out, tail, hfirst, hplain⟩ := parse_raw_member hname hm hc hparse'
    rw [Json.obj.injEq] at hfirst
    rw [heq, membersOf_append hkeys, hfirst, membersOf_cons_self, List.cons.injEq,
      Json.str.injEq] at hmem
    obtain ⟨ms'', hrest, htail⟩ := (hafter (hplain hmem.1)).mp hparse'
    rw [hfirst, List.cons.injEq] at htail
    exact ⟨hplain hmem.1, ms'', hrest, htail.2 ▸ hmem.2⟩
  · rintro ⟨hplain, ms, hrest, hmem⟩
    refine ⟨kvs ++ (ascii name, .str s) :: ms, ?_, ?_⟩
    · exact (parse_object_append hpre (List.cons_ne_nil _ _)).mpr
        ⟨_, (hafter hplain).mpr ⟨ms, hrest, rfl⟩, rfl⟩
    · rw [membersOf_append hkeys, membersOf_cons_self, hmem]

/-- The same for a line, where what was printed must be in UTF-8 too. -/
theorem raw_member_iff (hpre : List.Forall₂ MemberReads pre kvs) (hne : pre ≠ [])
    (hclean : Clean (memberList pre)) (hkeys : ∀ kv ∈ kvs, kv.1 ≠ ascii name)
    (hname : Plain (ascii name) ∧ Clean (ascii name)) (hm : ascii m.1 = c :: cs)
    (hc : isSpace c = false ∧ c ≠ 44 ∧ c ≠ 125) :
    (∃ ms, IsJsonLine (object (pre ++ (name, quoted s) :: m :: rest)) (.obj ms) ∧
        membersOf (ascii name) (.obj ms) = [.str s]) ↔
      Plain s ∧ ValidUtf8 s ∧ ∃ ms, IsJsonLine (object (m :: rest)) (.obj ms) ∧
        membersOf (ascii name) (.obj ms) = [] := by
  have hcut : Clean (object (pre ++ (name, quoted s) :: m :: rest)) ↔
      Clean s ∧ Clean (object (m :: rest)) := by
    rw [clean_object_iff, clean_object_iff, memberList_append hne (List.cons_ne_nil _ _),
      clean_append_cons_iff (by decide), memberList_cons_of_ne_nil (List.cons_ne_nil m rest),
      clean_append_cons_iff (by decide), clean_member_iff hname.2, clean_quoted_iff]
    exact and_iff_right hclean
  have hiff : (∃ ms, parse (object (pre ++ (name, quoted s) :: m :: rest)) = some (.obj ms) ∧
      membersOf (ascii name) (.obj ms) = [.str s]) ↔
        Plain s ∧ ∃ ms, parse (object (m :: rest)) = some (.obj ms) ∧
          membersOf (ascii name) (.obj ms) = [] :=
    parse_raw_member_iff hpre hkeys hname.1 hm hc
  constructor
  · rintro ⟨ms, ⟨hline, hparse⟩, hmem⟩
    obtain ⟨hs, hrestClean⟩ := hcut.mp hline
    obtain ⟨hplain, ms', hrest, hnone⟩ := hiff.mp ⟨ms, hparse, hmem⟩
    exact ⟨hplain, hs.1, ms', ⟨hrestClean, hrest⟩, hnone⟩
  · rintro ⟨hplain, hutf8, ms, ⟨hrestClean, hrest⟩, hmem⟩
    obtain ⟨ms', hparse, hmem'⟩ := hiff.mpr ⟨hplain, ms, hrest, hmem⟩
    have hs : Clean s := ⟨hutf8, fun b hb ↦ (hplain b hb).1⟩
    exact ⟨ms', ⟨hcut.mpr ⟨hs, hrestClean⟩, hparse⟩, hmem'⟩

end Member

end Json

end NetForensics

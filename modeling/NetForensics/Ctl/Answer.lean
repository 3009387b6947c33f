import NetForensics.Ctl.Weight
import NetForensics.Ipc.Render

/-!
# An answer with an object in it

The table the control client makes of such an answer, however its bytes come in, has all the fields
exactly when the strings that are printed as they are consist of harmless bytes and do not close
more brackets than they have opened.
-/

namespace NetForensics

open Json

/-! ## Brackets in a string -/

/-- Nowhere in the text have more brackets been closed than opened. -/
def NoExcess (s : CStr) : Prop := ∀ p, p <+: s → p.countP isClosing ≤ p.countP isOpening

theorem isClosing_of_isOpening {b : UInt8} (h : isOpening b = true) : isClosing b = false := by
  rw [isOpening, Bool.or_eq_true, beq_iff_eq, beq_iff_eq] at h
  rcases h with rfl | rfl <;> rfl

/-- From the depth on, every start of the text leaves the depth positive. -/
def StaysPositive (depth : ℤ) (s : CStr) : Prop :=
  ∀ p, p <+: s → (p.countP isClosing : ℤ) < depth + p.countP isOpening

theorem staysPositive_cons {depth d : ℤ} (hdepth : 0 < depth) {b : UInt8}
    (hd : d = depth + (if isOpening b then 1 else 0) - (if isClosing b then 1 else 0)) (s : CStr) :
    StaysPositive depth (b :: s) ↔ StaysPositive d s := by
  have hclose : ∀ p : CStr, ((b :: p).countP isClosing : ℤ)
      = p.countP isClosing + if isClosing b then 1 else 0 := fun p ↦ by
    rw [List.countP_cons]
    split <;> simp
  have hopen : ∀ p : CStr, ((b :: p).countP isOpening : ℤ)
      = p.countP isOpening + if isOpening b then 1 else 0 := fun p ↦ by
    rw [List.countP_cons]
    split <;> simp
  constructor
  · intro h p hp
    have hb := h (b :: p) ((List.prefix_cons_inj b).mpr hp)
    rw [hclose, hopen] at hb
    omega
  · intro h p hp
    cases p with
    | nil => simpa using hdepth
    | cons c p =>
      obtain ⟨rfl, htail⟩ := List.cons_prefix_cons.mp hp
      have hb := h p htail
      rw [hclose, hopen]
      omega

theorem depthAfter_ne_none_iff {depth : ℤ} (hdepth : 0 < depth) (s : CStr) :
    depthAfter depth s ≠ none ↔ StaysPositive depth s := by
  fun_induction depthAfter depth s with
  | case1 depth =>
    refine iff_of_true (Option.some_ne_none depth) fun p hp ↦ ?_
    rw [List.prefix_nil.mp hp]
    simpa using hdepth
  | case2 depth b s hopen ih =>
    rw [ih (by omega), staysPositive_cons hdepth (d := depth + 1)]
    rw [if_pos hopen, isClosing_of_isOpening hopen, if_neg Bool.false_ne_true, sub_zero]
  | case3 depth b s hopen hclose hzero =>
    refine iff_of_false (fun h ↦ h rfl) fun h ↦ ?_
    rw [staysPositive_cons hdepth (d := 0)] at h
    · exact lt_irrefl _ (h [] List.nil_prefix)
    · rw [if_neg hopen, if_pos hclose]
      omega
  | case4 depth b s hopen hclose hzero ih =>
    rw [ih (by omega), staysPositive_cons hdepth (d := depth - 1)]
    rw [if_neg hopen, if_pos hclose, add_zero]
  | case5 depth b s hopen hclose ih =>
    rw [ih hdepth, staysPositive_cons hdepth (d := depth)]
    rw [if_neg hopen, if_neg hclose, add_zero, sub_zero]

theorem depthAfter_one_iff (s : CStr) : depthAfter 1 s ≠ none ↔ NoExcess s := by
  rw [depthAfter_ne_none_iff one_pos, StaysPositive, NoExcess]
  refine forall₂_congr fun p _ ↦ ?_
  omega

/-! ## What arrives -/

def ArrivesAs (bytes : CStr) (chunks : List CStr) : Prop :=
  chunks.flatten = bytes ∧ ∀ c ∈ chunks, c ≠ []

theorem length_responseBytes {text : CStr} (h : text.length < cpeIpcLineMax) :
    (responseBytes text).length < cpeIpcLineMax := by
  rw [responseBytes]
  split
  · rwa [List.length_append, List.length_singleton]
  · exact h

theorem recvLoop_eq {chunks : List CStr} (hchunks : ∀ c ∈ chunks, c ≠ []) {got : CStr}
    (hlen : (got ++ chunks.flatten).length < cpeIpcLineMax)
    (hline : 10 ∉ (got ++ chunks.flatten).dropLast) :
    recvLoop got chunks = got ++ chunks.flatten := by
  induction chunks generalizing got with
  | nil => rw [recvLoop, List.flatten_nil, List.append_nil]
  | cons c chunks ih =>
    have hc : c ≠ [] := hchunks c List.mem_cons_self
    have hpos : 0 < c.length := List.length_pos_iff.mpr hc
    rw [List.flatten_cons, ← List.append_assoc] at hlen hline ⊢
    have hroom : c ≠ [] ∧ got.length + 1 < cpeIpcLineMax := by
      rw [List.length_append, List.length_append] at hlen
      exact ⟨hc, by omega⟩
    have htake : c.take (cpeIpcLineMax - got.length - 1) = c := by
      rw [List.length_append, List.length_append] at hlen
      exact List.take_of_length_le (by omega)
    rw [recvLoop, if_pos hroom, htake]
    dsimp only
    split
    · rename_i hnewline
      -- the newline is the last byte of all
      rcases List.eq_nil_or_concat chunks.flatten with hnil | ⟨t, b, hb⟩
      · rw [hnil, List.append_nil]
      · rw [hb, List.concat_eq_append, ← List.append_assoc, List.dropLast_concat] at hline
        exact absurd (List.mem_append_left t hnewline) hline
    · exact ih (fun d hd ↦ hchunks d (List.mem_cons_of_mem c hd)) hlen hline

theorem dropWhile_reverse_append {p : UInt8 → Bool} {s t : CStr} (ht : ∀ b ∈ t, p b = true)
    (hs : ∀ b ∈ s.getLast?, p b = false) :
    ((s ++ t).reverse.dropWhile p).reverse = s := by
  rw [List.reverse_append, List.dropWhile_append_of_pos fun b hb ↦ ht b (List.mem_reverse.mp hb)]
  cases hrev : s.reverse with
  | nil => exact (List.reverse_eq_nil_iff.mp hrev).symm ▸ rfl
  | cons b u =>
    have hlast : s.getLast? = some b := by rw [← List.head?_reverse, hrev, List.head?_cons]
    rw [List.dropWhile_cons_of_neg (by rw [hs b hlast]; exact Bool.false_ne_true), ← hrev,
      List.reverse_reverse]

/-- A response that is one line arrives as it is, in whatever pieces. -/
theorem clientResponse_of_oneLine {text : CStr} (hlen : text.length < cpeIpcLineMax)
    (hbytes : OneLine text) (hlast : text.getLast? ≠ some 13) {chunks : List CStr}
    (h : ArrivesAs (responseBytes text) chunks) : clientResponse chunks = text := by
  obtain ⟨t, ht, hnewline⟩ : ∃ t, responseBytes text = text ++ t ∧ (t = [] ∨ t = [10]) := by
    rw [responseBytes]
    split
    · exact ⟨[10], rfl, Or.inr rfl⟩
    · exact ⟨[], (List.append_nil _).symm, Or.inl rfl⟩
  have hgot : recvLoop [] chunks = text ++ t := by
    have hresp := length_responseBytes hlen
    rw [recvLoop_eq h.2 (by rwa [List.nil_append, h.1]) ?_, List.nil_append, h.1, ht]
    rw [List.nil_append, h.1, ht]
    intro hmem
    rcases hnewline with rfl | rfl
    · exact (hbytes 10 (List.mem_of_mem_dropLast (List.append_nil text ▸ hmem))).2 rfl
    · rw [List.dropLast_concat] at hmem
      exact (hbytes 10 hmem).2 rfl
  rw [clientResponse, hgot, dropWhile_reverse_append, List.takeWhile_eq_self_iff]
  · exact fun b hb ↦ decide_eq_true (hbytes b hb).1
  · rcases hnewline with rfl | rfl <;> decide
  · intro b hb
    have hten : b ≠ 10 := (hbytes b (List.mem_of_getLast? hb)).2
    have hreturn : b ≠ 13 := fun heq ↦ hlast (heq ▸ hb)
    simp [hten, hreturn]

theorem clientResponse_eq {text : CStr} (hlen : text.length < cpeIpcLineMax)
    (hbytes : OneLine text) (hlast : text.getLast? = some 125) {chunks : List CStr}
    (h : ArrivesAs (responseBytes text) chunks) : clientResponse chunks = text :=
  clientResponse_of_oneLine hlen hbytes (by rw [hlast]; decide) h

/-- An answer can arrive in such a way that the client sees no newline. -/
theorem exists_clientResponse {bytes : CStr} (hlen : bytes.length < cpeIpcLineMax) :
    ∃ chunks, ArrivesAs bytes chunks ∧ OneLine (clientResponse chunks) := by
  have hmem : ∀ {chunks : List CStr} {b : UInt8}, b ∈ clientResponse chunks →
      b ≠ 0 ∧ b ∈ (recvLoop [] chunks).reverse.dropWhile fun b ↦ b == 10 || b == 13 := by
    intro chunks b hb
    exact ⟨of_decide_eq_true (List.mem_takeWhile_imp (p := fun b : UInt8 ↦ decide (b ≠ 0)) hb),
      List.mem_reverse.mp ((List.takeWhile_prefix _).subset hb)⟩
  have hchunk : ∀ {c : CStr} (chunks : List CStr), c ≠ [] → c.length < cpeIpcLineMax →
      recvLoop [] (c :: chunks) = if 10 ∈ c then c else recvLoop c chunks := by
    intro c chunks hc hlen
    have htake : c.take (cpeIpcLineMax - ([] : CStr).length - 1) = c :=
      List.take_of_length_le (by rw [List.length_nil]; omega)
    rw [recvLoop, if_pos ⟨hc, by decide⟩, htake, List.nil_append]
  by_cases hline : 10 ∈ bytes
  · obtain ⟨pre, rest, rfl, hpre⟩ := List.eq_append_cons_of_mem hline
    have hfirst : pre ++ [10] ≠ [] := by simp
    rw [List.length_append, List.length_cons] at hlen
    have hfirstLen : (pre ++ [10]).length < cpeIpcLineMax := by
      rw [List.length_append, List.length_singleton]
      omega
    refine ⟨(pre ++ [10]) :: if rest = [] then [] else [rest], ⟨?_, ?_⟩, fun b hb ↦ ?_⟩
    · split
      · rename_i hrest
        rw [hrest]
        simp
      · simp
    · intro c hc
      rcases List.mem_cons.mp hc with rfl | hc
      · exact hfirst
      · split at hc
        · exact absurd hc List.not_mem_nil
        · obtain rfl := List.mem_singleton.mp hc
          assumption
    · obtain ⟨hzero, hb⟩ := hmem hb
      rw [hchunk _ hfirst hfirstLen, if_pos (by simp), List.reverse_append, List.reverse_singleton,
        List.singleton_append, List.dropWhile_cons_of_pos (by decide)] at hb
      refine ⟨hzero, ?_⟩
      rintro rfl
      exact hpre (List.mem_reverse.mp ((List.dropWhile_suffix _).subset hb))
  · by_cases hne : bytes = []
    · refine ⟨[], ⟨hne.symm, fun c hc ↦ absurd hc List.not_mem_nil⟩, fun b hb ↦ ?_⟩
      exact absurd (hmem hb).2 List.not_mem_nil
    · refine ⟨[bytes], ⟨by simp, fun c hc ↦ List.mem_singleton.mp hc ▸ hne⟩, fun b hb ↦ ?_⟩
      obtain ⟨hzero, hb⟩ := hmem hb
      rw [hchunk _ hne hlen, if_neg hline, recvLoop] at hb
      refine ⟨hzero, ?_⟩
      rintro rfl
      exact hline (List.mem_reverse.mp ((List.dropWhile_suffix _).subset hb))

/-! ## The table -/

theorem mem_readString {room : ℕ} {s : CStr} {b : UInt8} (h : b ∈ (readString room s).1) :
    b ∈ s := by
  fun_induction readString room s with
  | case1 | case2 | case3 => exact absurd h List.not_mem_nil
  | case4 room c s val rest heq ih =>
    rw [show (readString room s).1 = val from congrArg Prod.fst heq] at ih
    rcases List.mem_cons.mp h with rfl | hmem
    · exact List.mem_cons_of_mem 92 List.mem_cons_self
    · exact List.mem_cons_of_mem 92 (List.mem_cons_of_mem c (ih hmem))
  | case5 room c s _ _ val rest heq ih =>
    rw [show (readString room s).1 = val from congrArg Prod.fst heq] at ih
    rcases List.mem_cons.mp h with rfl | hmem
    · exact List.mem_cons_self
    · exact List.mem_cons_of_mem c (ih hmem)

theorem afterFirst_suffix {pat s t : CStr} (h : afterFirst pat s = some t) : t <:+ s := by
  fun_induction afterFirst pat s with
  | case1 => exact absurd h (by simp)
  | case2 b s hpat =>
    obtain rfl := Option.some_inj.mp h
    exact List.drop_suffix _ _
  | case3 b s hpat ih => exact (ih h).trans (List.suffix_cons b s)

theorem exists_dataTable {resp : CStr} {fields : List (LuaKey × LuaValue)}
    (h : ipcCall resp = .ok (.table fields)) :
    ∃ data, data <:+ resp ∧ dataTable data = .table fields := by
  unfold ipcCall at h
  split at h
  · exact absurd h (by simp)
  · split at h
    · exact absurd h (by simp)
    · rename_i data hdata
      have hsuffix := (List.dropWhile_suffix isBlank).trans (afterFirst_suffix hdata)
      dsimp only at h
      generalize data.dropWhile isBlank = d at h hsuffix
      by_cases hnull : ascii "null" <+: d
      · rw [if_pos hnull] at h
        exact absurd h (by simp)
      · by_cases htrue : ascii "true" <+: d
        · rw [if_neg hnull, if_pos htrue] at h
          exact absurd h (by simp)
        · by_cases hfalse : ascii "false" <+: d
          · rw [if_neg hnull, if_neg htrue, if_pos hfalse] at h
            exact absurd h (by simp)
          · rw [if_neg hnull, if_neg htrue, if_neg hfalse] at h
            cases d with
            | nil => exact absurd h (by simp)
            | cons c s =>
              dsimp only at h
              split_ifs at h
              · exact ⟨_, hsuffix, Except.ok.inj h⟩
              · exact absurd h (by simp)
              · exact absurd h (by simp)
              · exact absurd h (by simp)
              · exact absurd h (by simp)

theorem mem_of_ipcCall {resp : CStr} {fields : List (LuaKey × LuaValue)}
    (h : ipcCall resp = .ok (.table fields)) {key : LuaKey} {v : CStr}
    (hv : (key, .str v) ∈ fields) {b : UInt8} (hb : b ∈ v) : b ∈ resp := by
  obtain ⟨data, hdata, heq⟩ := exists_dataTable h
  rw [dataTable, LuaValue.table.injEq] at heq
  rw [← heq] at hv
  refine hdata.subset ((cutAtClose_isPrefix 0 data).subset ?_)
  rcases str_mem_scanFields hv with hmem | ⟨w, hw, rfl⟩
  · obtain ⟨-, hval⟩ := Prod.mk.inj (List.mem_singleton.mp hmem)
    exact LuaValue.str.inj hval ▸ hb
  · have hmem := hw.subset (List.mem_cons_of_mem 34 (mem_readString hb))
    split at hmem
    · exact List.mem_of_mem_drop hmem
    · exact hmem

theorem lookup_index_scanFields (n fuel : ℕ) (fields : List (LuaKey × LuaValue)) (q : CStr) :
    LuaValue.lookup (.index n) (scanFields fuel fields q) = LuaValue.lookup (.index n) fields := by
  have hadd : ∀ (val : Option LuaValue) (key : CStr) (fields : List (LuaKey × LuaValue)),
      LuaValue.lookup (.index n) ((val.map fun v ↦ (LuaKey.name key, v)).toList ++ fields)
        = LuaValue.lookup (.index n) fields := by
    intro val key fields
    cases val with
    | none => rfl
    | some x =>
      rw [LuaValue.lookup, Option.map_some, Option.toList_some, List.singleton_append,
        List.find?_cons_of_neg (by simp)]
      rfl
  induction fuel generalizing fields q with
  | zero => rfl
  | succ fuel ih =>
    rw [scanFields]
    split
    · rfl
    · dsimp only
      split
      · rfl
      · split
        · exact hadd _ _ fields
        · rw [ih, hadd]

theorem lookup_index_ipcCall {resp : CStr} {fields : List (LuaKey × LuaValue)}
    (h : ipcCall resp = .ok (.table fields)) (n : ℕ) :
    LuaValue.lookup (.index n) fields = .nil := by
  obtain ⟨data, -, heq⟩ := exists_dataTable h
  rw [dataTable, LuaValue.table.injEq] at heq
  rw [← heq, lookup_index_scanFields]
  rfl

/-! ## An object -/

/-- What is looked for at the top of an answer: one whose data is an object is an error or a
table. -/
theorem ipcCall_object (verb : IpcVerb) (ms : List (String × CStr)) :
    ipcCall (okText verb (object ms))
      = if (afterFirst (okPattern (ascii "false")) (object ms ++ [125])).isSome ∨
          (afterFirst (okPattern (ascii " false")) (object ms ++ [125])).isSome then
          .error (if errorMessage (okText verb (object ms)) ≠ [] then
            errorMessage (okText verb (object ms)) else okText verb (object ms))
        else .ok (dataTable (object ms ++ [125])) := by
  have hfalse : afterFirst (quoted (ascii "ok") ++ ascii ":false") (okText verb (object ms))
      = afterFirst (okPattern (ascii "false")) (object ms ++ [125]) := by
    rw [okText_eq]
    cases verb <;> rfl
  have hspaced : afterFirst (quoted (ascii "ok") ++ ascii ": false") (okText verb (object ms))
      = afterFirst (okPattern (ascii " false")) (object ms ++ [125]) := by
    rw [okText_eq]
    cases verb <;> rfl
  have hdata : afterFirst (quoted (ascii "data") ++ [58]) (okText verb (object ms))
      = some (object ms ++ [125]) := by
    rw [okText_eq]
    cases verb <;> rfl
  have hlast : (object ms ++ [125]).getLast? = some 125 := List.getLast?_concat
  have hcons : object ms ++ [125] = 123 :: (memberList ms ++ [125, 125]) := by
    rw [object, List.append_assoc, List.cons_append]
    rfl
  rw [ipcCall, hfalse, hspaced, hdata]
  refine ite_congr rfl (fun _ ↦ rfl) fun _ ↦ ?_
  dsimp only
  rw [hcons, List.dropWhile_cons_of_neg (by decide), if_neg, if_neg, if_neg]
  · dsimp only
    rw [if_pos (by decide), if_pos (hcons ▸ hlast)]
  · exact fun h ↦ absurd (List.cons_prefix_cons.mp h).1 (by decide)
  · exact fun h ↦ absurd (List.cons_prefix_cons.mp h).1 (by decide)
  · exact fun h ↦ absurd (List.cons_prefix_cons.mp h).1 (by decide)

/-- The text of the fields that the loop goes through. -/
def fieldsText (ms : List (String × CStr)) : CStr := cutAtClose 1 (memberList ms ++ [125, 125])

theorem dataTable_object (ms : List (String × CStr)) :
    dataTable (object ms ++ [125])
      = .table (scanFields ((fieldsText ms).length + 1)
          [(.name (ascii "_json"), .str (123 :: fieldsText ms))] (fieldsText ms)) := by
  have hcut : cutAtClose 0 (object ms ++ [125]) = 123 :: fieldsText ms := by
    have hcons : object ms ++ [125] = 123 :: (memberList ms ++ [125, 125]) := by
      rw [object, List.append_assoc, List.cons_append]
      rfl
    rw [hcons, cutAtClose, if_pos (by decide), zero_add]
    rfl
  rw [dataTable, hcut]
  rfl

/-- Every byte of an object is one of its marks, or it belongs to a name or a value. -/
theorem forall_mem_object {P : UInt8 → Prop} (hmarks : P 34 ∧ P 44 ∧ P 58 ∧ P 123 ∧ P 125)
    {ms : List (String × CStr)} (h : ∀ m ∈ ms, (∀ b ∈ ascii m.1, P b) ∧ ∀ b ∈ m.2, P b) :
    ∀ b ∈ object ms, P b := by
  obtain ⟨hquote, hcomma, hcolon, hopen, hclose⟩ := hmarks
  have hmember : ∀ m ∈ ms, ∀ b ∈ member m.1 m.2, P b := by
    intro m hm
    obtain ⟨hname, hvalue⟩ := h m hm
    simp only [member, quoted, List.cons_append, List.forall_mem_cons, List.forall_mem_append]
    exact ⟨hquote, ⟨hname, hquote, fun b hb ↦ absurd hb List.not_mem_nil⟩, hcolon, hvalue⟩
  have hlist : ∀ b ∈ memberList ms, P b := by
    clear h
    fun_induction memberList ms with
    | case1 => exact fun b hb ↦ absurd hb List.not_mem_nil
    | case2 m => exact hmember m List.mem_cons_self
    | case3 m n ms ih =>
      simp only [List.forall_mem_append, List.forall_mem_cons]
      exact ⟨hmember m List.mem_cons_self, hcomma,
        ih fun k hk ↦ hmember k (List.mem_cons_of_mem m hk)⟩
  simp only [object, List.cons_append, List.forall_mem_cons, List.forall_mem_append]
  exact ⟨hopen, hlist, hclose, fun b hb ↦ absurd hb List.not_mem_nil⟩

theorem oneLine_object {ms : List (String × CStr)}
    (h : ∀ m ∈ ms, OneLine (ascii m.1) ∧ OneLine m.2) : OneLine (object ms) :=
  forall_mem_object (by decide) h

theorem oneLine_okText {data : CStr} (h : OneLine data) (verb : IpcVerb) :
    OneLine (okText verb data) := by
  have hverb : OneLine (ascii verb.name) := by cases verb <;> decide
  refine oneLine_object ?_
  simp only [List.forall_mem_cons]
  exact ⟨⟨by decide, by decide⟩, ⟨by decide, hverb.quoted⟩, ⟨by decide, h⟩, List.forall_mem_nil _⟩

theorem clientResponse_okText {verb : IpcVerb} {data : CStr}
    (hlen : (okText verb data).length < cpeIpcLineMax) (hdata : OneLine data)
    {chunks : List CStr} (h : ArrivesAs (responseBytes (okText verb data)) chunks) :
    clientResponse chunks = okText verb data := by
  refine clientResponse_eq hlen (oneLine_okText hdata verb) ?_ h
  rw [okText_eq, ← List.append_assoc]
  exact List.getLast?_concat

/-- The names of the members of an object can be told apart, also from those of the envelope and
from the one the client adds. -/
def FieldNames (names : List String) : Prop :=
  (∀ n ∈ names, FieldName n ∧ ascii n ≠ ascii "ok" ∧ ascii n ≠ ascii "_json") ∧
    names.Pairwise fun m n ↦ ascii m ≠ ascii n

instance (names : List String) : Decidable (FieldNames names) :=
  inferInstanceAs (Decidable (_ ∧ _))

def raws : List (String × Printed) → List CStr
  | [] => []
  | (_, .raw s) :: items => s :: raws items
  | (_, .lit _ _) :: items => raws items

theorem forall_mem_raws {P : CStr → Prop} {items : List (String × Printed)} :
    (∀ s ∈ raws items, P s) ↔ ∀ name s, (name, Printed.raw s) ∈ items → P s := by
  fun_induction raws items with
  | case1 => exact iff_of_true (List.forall_mem_nil _) fun _ _ h ↦ absurd h List.not_mem_nil
  | case2 nm t items ih =>
    rw [List.forall_mem_cons, ih]
    constructor
    · rintro ⟨hs, hrest⟩ name s hmem
      rcases List.mem_cons.mp hmem with heq | hmem
      · obtain ⟨-, hraw⟩ := Prod.mk.inj heq
        exact Printed.raw.inj hraw ▸ hs
      · exact hrest name s hmem
    · exact fun h ↦ ⟨h nm t List.mem_cons_self,
        fun name s hmem ↦ h name s (List.mem_cons_of_mem _ hmem)⟩
  | case3 nm text val items ih =>
    rw [ih]
    refine forall₂_congr fun name s ↦ imp_congr_left ?_
    rw [List.mem_cons, Prod.mk.injEq]
    exact (or_iff_right fun h ↦ absurd h.2 (by simp)).symm

/-- The members of an answer's data, as far as that is the agent's doing. -/
structure Layout (items : List (String × Printed)) : Prop where
  names : FieldNames (items.map Prod.fst)
  ok : ∀ i ∈ items, i.2.Ok
  followed : Followed items
  ne : items ≠ []

namespace Layout

variable {items : List (String × Printed)}

theorem fieldName (h : Layout items) {i : String × Printed} (hi : i ∈ items) : FieldName i.1 :=
  (h.names.1 i.1 (List.mem_map_of_mem hi)).1

theorem ne_json (h : Layout items) {i : String × Printed} (hi : i ∈ items) :
    ascii i.1 ≠ ascii "_json" :=
  (h.names.1 i.1 (List.mem_map_of_mem hi)).2.2

theorem pairwise (h : Layout items) : items.Pairwise fun i j ↦ ascii i.1 ≠ ascii j.1 :=
  (List.pairwise_map (f := Prod.fst) (R := fun m n : String ↦ ascii m ≠ ascii n)).mp h.names.2

theorem skips (h : Layout items) (hread : ∀ i ∈ items, i.2.Readable) (tail : CStr) :
    afterFirst (okPattern tail) (object (texts items) ++ [125]) = none := by
  have hobject : Skips (okPattern tail) (object (texts items)) := by
    refine skips_object fun m hm ↦ ?_
    obtain ⟨i, hi, rfl⟩ := List.mem_map.mp hm
    refine ⟨h.fieldName hi, (h.names.1 i.1 (List.mem_map_of_mem hi)).2.1, ?_⟩
    have hok := h.ok i hi
    have hreadable := hread i hi
    obtain ⟨name, p⟩ := i
    cases p with
    | raw s => exact skipsOk_quoted (Clear.quote_notMem hreadable)
    | lit text val => exact hok.2.2.1
  have hlast : Skips (okPattern tail) [125] := skips_of_notMem (by decide)
  have hall := (hobject.append hlast) []
  rwa [List.append_nil] at hall

theorem oneLine_data (h : Layout items)
    (hraw : ∀ name s, (name, Printed.raw s) ∈ items → OneLine s) :
    OneLine (object (texts items)) := by
  refine oneLine_object fun m hm ↦ ?_
  obtain ⟨i, hi, rfl⟩ := List.mem_map.mp hm
  refine ⟨(clear_of_safe (h.fieldName hi).1).oneLine, ?_⟩
  have hok := h.ok i hi
  obtain ⟨name, p⟩ := i
  cases p with
  | raw s => exact (hraw name s hi).quoted
  | lit text val => exact fun b hb ↦ ⟨(hok.2.2.2.2 b hb).1, (hok.2.2.2.2 b hb).2.1⟩

/-- The table for an object whose strings consist of harmless bytes. -/
theorem hasFields_iff_of_readable (h : Layout items) (hread : ∀ i ∈ items, i.2.Readable) :
    HasFields (scanFields ((fieldsText (texts items)).length + 1)
        [(.name (ascii "_json"), .str (123 :: fieldsText (texts items)))]
        (fieldsText (texts items))) items ↔ NoExcess (exposed items) := by
  have hall : ∀ i ∈ items, FieldName i.1 ∧ i.2.Ok ∧ i.2.Readable := fun i hi ↦
    ⟨h.fieldName hi, h.ok i hi, hread i hi⟩
  have hnew : ∀ i ∈ items, LuaValue.lookup (.name (ascii i.1))
      [(.name (ascii "_json"), .str (123 :: fieldsText (texts items)))] = .nil := by
    intro i hi
    rw [LuaValue.lookup, List.find?_cons_of_neg]
    · rfl
    · rw [decide_eq_true_iff]
      exact fun heq ↦ h.ne_json hi (LuaKey.name.inj heq).symm
  have hscan : scanFields ((fieldsText (texts items)).length + 1)
      [(.name (ascii "_json"), .str (123 :: fieldsText (texts items)))] (fieldsText (texts items))
        = outcome 1 [(.name (ascii "_json"), .str (123 :: fieldsText (texts items)))] items :=
    scanFields_eq_outcome h.ne hall one_pos (Nat.le_succ _) _
  rw [hscan, hasFields_outcome_iff h.ok h.pairwise h.followed hnew, depthAfter_one_iff]

/-- However the bytes come in, the client makes a table of them that has all the fields. -/
def Received (verb : IpcVerb) (items : List (String × Printed)) : Prop :=
  ∀ chunks, ArrivesAs (responseBytes (okText verb (object (texts items)))) chunks →
    ∃ fields, ipcCall (clientResponse chunks) = .ok (.table fields) ∧ HasFields fields items

/-- For an answer with an object: the client has all the fields if and only if the strings that are
printed as they are have no quote, no backslash, no newline and no NUL in them, and do not close
brackets they have not opened. -/
theorem received_iff (h : Layout items) {verb : IpcVerb}
    (hlen : (okText verb (object (texts items))).length < cpeIpcLineMax) :
    Received verb items ↔ (∀ s ∈ raws items, Clear s) ∧ NoExcess (exposed items) := by
  rw [forall_mem_raws]
  have hreadable : (∀ name s, (name, Printed.raw s) ∈ items → Clear s) →
      ∀ i ∈ items, i.2.Readable := by
    rintro hclear ⟨name, p⟩ hi
    cases p with
    | raw s => exact hclear name s hi
    | lit text val => trivial
  constructor
  · intro hreceived
    obtain ⟨chunks, hchunks, hbytes⟩ := exists_clientResponse (length_responseBytes hlen)
    obtain ⟨fields, hcall, hfields⟩ := hreceived chunks hchunks
    -- what is in the table has come through, so that there is no newline and no NUL
    have hraw : ∀ name s, (name, Printed.raw s) ∈ items → OneLine s := by
      intro name s hs b hb
      have hmem := mem_of_lookup (hfields _ hs (.str s) rfl)
      exact hbytes b (mem_of_ipcCall hcall hmem hb)
    rw [clientResponse_okText hlen (h.oneLine_data hraw) hchunks, ipcCall_object] at hcall
    split at hcall
    · exact absurd hcall (by simp)
    · rw [dataTable_object] at hcall
      obtain rfl := LuaValue.table.inj (Except.ok.inj hcall)
      have hlast : (fieldsText (texts items)).getLast? ≠ some 92 := by
        rcases getLast?_cutAtClose 1 (memberList (texts items) ++ [125, 125]) with
          heq | ⟨b, hb, hclose⟩
        · rw [fieldsText, heq, List.getLast?_append_of_ne_nil _ (List.cons_ne_nil _ _)]
          decide
        · rw [fieldsText, Option.mem_def.mp hb]
          rintro heq
          obtain rfl := Option.some_inj.mp heq
          exact absurd hclose (by decide)
      have hclear : ∀ name s, (name, Printed.raw s) ∈ items → Clear s := by
        intro name s hs b hb
        obtain ⟨hquote, hback⟩ := readable_of_hasFields
          (fun i hi ↦ ⟨h.fieldName hi, h.ok i hi⟩) (fun i hi ↦ h.ne_json hi)
          (cutAtClose_isPrefix 1 _) hlast hfields hs
        refine ⟨(hraw name s hs b hb).1, (hraw name s hs b hb).2, ?_, ?_⟩
        · rintro rfl
          exact hquote hb
        · rintro rfl
          exact hback hb
      exact ⟨hclear, (h.hasFields_iff_of_readable (hreadable hclear)).mp hfields⟩
  · rintro ⟨hclear, hexcess⟩ chunks hchunks
    have hread := hreadable hclear
    have hraw : ∀ name s, (name, Printed.raw s) ∈ items → OneLine s := fun name s hs ↦
      Clear.oneLine (hclear name s hs)
    rw [clientResponse_okText hlen (h.oneLine_data hraw) hchunks, ipcCall_object, h.skips hread,
      h.skips hread, if_neg (by simp), dataTable_object]
    exact ⟨_, rfl, (h.hasFields_iff_of_readable hread).mpr hexcess⟩

end Layout

end NetForensics

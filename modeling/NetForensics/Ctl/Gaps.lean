import NetForensics.Ctl.Replies

/-!
# What does not come through

An array becomes a table without elements, and at a `null` the loop over the fields ends. The name
of an interface is inside the last member of a sample; it does no harm as long as it closes no
bracket it has not opened.
-/

namespace NetForensics

open Json Printed

/-! ## Arrays -/

theorem exists_arrivesAs (bytes : CStr) : ∃ chunks, ArrivesAs bytes chunks := by
  by_cases h : bytes = []
  · exact ⟨[], h.symm, List.forall_mem_nil _⟩
  · exact ⟨[bytes], List.flatten_singleton, List.forall_mem_singleton.mpr h⟩

theorem not_agrees_rows {verb : IpcVerb} {rows : List (List (String × CStr))} (hne : rows ≠ [])
    (text : CStr) : ¬ Agrees text (.rows verb rows) := by
  intro hagrees
  obtain ⟨chunks, hchunks⟩ := exists_arrivesAs (responseBytes text)
  obtain ⟨fields, hcall, hrows, -⟩ := hagrees chunks hchunks
  obtain ⟨sub, hsub, -⟩ := hrows 0 (List.length_pos_iff.mpr hne)
  exact absurd ((lookup_index_ipcCall hcall 1).symm.trans hsub) (by simp)

theorem not_agrees_strings {verb : IpcVerb} {ss : List CStr} (hne : ss ≠ []) (text : CStr) :
    ¬ Agrees text (.value verb (array (ss.map quoted))) := by
  intro hagrees
  obtain ⟨chunks, hchunks⟩ := exists_arrivesAs (responseBytes text)
  obtain ⟨fields, hcall, hstrs⟩ := hagrees chunks hchunks ss rfl
  have hfirst := hstrs 0 (List.length_pos_iff.mpr hne)
  exact absurd ((lookup_index_ipcCall hcall 1).symm.trans hfirst) (by simp)

theorem agrees_rows_nil {verb : IpcVerb} {text : CStr}
    (htext : (IpcReply.rows verb []).render = some text) : Agrees text (.rows verb []) := by
  rw [IpcReply.render_eq, fitText_eq_some_iff] at htext
  obtain ⟨-, rfl⟩ := htext
  have hcall : ipcCall (okText verb (array []))
      = .ok (.table [(.name (ascii "_json"), .str [91, 93])]) := by
    cases verb <;> rfl
  have hlen : (okText verb (array [])).length < cpeIpcLineMax := by cases verb <;> decide
  intro chunks hchunks
  rw [clientResponse_okText hlen (by decide) hchunks, hcall]
  exact ⟨_, rfl, fun i hi ↦ absurd hi (Nat.not_lt_zero i), rfl⟩

theorem agrees_rows_iff {verb : IpcVerb} {rows : List (List (String × CStr))} {text : CStr}
    (htext : (IpcReply.rows verb rows).render = some text) :
    Agrees text (.rows verb rows) ↔ rows = [] := by
  constructor
  · intro hagrees
    by_contra hne
    exact not_agrees_rows hne text hagrees
  · rintro rfl
    exact agrees_rows_nil htext

/-! ## Null -/

/-- The fields with one more for each of the members that have one. -/
def addFields (fields : List (LuaKey × LuaValue)) (items : List (String × Printed)) :
    List (LuaKey × LuaValue) :=
  items.foldl (fun fields i ↦ addField fields i.1 i.2.value) fields

theorem lookup_addFields_of_ne {items : List (String × Printed)} {key : LuaKey}
    (h : ∀ i ∈ items, key ≠ .name (ascii i.1)) (fields : List (LuaKey × LuaValue)) :
    LuaValue.lookup key (addFields fields items) = LuaValue.lookup key fields := by
  induction items generalizing fields with
  | nil => rfl
  | cons i items ih =>
    exact (ih (fun j hj ↦ h j (List.mem_cons_of_mem i hj)) _).trans
      (lookup_addField_of_ne (h i List.mem_cons_self) fields _)

theorem hasFields_addFields {items : List (String × Printed)}
    (hnames : items.Pairwise fun i j ↦ ascii i.1 ≠ ascii j.1)
    (fields : List (LuaKey × LuaValue)) : HasFields (addFields fields items) items := by
  induction items generalizing fields with
  | nil => exact List.forall_mem_nil _
  | cons i items ih =>
    obtain ⟨hi, hrest⟩ := List.pairwise_cons.mp hnames
    refine hasFields_cons.mpr ⟨fun x hx ↦ ?_, ih hrest _⟩
    have hkey : ∀ j ∈ items, LuaKey.name (ascii i.1) ≠ .name (ascii j.1) := fun j hj heq ↦
      hi j hj (LuaKey.name.inj heq)
    rw [addFields, List.foldl_cons, ← addFields, lookup_addFields_of_ne hkey,
      Option.mem_def.mp hx, lookup_addField_self]

/-- Members the loop goes through, up to one behind which it sets nothing any more. -/
theorem scanFields_until {items : List (String × Printed)}
    (hitems : ∀ i ∈ items, FieldName i.1 ∧ Shows i.2.text i.2.value) {m : String × CStr}
    {ms : List (String × CStr)} {t : CStr}
    (hstop : ∀ fuel fields, scanFields fuel fields (memberList (m :: ms) ++ t) = fields) {fuel : ℕ}
    (hfuel : items.length ≤ fuel) (fields : List (LuaKey × LuaValue)) :
    scanFields fuel fields (memberList (texts items ++ m :: ms) ++ t) = addFields fields items := by
  induction items generalizing fuel fields with
  | nil => exact hstop fuel fields
  | cons i items ih =>
    obtain ⟨hi, hshows⟩ := hitems i List.mem_cons_self
    obtain ⟨fuel, rfl⟩ := Nat.exists_eq_add_of_lt (Nat.lt_of_lt_of_le (Nat.succ_pos _) hfuel)
    obtain ⟨n, ns, hns⟩ := List.exists_cons_of_ne_nil
      (List.append_ne_nil_of_right_ne_nil (texts items) (List.cons_ne_nil m ms))
    obtain ⟨u, hu⟩ := memberList_cons_eq_quote n ns
    have hsplit : memberList (texts (i :: items) ++ m :: ms) ++ t
        = member i.1 i.2.text ++ 44 :: 34 :: (u ++ t) := by
      have hcons : texts (i :: items) ++ m :: ms = (i.1, i.2.text) :: n :: ns :=
        congrArg (List.cons (i.1, i.2.text)) hns
      rw [hcons, memberList, hu]
      simp only [List.append_assoc, List.cons_append]
    have hrest : 34 :: (u ++ t) = memberList (texts items ++ m :: ms) ++ t := by
      rw [hns, hu, List.cons_append]
    rw [zero_add, List.length_cons] at hfuel
    rw [hsplit, zero_add, scanFields_comma hi hshows, hrest,
      ih (fun j hj ↦ hitems j (List.mem_cons_of_mem i hj)) (Nat.le_of_succ_le_succ hfuel)]
    rfl

theorem scanFields_null {name : String} (hname : FieldName name) (rest : List (String × CStr))
    (t : CStr) (fuel : ℕ) (fields : List (LuaKey × LuaValue)) :
    scanFields fuel fields (memberList ((name, ascii "null") :: rest) ++ t) = fields := by
  obtain ⟨u, hu⟩ : ∃ u, memberList ((name, ascii "null") :: rest) ++ t
      = member name (ascii "null" ++ u) := by
    cases rest with
    | nil => exact ⟨t, by rw [memberList, member_append]⟩
    | cons m rest => exact ⟨44 :: memberList (m :: rest) ++ t, by
        rw [memberList, List.append_assoc, member_append]⟩
  cases fuel with
  | zero => rfl
  | succ fuel =>
    rw [hu, scanFields_member hname ⟨110, rfl, rfl⟩]
    rfl

theorem length_le_memberList (ms : List (String × CStr)) : ms.length ≤ (memberList ms).length := by
  fun_induction memberList ms with
  | case1 => exact le_rfl
  | case2 m =>
    rw [member_eq]
    exact Nat.succ_le_succ (Nat.zero_le _)
  | case3 m n ms ih =>
    simp only [List.length_append, List.length_cons] at ih ⊢
    omega

/-- Nothing is cut off from members that leave the depth as it was. -/
theorem fieldsText_of_level {ms : List (String × CStr)} (h : Level (memberList ms)) :
    fieldsText ms = memberList ms ++ [125] := by
  rw [fieldsText, cutAtClose_append (h 1 one_pos)]
  rfl

theorem not_agrees_null {verb : IpcVerb} {pre : List (String × Printed)}
    (hpre : ∀ i ∈ pre, FieldName i.1 ∧ Shows i.2.text i.2.value) {name : String}
    {rest : List (String × CStr)} {later : String} {s : CStr} (hlater : (later, quoted s) ∈ rest)
    (hkey : ∀ n ∈ "_json" :: pre.map Prod.fst, ascii later ≠ ascii n)
    (htidy : ∀ m ∈ texts pre ++ (name, ascii "null") :: rest, Tidy m) {text : CStr}
    (htext : (IpcReply.fields verb (texts pre ++ (name, ascii "null") :: rest)).render
      = some text) :
    ¬ Agrees text (.fields verb (texts pre ++ (name, ascii "null") :: rest)) := by
  have hname : FieldName name :=
    (htidy _ (List.mem_append_right _ List.mem_cons_self)).1.1
  obtain ⟨hjson, hnames⟩ := List.forall_mem_cons.mp hkey
  have hnew : ∀ i ∈ pre, LuaKey.name (ascii later) ≠ .name (ascii i.1) := fun i hi heq ↦
    hnames i.1 (List.mem_map_of_mem hi) (LuaKey.name.inj heq)
  have hmem : (later, quoted s) ∈ texts pre ++ (name, ascii "null") :: rest :=
    List.mem_append_right _ (List.mem_cons_of_mem _ hlater)
  have hlevel : Level (memberList (texts pre ++ (name, ascii "null") :: rest)) :=
    level_memberList fun m hm ↦ ⟨(htidy m hm).1.1.2.1, (htidy m hm).2.1⟩
  rw [IpcReply.render_eq, fitText_eq_some_iff] at htext
  obtain ⟨hlen, rfl⟩ := htext
  intro hagrees
  obtain ⟨chunks, hchunks⟩ := exists_arrivesAs (responseBytes
    (okText verb (object (texts pre ++ (name, ascii "null") :: rest))))
  obtain ⟨fields, hcall, hfields⟩ := hagrees chunks hchunks
  rw [clientResponse_okText hlen (oneLine_object fun m hm ↦ (htidy m hm).oneLine) hchunks,
    ipcCall_object] at hcall
  split at hcall
  · exact absurd hcall (by simp)
  · rw [dataTable_object] at hcall
    obtain rfl := LuaValue.table.inj (Except.ok.inj hcall)
    have hfield := hfields _ hmem (.str s) (Printed.scalar_quoted s)
    have hfuel : pre.length
        ≤ (memberList (texts pre ++ (name, ascii "null") :: rest) ++ [125]).length + 1 := by
      have hle := length_le_memberList (texts pre ++ (name, ascii "null") :: rest)
      rw [List.length_append, texts, List.length_map] at hle
      rw [List.length_append, texts]
      omega
    rw [fieldsText_of_level hlevel, scanFields_until hpre (scanFields_null hname rest [125]) hfuel,
      lookup_addFields_of_ne hnew, LuaValue.lookup, List.find?_cons_of_neg] at hfield
    · exact absurd hfield (by simp)
    · exact fun heq ↦ hjson (LuaKey.name.inj (of_decide_eq_true heq)).symm

/-- Without an error the member `open_err` of `flow_stats` is null. -/
theorem not_agrees_flowStats {a : CpeAgent} {clock : Option WallClock}
    (herr : (a.flowSnapshot clock).openErr = []) {text : CStr}
    (htext : (IpcReply.fields .flowStats (flowStatsMembers a (a.flowSnapshot clock))).render
      = some text) :
    ¬ Agrees text (.fields .flowStats (flowStatsMembers a (a.flowSnapshot clock))) := by
  have hint : ∀ (name : String), FieldName name ∧ ascii name ≠ ascii "ok" → ∀ n : ℤ,
      Tidy (name, intText n) := fun name hname n ↦ tidy_of_word hname (word_signedDecimal _)
  have hnames : ∀ n ∈ ["enabled", "flow_count", "events_in", "destroys_emitted", "samples_emitted",
      "dumps", "open_ok"], FieldName n := by decide
  have hsplit : flowStatsMembers a (a.flowSnapshot clock)
      = texts ((flowStatsItems a (a.flowSnapshot clock)).take 7) ++
        ("open_err", ascii "null") :: [("event_fd", fdText a.flow.fd),
          ("dump_fd", fdText a.flow.dumpFd), ("ts", quoted (a.flowSnapshot clock).tsIso)] := by
    rw [flowStatsMembers, if_neg (not_not.mpr herr)]
    rfl
  have hlater : ("ts", quoted (a.flowSnapshot clock).tsIso) ∈ [("event_fd", fdText a.flow.fd),
      ("dump_fd", fdText a.flow.dumpFd), ("ts", quoted (a.flowSnapshot clock).tsIso)] := by
    simp
  rw [hsplit] at htext ⊢
  refine not_agrees_null ?_ hlater ?_ ?_ htext
  · refine fun i hi ↦ ⟨hnames i.1 (List.mem_map_of_mem (f := Prod.fst) hi), ?_⟩
    revert i
    simp only [flowStatsItems, List.take_succ_cons, List.take_zero, List.forall_mem_cons]
    exact ⟨shows_boolText _, shows_numeral (numeral_decimal _), shows_numeral (numeral_decimal _),
      shows_numeral (numeral_decimal _), shows_numeral (numeral_decimal _),
      shows_numeral (numeral_decimal _), shows_boolText _, List.forall_mem_nil _⟩
  · have hts : ∀ n ∈ ["_json", "enabled", "flow_count", "events_in", "destroys_emitted",
        "samples_emitted", "dumps", "open_ok"], ascii "ts" ≠ ascii n := by decide
    exact hts
  · rw [← hsplit, flowStatsMembers, if_neg (not_not.mpr herr)]
    simp only [List.forall_mem_cons]
    exact ⟨tidy_bool (by decide) _, tidy_decimal (by decide) _, tidy_decimal (by decide) _,
      tidy_decimal (by decide) _, tidy_decimal (by decide) _, tidy_decimal (by decide) _,
      tidy_bool (by decide) _, tidy_of_word (by decide) (by decide), hint _ (by decide) _,
      hint _ (by decide) _, tidy_quoted (by decide) (word_flowTs a clock).1, List.forall_mem_nil _⟩

/-! ## A string inside the last member -/

theorem tidy_of_raws_nil {items : List (String × Printed)}
    (hnames : ∀ i ∈ items, FieldName i.1 ∧ ascii i.1 ≠ ascii "ok") (hfine : ∀ i ∈ items, i.2.Fine)
    (hraws : raws items = []) :
    ∀ i ∈ items, Shows i.2.text i.2.value ∧ Tidy (i.1, i.2.text) := by
  rintro ⟨name, p⟩ hi
  cases p with
  | raw s =>
    have hmem := (forall_mem_raws (P := fun _ ↦ False)).mp (by rw [hraws]; simp) name s hi
    exact hmem.elim
  | lit text val =>
    obtain ⟨hshows, hlevel, hskips, -, hbytes⟩ := (hfine _ hi).ok
    exact ⟨hshows, hnames _ hi, hlevel, hskips, hbytes⟩

theorem exists_depthAfter {s : CStr} (h : NoExcess s) {depth : ℤ} (hdepth : 0 < depth) :
    ∃ d, depthAfter depth s = some d ∧ 0 < d := by
  have hne : depthAfter depth s ≠ none := by
    rw [depthAfter_ne_none_iff hdepth]
    intro p hp
    have hle := h p hp
    omega
  obtain ⟨d, hd⟩ := Option.ne_none_iff_exists'.mp hne
  exact ⟨d, hd, depthAfter_pos hdepth hd⟩

/-- When the last member is an object with a string at its end, what is cut off is behind the
string, and the loop that skips the object comes to the brackets. -/
theorem exists_fieldsText_nested {pre : List (String × CStr)} (hne : pre ≠ [])
    (hpre : ∀ m ∈ pre, Tidy m) {name : String} (hname : FieldName name)
    {ms : List (String × CStr)} (hmsne : ms ≠ []) (hms : ∀ m ∈ ms, Tidy m) {last : String}
    (hlast : FieldName last) {s : CStr} (hexcess : NoExcess s) :
    ∃ v, fieldsText (pre ++ [(name, object (ms ++ [(last, quoted s)]))])
        = memberList (pre ++ [(name, 123 :: v)]) ∧ 34 ∉ skipNested 0 (123 :: v) := by
  have hlevel : ∀ {ns : List (String × CStr)}, (∀ m ∈ ns, Tidy m) → Level (memberList ns) :=
    fun hns ↦ level_memberList fun m hm ↦ ⟨(hns m hm).1.1.2.1, (hns m hm).2.1⟩
  -- what is in front of the object, and what is in it in front of the string
  have hfront : Level (memberList pre ++ 44 :: (quoted (ascii name) ++ [58])) :=
    (hlevel hpre).append (level_comma ((level_quoted hname.2.1.level).append
      (Unbracketed.level (by decide))))
  have hinside : Level (memberList ms ++ 44 :: (quoted (ascii last) ++ [58, 34])) :=
    (hlevel hms).append (level_comma (level_member_open hlast))
  have hlist : ∀ w : CStr, memberList (pre ++ [(name, w)])
      = (memberList pre ++ 44 :: (quoted (ascii name) ++ [58])) ++ w := by
    intro w
    rw [memberList_append hne (List.cons_ne_nil _ _), memberList, member]
    simp only [List.append_assoc, List.cons_append, List.nil_append]
  have hobject : object (ms ++ [(last, quoted s)]) ++ [125, 125]
      = 123 :: ((memberList ms ++ 44 :: (quoted (ascii last) ++ [58, 34])) ++
        (s ++ 34 :: [125, 125, 125])) := by
    rw [object, memberList_append hmsne (List.cons_ne_nil _ _), memberList, member]
    simp only [quoted, List.append_assoc, List.cons_append, List.nil_append]
  obtain ⟨d, hd, -⟩ := exists_depthAfter hexcess (two_pos : (0 : ℤ) < 2)
  obtain ⟨e, he, hpos⟩ := exists_depthAfter hexcess one_pos
  refine ⟨(memberList ms ++ 44 :: (quoted (ascii last) ++ [58, 34])) ++
    (s ++ 34 :: cutAtClose d [125, 125, 125]), ?_, ?_⟩
  · rw [fieldsText, hlist, hlist, List.append_assoc, hobject,
      cutAtClose_append (hfront 1 one_pos), cutAtClose, if_pos (by decide),
      cutAtClose_append (hinside _ (by omega)), show (1 : ℤ) + 1 = 2 from rfl,
      cutAtClose_append hd, cutAtClose_unbracketed (by decide)]
  · have hopen : ∀ t : CStr, skipNested 0 (123 :: t) = skipNested 1 t := fun _ ↦ rfl
    have hquote : ∀ t : CStr, skipNested e (34 :: t) = skipNested e t := fun t ↦
      skipNested_append hpos (s := [34]) rfl t
    rw [hopen, skipNested_append one_pos (hinside 1 one_pos), skipNested_append one_pos he, hquote]
    intro hmem
    have hbrackets := (cutAtClose_isPrefix d [125, 125, 125]).subset
      ((skipNested_suffix e _).subset hmem)
    exact absurd hbrackets (by decide)

theorem scanFields_nested {name : String} (hname : FieldName name) {v : CStr}
    (hskip : 34 ∉ skipNested 0 (123 :: v)) (fuel : ℕ) (fields : List (LuaKey × LuaValue)) :
    scanFields fuel fields (memberList [(name, 123 :: v)] ++ []) = fields := by
  cases fuel with
  | zero => rfl
  | succ fuel =>
    have hread : readValue (123 :: v) = some (none, skipNested 0 (123 :: v)) := rfl
    rw [List.append_nil, memberList, scanFields_member hname ⟨123, rfl, by decide⟩, hread]
    dsimp only
    generalize skipNested 0 (123 :: v) = r at hskip
    have hrest : 34 ∉ r.dropWhile fun b ↦ b = 32 ∨ b = 44 ∨ b = 9 := fun hmem ↦
      hskip ((List.dropWhile_suffix _).subset hmem)
    split
    · rfl
    · cases fuel with
      | zero => rfl
      | succ fuel =>
        rw [scanFields, dropWhile_of_notMem hrest]
        rfl

/-- An answer whose last member is an object with a string at its end. The string may have brackets
in it, as long as it closes none that it has not opened. -/
theorem agrees_nested {verb : IpcVerb} {items : List (String × Printed)} {name : String}
    (hnames : FieldNames (items.map Prod.fst ++ [name])) (hfine : ∀ i ∈ items, i.2.Fine)
    (hraws : raws items = []) (hne : items ≠ []) {ms : List (String × CStr)} (hmsne : ms ≠ [])
    (hms : ∀ m ∈ ms, Tidy m) {last : String} (hlast : FieldName last ∧ ascii last ≠ ascii "ok")
    {s : CStr} (hs : Clear s) (hexcess : NoExcess s) {text : CStr}
    (htext : (IpcReply.fields verb
      (texts items ++ [(name, object (ms ++ [(last, quoted s)]))])).render = some text) :
    Agrees text (.fields verb (texts items ++ [(name, object (ms ++ [(last, quoted s)]))])) := by
  obtain ⟨hnames, hpairs⟩ := hnames
  rw [List.forall_mem_append, List.forall_mem_singleton] at hnames
  obtain ⟨hitems, hname⟩ := hnames
  have hitem : ∀ i ∈ items, FieldName i.1 ∧ ascii i.1 ≠ ascii "ok" := fun i hi ↦
    ⟨(hitems i.1 (List.mem_map_of_mem hi)).1, (hitems i.1 (List.mem_map_of_mem hi)).2.1⟩
  have hspec := tidy_of_raws_nil hitem hfine hraws
  have htidy : ∀ m ∈ texts items, Tidy m := by
    intro m hm
    obtain ⟨i, hi, rfl⟩ := List.mem_map.mp hm
    exact (hspec i hi).2
  have hinner : SkipsOk (object (ms ++ [(last, quoted s)])) ∧
      OneLine (object (ms ++ [(last, quoted s)])) := by
    refine ⟨skipsOk_object ?_, oneLine_object ?_⟩
    · simp only [List.forall_mem_append, List.forall_mem_singleton]
      exact ⟨fun m hm ↦ ⟨(hms m hm).1.1, (hms m hm).1.2, (hms m hm).2.2.1⟩, hlast.1, hlast.2,
        skipsOk_quoted hs.quote_notMem⟩
    · simp only [List.forall_mem_append, List.forall_mem_singleton]
      exact ⟨fun m hm ↦ (hms m hm).oneLine, (clear_of_safe hlast.1.1).oneLine, hs.oneLine.quoted⟩
  have hmembers : ∀ m ∈ texts items ++ [(name, object (ms ++ [(last, quoted s)]))],
      (FieldName m.1 ∧ ascii m.1 ≠ ascii "ok") ∧ SkipsOk m.2 ∧ OneLine m.2 := by
    simp only [List.forall_mem_append, List.forall_mem_singleton]
    exact ⟨fun m hm ↦ ⟨(htidy m hm).1, (htidy m hm).2.2.1, (htidy m hm).oneLine.2⟩,
      ⟨hname.1, hname.2.1⟩, hinner⟩
  have hskips : ∀ tail, afterFirst (okPattern tail)
      (object (texts items ++ [(name, object (ms ++ [(last, quoted s)]))]) ++ [125]) = none := by
    intro tail
    have hobject : Skips (okPattern tail)
        (object (texts items ++ [(name, object (ms ++ [(last, quoted s)]))])) :=
      skips_object fun m hm ↦ ⟨(hmembers m hm).1.1, (hmembers m hm).1.2, (hmembers m hm).2.1⟩
    have hclose : Skips (okPattern tail) [125] := skips_of_notMem (by decide)
    have hall := (hobject.append hclose) []
    rwa [List.append_nil] at hall
  have hdata : OneLine (object (texts items ++ [(name, object (ms ++ [(last, quoted s)]))])) :=
    oneLine_object fun m hm ↦ ⟨(clear_of_safe (hmembers m hm).1.1.1).oneLine, (hmembers m hm).2.2⟩
  have hnil : texts items ≠ [] := fun heq ↦ hne (List.map_eq_nil_iff.mp heq)
  obtain ⟨v, hv, hskip⟩ := exists_fieldsText_nested hnil htidy hname.1 hmsne hms hlast.1 hexcess
  rw [IpcReply.render_eq, fitText_eq_some_iff] at htext
  obtain ⟨hlen, rfl⟩ := htext
  intro chunks hchunks
  rw [clientResponse_okText hlen hdata hchunks, ipcCall_object, hskips, hskips, if_neg (by simp),
    dataTable_object, hv]
  refine ⟨_, rfl, ?_⟩
  have hfuel : items.length ≤ (memberList (texts items ++ [(name, 123 :: v)])).length + 1 := by
    have hle := length_le_memberList (texts items ++ [(name, 123 :: v)])
    rw [List.length_append, texts, List.length_map] at hle
    rw [texts]
    omega
  have hscan := scanFields_until (fun i hi ↦ ⟨(hitem i hi).1, (hspec i hi).1⟩)
    (scanFields_nested hname.1 hskip) hfuel
    [(.name (ascii "_json"), .str (123 :: memberList (texts items ++ [(name, 123 :: v)])))]
  rw [List.append_nil] at hscan
  have hpairwise : items.Pairwise fun i j ↦ ascii i.1 ≠ ascii j.1 :=
    (List.pairwise_map (f := Prod.fst) (R := fun m n : String ↦ ascii m ≠ ascii n)).mp
      (List.pairwise_append.mp hpairs).1
  rw [hscan, HasMembers, List.forall_mem_append, List.forall_mem_singleton]
  refine ⟨(hasMembers_texts_iff hfine _).mpr (hasFields_addFields hpairwise _), fun x hx ↦ ?_⟩
  exact absurd hx (by simp [object, scalar])

end NetForensics

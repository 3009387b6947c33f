import NetForensics.Ctl.Kept
import NetForensics.Ctl.Replies
import NetForensics.Json.Pieces
import NetForensics.Tcp.Emit

/-!
# Every request is answered, on one line

`service_client` sends what the handler has printed, with a newline behind it if there is room, and
an error of its own when the handler fails. A response is as it should be if it is one line with one
object on it, whose `op` is that of the request. Most answers always are. Those with strings of the
configuration, of a sample or of an error in them print these strings as they are, so that they must
leave the reader where it was; and a list of flows may take up the byte of the newline.
-/

namespace NetForensics

open Json

/-! ## Responses -/

/-- One line with one object on it, in which `op` is there once and is the string. -/
def Tells (line op : CStr) : Prop :=
  IsLine line ∧ ∃ ms, parse line = some (.obj ms) ∧ membersOf (ascii "op") (.obj ms) = [.str op]

/-- Such a line and a newline, and nothing else. -/
def AnswersWith (bytes op : CStr) : Prop := ∃ line, bytes = line ++ [10] ∧ Tells line op

theorem answersWith_append_iff {line op : CStr} :
    AnswersWith (line ++ [10]) op ↔ Tells line op := by
  constructor
  · rintro ⟨line', heq, h⟩
    rwa [List.append_cancel_right heq]
  · exact fun h ↦ ⟨line, rfl, h⟩

theorem not_answersWith_of_brace (line op : CStr) : ¬ AnswersWith (line ++ [125]) op := by
  rintro ⟨line', heq, -⟩
  have hlast := congrArg List.getLast? heq
  rw [List.getLast?_concat, List.getLast?_concat] at hlast
  exact absurd hlast (by decide)

theorem Tells.unique {line op op' : CStr} (h : Tells line op) (h' : Tells line op') : op = op' := by
  obtain ⟨-, ms, hparse, hop⟩ := h
  obtain ⟨-, ms', hparse', hop'⟩ := h'
  obtain rfl := Json.obj.inj (Option.some_inj.mp (hparse.symm.trans hparse'))
  exact Json.str.inj (List.cons.inj (hop.symm.trans hop')).1

/-! ## Errors -/

/-- An error up to its message, as it is read. -/
def errPieces (op : CStr) : List Piece := [.sound (ascii "ok", .bool false), .raw (ascii "op") op]

theorem composed_errText (op : CStr) {msg : CStr} (hmsg : Safe msg) :
    Composed 0 (errPieces op ++ [.sound (ascii "error", .str msg)])
      [("ok", ascii "false"), ("op", quoted op), ("error", quoted msg)] := by
  have hname : Named "error" := by decide
  have herror : MemberReads ("error", quoted msg) (ascii "error", .str msg) :=
    memberReads hname.1.plain (reads_quoted hmsg.plain)
  exact .cons_bool (by decide) false (.cons_raw (by decide) op
    (.last hname (.sound herror ((clean_quoted_iff msg).mpr hmsg.clean))))

theorem isLine_errText_iff (op : CStr) {msg : CStr} (hmsg : Safe msg) :
    IsLine (errText op msg) ↔ IsLine op := by
  rw [errText, isLine_object_iff, (composed_errText op hmsg).isLine_iff]
  exact List.forall_mem_singleton

theorem tells_errText_iff {op msg : CStr} (hmsg : Safe msg) :
    Tells (errText op msg) op ↔ Plain op ∧ ValidUtf8 op := by
  have hok : MemberReads ("ok", ascii "false") (ascii "ok", .bool false) :=
    memberReads (by decide) reads_false
  have herror : Sound ("error", quoted msg) := sound_safe (by decide) hmsg
  have hrest : ∃ ms, parse (object [("error", quoted msg)]) = some (.obj ms) ∧
      membersOf (ascii "op") (.obj ms) = [] := by
    have hname : ascii "error" ≠ ascii "op" := by decide
    obtain ⟨ms, hms, hnone⟩ := lacks_of_sound (List.forall_mem_singleton.mpr herror)
      (List.forall_mem_singleton.mpr hname)
    exact ⟨ms, hms.2, hnone⟩
  have hkeys : ∀ kv ∈ [(ascii "ok", Json.bool false)], kv.1 ≠ ascii "op" :=
    List.forall_mem_singleton.mpr (by decide)
  have hfirst : ascii ("error", quoted msg).1 = 101 :: ascii "rror" :=
    (by decide : ascii "error" = 101 :: ascii "rror")
  have hparse : (∃ ms, parse (errText op msg) = some (.obj ms) ∧
      membersOf (ascii "op") (.obj ms) = [.str op]) ↔ Plain op ∧
        ∃ ms, parse (object [("error", quoted msg)]) = some (.obj ms) ∧
          membersOf (ascii "op") (.obj ms) = [] :=
    parse_raw_member_iff (.cons hok .nil) hkeys (by decide) hfirst (by decide)
  rw [Tells, isLine_errText_iff op hmsg]
  constructor
  · rintro ⟨hop, h⟩
    exact ⟨(hparse.mp h).1, hop.1⟩
  · rintro ⟨hplain, hutf8⟩
    have hnl : 10 ∉ op := fun hmem ↦ absurd (hplain 10 hmem).1 (by decide)
    exact ⟨⟨hutf8, hnl⟩, hparse.mpr ⟨hplain, hrest⟩⟩

theorem tells_errText {op msg : CStr} (hop : Safe op) (hmsg : Safe msg) :
    Tells (errText op msg) op :=
  (tells_errText_iff hmsg).mpr ⟨hop.plain, hop.clean.1⟩

/-! ## The envelope -/

/-- The envelope of an answer as it is read, with its data in pieces. -/
def okPieces (verb : IpcVerb) (ps : List Piece) : List Piece :=
  .sound (ascii "ok", .bool true) :: .sound (ascii "op", .str (ascii verb.name)) ::
    .opens (ascii "data") :: ps

/-- The strings of the data are lines, and they leave the reader in the data of the answer, so many
objects deep. -/
def Rejoined (verb : IpcVerb) (depth : ℕ) (ps : List Piece) : Prop :=
  (∀ s ∈ rawStrings ps, IsLine s) ∧ Rejoins "op" (ascii verb.name) (depth + 1) (okPieces verb ps)

theorem safe_verbName (verb : IpcVerb) : Safe (ascii verb.name) := by
  cases verb <;> decide

theorem tells_pieces_iff {verb : IpcVerb} {depth : ℕ} {ps : List Piece} {ms : List (String × CStr)}
    (h : Composed depth ps ms) :
    Tells (okText verb (object ms)) (ascii verb.name) ↔ Rejoined verb depth ps := by
  have hcomposed : Composed (depth + 1) (okPieces verb ps)
      [("ok", ascii "true"), ("op", quoted (ascii verb.name)), ("data", object ms)] :=
    .cons_bool (by decide) true
      (.cons_quoted (by decide) (safe_verbName verb) (.opens (by decide) h))
  rw [Tells, okText, isLine_object_iff]
  exact and_congr hcomposed.isLine_iff (hcomposed.parse_iff (Nat.succ_ne_zero depth))

theorem rejoined_of_plain (verb : IpcVerb) {ps : List Piece}
    (h : ∀ s ∈ rawStrings ps, Plain s ∧ ValidUtf8 s) : Rejoined verb (openings ps) ps := by
  obtain ⟨ms, objs, hread, hlen⟩ := readPieces_of_plain (fun s hs ↦ (h s hs).1)
    ⟨[], [objFrame ([(ascii "ok", .bool true), (ascii "op", .str (ascii verb.name))],
      ascii "data")]⟩
  refine ⟨fun s hs ↦ ⟨(h s hs).2, fun hmem ↦ absurd ((h s hs).1 10 hmem).1 (by decide)⟩,
    ms, objs ++ [([(ascii "ok", .bool true), (ascii "op", .str (ascii verb.name))],
      ascii "data")], ?_, ?_, ?_⟩
  · rw [List.map_append]
    exact hread
  · rw [List.length_append, hlen, List.length_singleton]
  · intro o ho
    rw [List.getLast?_concat] at ho
    obtain rfl := Option.some_inj.mp ho
    exact ⟨(by decide : ascii "data" ≠ ascii "op"), rfl⟩

theorem tells_okText (verb : IpcVerb) {data : CStr} {v : Json} (hv : Reads data v)
    (hclean : Clean data) : Tells (okText verb data) (ascii verb.name) := by
  obtain ⟨hline, hparse⟩ := isJsonLine_okText verb hv hclean
  exact ⟨hline.isLine, _, hparse, rfl⟩

theorem tells_object (verb : IpcVerb) {ms : List (String × CStr)} (h : ∀ m ∈ ms, Sound m) :
    Tells (okText verb (object ms)) (ascii verb.name) := by
  obtain ⟨kvs, hkvs⟩ := exists_memberReads h
  exact tells_okText verb (reads_object hkvs) ((clean_object_iff ms).mpr (clean_of_sound h))

theorem tells_rows (verb : IpcVerb) {rows : List (List (String × CStr))}
    (h : ∀ ms ∈ rows, ∀ m ∈ ms, Sound m) :
    Tells (okText verb (array (rows.map object))) (ascii verb.name) := by
  obtain ⟨vs, hvs, -⟩ := reads_rows h
  exact tells_okText verb hvs (clean_rows h)

/-! ## What is sent -/

namespace IpcReply

def sent (r : IpcReply) : CStr := responseBytes (r.render.getD handlerError)

/-- What is sent names the operation, unless the answer does not fit. -/
def Answers (r : IpcReply) (op : CStr) : Prop := r.render ≠ none → AnswersWith r.sent op

theorem room_ge (r : IpcReply) : cpeIpcLineMax - 2 ≤ r.room := by
  have hline : cpeIpcLineMax = 8192 := rfl
  cases r <;> rw [room] <;> omega

theorem sent_of_none {r : IpcReply} (h : r.render = none) : r.sent = handlerError ++ [10] := by
  rw [sent, h]
  rfl

/-- The error that is sent for a handler that fails names no operation. -/
theorem tells_handlerError : Tells handlerError (ascii "unknown") :=
  tells_errText (by decide) (by decide)

theorem answers_of_none {r : IpcReply} (h : r.render = none) (op : CStr) : r.Answers op :=
  fun hsome ↦ absurd h hsome

theorem render_of_length {r : IpcReply} (h : r.text.length + 1 < cpeIpcLineMax) :
    r.render = some r.text := by
  have hroom := r.room_ge
  rw [render_eq, fitText_of_lt (by omega)]

theorem sent_of_length {r : IpcReply} (h : r.text.length + 1 < cpeIpcLineMax) :
    r.sent = r.text ++ [10] := by
  rw [sent, render_of_length h, Option.getD_some, responseBytes, if_pos h]

theorem answers_iff_of_length {r : IpcReply} (h : r.text.length + 1 < cpeIpcLineMax) (op : CStr) :
    r.Answers op ↔ Tells r.text op := by
  rw [Answers, sent_of_length h, answersWith_append_iff]
  exact imp_iff_right (by simp [render_of_length h])

/-- An answer that is appended leaves room for the newline, or does not fit. -/
theorem answers_of_room {r : IpcReply} (hroom : r.room + 1 < cpeIpcLineMax) {op : CStr}
    (h : Tells r.text op) : r.Answers op := by
  by_cases hlen : r.text.length < r.room + 1
  · exact (answers_iff_of_length (by omega) op).mpr h
  · exact answers_of_none (by rw [render_eq, fitText_of_le (not_lt.mp hlen)]) op

/-- An answer that is printed up to the last byte has no newline. -/
theorem answers_iff_length_ne {r : IpcReply} (hroom : r.room + 1 = cpeIpcLineMax) {line op : CStr}
    (hbrace : r.text = line ++ [125]) (h : Tells r.text op) :
    r.Answers op ↔ r.text.length + 1 ≠ cpeIpcLineMax := by
  rcases lt_trichotomy (r.text.length + 1) cpeIpcLineMax with hlt | heq | hgt
  · exact iff_of_true ((answers_iff_of_length hlt op).mpr h) hlt.ne
  · have hrender : r.render = some r.text := by
      rw [render_eq, fitText_of_lt (by omega)]
    have hsent : r.sent = line ++ [125] := by
      rw [sent, hrender, Option.getD_some, responseBytes, if_neg (by omega), hbrace]
    refine iff_of_false (fun hanswers ↦ ?_) fun hne ↦ hne heq
    have hnames := hanswers (by simp [hrender])
    rw [hsent] at hnames
    exact not_answersWith_of_brace line _ hnames
  · exact iff_of_true (answers_of_none (by rw [render_eq, fitText_of_le (by omega)]) op) hgt.ne'

end IpcReply

/-! ## Sizes -/

namespace IpcReply

/-- Data of the size of a configuration leaves room for the newline. -/
theorem answers_fields_iff {verb : IpcVerb} {ms : List (String × CStr)}
    (h : (object ms).length ≤ 8000) :
    (fields verb ms).Answers (ascii verb.name) ↔
      Tells (okText verb (object ms)) (ascii verb.name) := by
  have hopen := length_okOpen_lt verb
  have hmax : cpeIpcLineMax = 8192 := rfl
  refine answers_iff_of_length ?_ _
  rw [text, length_okText]
  omega

theorem answers_fields {verb : IpcVerb} {ms : List (String × CStr)} (h : ∀ m ∈ ms, Sound m)
    (hlen : (object ms).length ≤ 8000) : (fields verb ms).Answers (ascii verb.name) :=
  (answers_fields_iff hlen).mpr (tells_object verb h)

theorem answers_value {verb : IpcVerb} {data : CStr} {v : Json} (hv : Reads data v)
    (hclean : Clean data) (hlen : data.length ≤ 8000) :
    (value verb data).Answers (ascii verb.name) := by
  have hopen := length_okOpen_lt verb
  have hmax : cpeIpcLineMax = 8192 := rfl
  refine (answers_iff_of_length ?_ _).mpr (tells_okText verb hv hclean)
  rw [text, length_okText]
  omega

theorem length_error_lt {op msg : CStr} (hop : op ≠ [] ∧ op.length < 48)
    (hmsg : msg ≠ [] ∧ msg.length < 48) : (error op msg).text.length + 1 < cpeIpcLineMax := by
  have hmax : cpeIpcLineMax = 8192 := rfl
  rw [text, if_pos hop.1, if_pos hmsg.1, errText, length_object (List.cons_ne_nil _ _)]
  simp only [List.map_cons, List.map_nil, List.sum_cons, List.sum_nil, length_quoted,
    String.reduceToList, List.length_cons, List.length_nil, length_ascii]
  omega

theorem answers_error_iff {op msg : CStr} (hop : op ≠ [] ∧ op.length < 48) (hmsg : Safe msg)
    (hne : msg ≠ []) (hlen : msg.length < 48) :
    (error op msg).Answers op ↔ Plain op ∧ ValidUtf8 op := by
  rw [answers_iff_of_length (length_error_lt hop ⟨hne, hlen⟩), text, if_pos hop.1, if_pos hne,
    tells_errText_iff hmsg]

end IpcReply

theorem reads_signedDecimal (n : ℤ) : Reads (signedDecimal n) (.num (signedDecimal n)) := by
  rw [signedDecimal]
  split
  · rename_i hneg
    intro stack
    obtain ⟨b, s, heq, hlow, hhigh⟩ := decimal_eq_cons (n := n.natAbs) (by omega)
    have hdigits := digits_decimal n.natAbs
    rw [heq] at hdigits ⊢
    have hne : b ≠ 48 := by
      rintro rfl
      exact absurd hlow (by decide)
    have hfirst : 49 ≤ b ∧ b ≤ 57 :=
      ⟨UInt8.le_iff_toNat_le.mpr hlow, UInt8.le_iff_toNat_le.mpr hhigh⟩
    have hstep : Reader.step ⟨.num .minus [45], stack⟩ b = some ⟨.num .int [45, b], stack⟩ := by
      rw [Reader.step]
      dsimp only
      rw [NumState.step, if_neg hne, if_pos hfirst]
      rfl
    refine ⟨⟨.num .int (45 :: b :: s), stack⟩, ?_, Or.inr ⟨.int, _, rfl, rfl, rfl⟩⟩
    rw [Reader.run_cons_of_eq (q := ⟨.num .minus [45], stack⟩) rfl, Reader.run_cons_of_eq hstep,
      run_int fun c hc ↦ hdigits c (List.mem_cons_of_mem b hc)]
    rfl
  · exact reads_decimal n.natAbs

theorem sound_intText {name : String} (hname : Safe (ascii name)) (n : ℤ) :
    Sound (name, intText n) :=
  ⟨hname, ⟨_, reads_signedDecimal _⟩, (word_signedDecimal _).safe.clean⟩

theorem length_intText_le (n : ℤ) : (intText n).length ≤ 11 := by
  have hbound : (Int.bmod n (2 ^ 32)).natAbs < 10 ^ 10 := by
    have hlow := Int.le_bmod (x := n) (m := 2 ^ 32) (by decide)
    have hhigh := Int.bmod_lt (x := n) (m := 2 ^ 32) (by decide)
    omega
  have hlen : (decimal (Int.bmod n (2 ^ 32)).natAbs).length ≤ 10 :=
    length_decimal_le (by decide) hbound
  rw [intText, signedDecimal]
  split
  · rw [List.length_cons]
    omega
  · omega

theorem answers_refused {verb : IpcVerb} {msg : CStr}
    (hmsg : Safe msg ∧ msg ≠ [] ∧ msg.length < 48) :
    (IpcReply.error (ascii verb.name) msg).Answers (ascii verb.name) := by
  have hname : ascii verb.name ≠ [] ∧ (ascii verb.name).length < 48 := by
    cases verb <;> decide
  exact (IpcReply.answers_error_iff hname hmsg.1 hmsg.2.1 hmsg.2.2).mpr
    ⟨(safe_verbName verb).plain, (safe_verbName verb).clean.1⟩

theorem answers_counted {verb : IpcVerb} {field msg : String}
    (hfield : Safe (ascii field) ∧ (ascii field).length ≤ 8)
    (hmsg : Safe (ascii msg) ∧ ascii msg ≠ [] ∧ (ascii msg).length < 48) (n : ℤ) :
    (IpcState.counted verb field msg n).Answers (ascii verb.name) := by
  rw [IpcState.counted]
  split
  · exact answers_refused hmsg
  · refine IpcReply.answers_fields (List.forall_mem_singleton.mpr (sound_intText hfield.1 n)) ?_
    have hlen := length_intText_le n
    have hfieldLen := hfield.2
    rw [length_ascii] at hfieldLen
    rw [length_object (List.cons_ne_nil _ _)]
    simp only [List.map_cons, List.map_nil, List.sum_cons, List.sum_nil]
    omega

/-! ## Strings printed as they are -/

theorem answers_pieces_iff {verb : IpcVerb} {depth : ℕ} {ps : List Piece}
    (kvs : List (CStr × Json)) {ms : List (String × CStr)}
    (h : Composed depth (ps ++ kvs.map .sound) ms) (hlen : (object ms).length ≤ 8000) :
    (IpcReply.fields verb ms).Answers (ascii verb.name) ↔ Rejoined verb depth ps := by
  have hraw : rawStrings (ps ++ kvs.map .sound) = rawStrings ps := by
    have hnone : rawStrings (kvs.map .sound) = [] :=
      List.filterMap_eq_nil_iff.mpr fun p hp ↦ by
        obtain ⟨kv, -, rfl⟩ := List.mem_map.mp hp
        rfl
    rw [rawStrings, List.filterMap_append, ← rawStrings, ← rawStrings, hnone, List.append_nil]
  rw [IpcReply.answers_fields_iff hlen, tells_pieces_iff h, Rejoined, Rejoined, hraw]
  have hsound : Rejoins "op" (ascii verb.name) (depth + 1) (okPieces verb ps ++ kvs.map .sound) ↔
      Rejoins "op" (ascii verb.name) (depth + 1) (okPieces verb ps) := rejoins_append_sound kvs
  exact and_congr_right fun _ ↦ hsound

/-- `status`, up to its last string. -/
def statusPieces (cfg : CpeAgentConfig) : List Piece :=
  [.raw (ascii "router_id") cfg.routerId,
   .sound (ascii "emit_mode", .str cfg.emitMode),
   .raw (ascii "egress_url") cfg.httpsUrl,
   .raw (ascii "openai_proxy_url") cfg.openaiProxyUrl]

theorem length_sizeText_le (n : ℕ) : (sizeText n).length ≤ 20 :=
  length_decimal_le (by decide) ((Nat.mod_lt n (by decide)).trans (by decide))

theorem answers_status_iff {a : CpeAgent} (h : a.Sane) :
    (IpcReply.fields .status (statusMembers a)).Answers (ascii IpcVerb.status.name) ↔
      Rejoined .status 0 (statusPieces a.cfg) := by
  have hmode := (word_emitMode h.cfg).1.safe
  have hsound : ∀ m ∈ (statusMembers a).drop 4, Sound m ∧ Lettered m.1 := by
    simp only [statusMembers, List.drop_succ_cons, List.drop_zero, List.forall_mem_cons]
    exact ⟨⟨sound_bool (by decide) _, by decide⟩, ⟨sound_bool (by decide) _, by decide⟩,
      ⟨sound_decimal (by decide) _, by decide⟩, ⟨sound_bool (by decide) _, by decide⟩,
      ⟨sound_decimal (by decide) _, by decide⟩, ⟨sound_decimal (by decide) _, by decide⟩,
      ⟨sound_decimal (by decide) _, by decide⟩, List.forall_mem_nil _⟩
  obtain ⟨kvs, hkvs⟩ := exists_composed (List.cons_ne_nil _ _) hsound
  have hcomposed : Composed 0 (statusPieces a.cfg ++ kvs.map .sound) (statusMembers a) :=
    .cons_raw (by decide) _ (.cons_quoted (by decide) hmode
      (.cons_raw (by decide) _ (.cons_raw (by decide) _ hkvs)))
  refine answers_pieces_iff kvs hcomposed ?_
  have hrouter := h.sized.routerId
  have hemit := h.sized.emitMode
  have hurl := h.sized.httpsUrl
  have hproxy := h.sized.openaiProxyUrl
  have hdemo := length_boolText a.cfg.demoMode
  have htcp := length_boolText a.cfg.tcpStatsEnabled
  have hflow := length_boolText a.cfg.flowAcctEnabled
  have hgroup := length_decimal_uint16 a.cfg.tcpNflogGroup
  have hdepth := length_sizeText_le a.spoolDepth
  have hdrops := length_sizeText_le a.spoolDrops
  have hgen := length_decimal_uint64 a.cfg.generation
  rw [statusMembers, length_object (List.cons_ne_nil _ _)]
  simp only [List.map_cons, List.map_nil, List.sum_cons, List.sum_nil, length_quoted,
    String.reduceToList, List.length_cons, List.length_nil]
  omega

/-- `config`, all of it. -/
def configPieces (cfg : CpeAgentConfig) : List Piece :=
  [.raw (ascii "router_id") cfg.routerId,
   .sound (ascii "emit_mode", .str cfg.emitMode),
   .raw (ascii "target") cfg.demoTarget,
   .sound (ascii "interval_ms", .num (decimal cfg.demoIntervalMs.toNat)),
   .sound (ascii "timeout_ms", .num (decimal cfg.probeTimeoutMs.toNat)),
   .sound (ascii "demo", .bool cfg.demoMode),
   .sound (ascii "tcp_stats", .bool cfg.tcpStatsEnabled),
   .sound (ascii "tcp_nflog_group", .num (decimal cfg.tcpNflogGroup.toNat)),
   .sound (ascii "tcp_prefix_len", .num (decimal cfg.tcpPrefixLen.toNat)),
   .raw (ascii "egress_url") cfg.httpsUrl,
   .raw (ascii "openai_proxy_url") cfg.openaiProxyUrl,
   .raw (ascii "ipc_socket") cfg.ipcPath]

theorem answers_config_iff {a : CpeAgent} (h : a.Sane) :
    (IpcReply.fields .config (configMembers a.cfg)).Answers (ascii IpcVerb.config.name) ↔
      Rejoined .config 0 (configPieces a.cfg) := by
  have hmode := (word_emitMode h.cfg).1.safe
  have hcomposed : Composed 0 (configPieces a.cfg ++ [].map .sound) (configMembers a.cfg) := by
    rw [List.map_nil, List.append_nil]
    exact .cons_raw (by decide) _ (.cons_quoted (by decide) hmode (.cons_raw (by decide) _
      (.cons_decimal (by decide) _ (.cons_decimal (by decide) _ (.cons_bool (by decide) _
      (.cons_bool (by decide) _ (.cons_decimal (by decide) _ (.cons_decimal (by decide) _
      (.cons_raw (by decide) _ (.cons_raw (by decide) _ (.last_raw (by decide) _)))))))))))
  refine answers_pieces_iff [] hcomposed ?_
  have hrouter := h.sized.routerId
  have hemit := h.sized.emitMode
  have htarget := h.sized.demoTarget
  have hurl := h.sized.httpsUrl
  have hproxy := h.sized.openaiProxyUrl
  have hsocket := h.sized.ipcPath
  have hinterval := length_decimal_uint32 a.cfg.demoIntervalMs
  have htimeout := length_decimal_uint32 a.cfg.probeTimeoutMs
  have hdemo := length_boolText a.cfg.demoMode
  have htcp := length_boolText a.cfg.tcpStatsEnabled
  have hgroup := length_decimal_uint16 a.cfg.tcpNflogGroup
  have hplen := length_decimal_octet a.cfg.tcpPrefixLen
  rw [configMembers, length_object (List.cons_ne_nil _ _)]
  simp only [List.map_cons, List.map_nil, List.sum_cons, List.sum_nil, length_quoted,
    String.reduceToList, List.length_cons, List.length_nil]
  omega

/-! ## Samples -/

/-- The `meta` of a kept sample: an object that reads back, or that of an arping. -/
def CpePerfSample.Legible (x : CpePerfSample) : Prop :=
  (∃ ms, x.metaText = object ms ∧ ∀ m ∈ ms, Sound m) ∨ ∃ ifname, x.PrintsInterface ifname

theorem Probe.legible_head {p : Probe} {cfg : CpeAgentConfig} {clock : Option WallClock}
    {x : CpePerfSample} (hx : (p.samples cfg clock).head? = some x) : x.Legible := by
  cases p with
  | demoPing st =>
    obtain rfl := Option.some_inj.mp hx
    refine .inl ⟨_, (formed_demoPing cfg clock st).metaText, ?_⟩
    simp only [List.forall_mem_cons]
    exact ⟨sound_decimal (by decide) _, sound_decimal (by decide) _, sound_bool (by decide) _,
      List.forall_mem_nil _⟩
  | livePing rtt isRaw =>
    rw [Probe.samples] at hx
    split at hx
    · exact absurd hx (by simp)
    · obtain rfl := Option.some_inj.mp hx
      refine .inl ⟨_, (formed_livePing cfg clock rtt isRaw).metaText, ?_⟩
      simp only [List.forall_mem_cons]
      exact ⟨sound_decimal (by decide) _, sound_decimal (by decide) _, sound_bool (by decide) _,
        sound_bool (by decide) _, List.forall_mem_nil _⟩
  | demoArping ipv4Opt avg =>
    rw [Probe.samples] at hx
    split at hx
    · exact absurd hx (by simp)
    · obtain rfl := Option.some_inj.mp hx
      refine .inl ⟨_, (formed_demoArping clock _ _ demoMac).metaText, ?_⟩
      simp only [List.forall_mem_cons]
      exact ⟨sound_decimal (by decide) _, sound_decimal (by decide) _, sound_bool (by decide) _,
        sound_safe (by decide) (safe_of_token (token_macFmt _)), List.forall_mem_nil _⟩
  | arping ipv4Opt ifnameOpt picked reply =>
    rw [Probe.samples] at hx
    split at hx
    · exact absurd hx (by simp)
    · obtain rfl := Option.some_inj.mp hx
      have hif : (arpingIfname cfg ifnameOpt picked).length < 32 := length_copyStr_lt (by decide) _
      have hmac : Word ((reply.map fun r ↦ macFmt r.2).getD []) := by
        cases reply with
        | none => exact word_nil
        | some r => exact word_of_token (token_macFmt r.2)
      exact .inr ⟨_, _, _, hmac, (formed_arping clock _ reply hif).metaText⟩
  | trace mtr targetOpt maxTtl probesPerHop udp reply =>
    rw [Probe.samples] at hx
    split at hx
    · exact absurd hx (by simp)
    · rename_i haddr
      obtain rfl := Option.some_inj.mp hx
      have hname : Safe (ascii (if mtr then "mtr" else "traceroute")) ∧
          ascii (if mtr then "mtr" else "traceroute") ≠ [] := by
        cases mtr <;> decide
      have htarget : Token (probeTarget cfg targetOpt) :=
        token_of_inetPton4 (by simpa [Option.isSome_iff_ne_none] using (not_or.mp haddr).2)
      obtain ⟨hok, hlen⟩ := runTrace_ok clock (safe_of_token htarget) maxTtl
        (if mtr then (if probesPerHop = 0 then 3 else probesPerHop) else 1) udp reply
      refine .inl ⟨_, (formed_summarySample hok hlen hname.1 hname.2).metaText, ?_⟩
      simp only [List.forall_mem_cons]
      exact ⟨sound_decimal (by decide) _, sound_bool (by decide) _,
        sound_safe (by decide) hok.method, sound_decimal (by decide) _, sound_bool (by decide) _,
        List.forall_mem_nil _⟩
  | demoTraceroute targetOpt maxTtl =>
    obtain rfl := Option.some_inj.mp hx
    obtain ⟨hops, hform⟩ := formed_demoTrace clock
      (if probeTarget cfg targetOpt ≠ [] then probeTarget cfg targetOpt else ascii "1.1.1.1") maxTtl
    refine .inl ⟨_, hform.metaText, ?_⟩
    simp only [List.forall_mem_cons]
    exact ⟨sound_decimal (by decide) _, sound_bool (by decide) _,
      sound_safe (by decide) (by decide : Safe (ascii "demo")), sound_decimal (by decide) _,
      sound_bool (by decide) _, List.forall_mem_nil _⟩

theorem IpcState.last_hostRun {P : CpePerfSample → Prop}
    (h : ∀ (p : Probe) cfg clock x, (p.samples cfg clock).head? = some x → P x)
    (ops : List HostOp) : ∀ x ∈ (create.hostRun ops).last, P x := by
  refine foldl_invariant (P := fun s : IpcState ↦ ∀ x ∈ s.last, P x) ?_ ?_ ops
  · intro s op hs x hx
    cases op with
    | configure cfg env => exact hs x hx
    | flow input => exact hs x hx
    | tcp op => exact hs x hx
    | tick env => exact hs x hx
    | probe p clock =>
      rcases Option.or_eq_some_iff.mp hx with hhead | ⟨-, hlast⟩
      · exact h p.1 _ _ x hhead
      · exact hs x hlast
    | request env req =>
      rw [hostStep, handleRequest, answer_last] at hx
      exact hs x hx
  · exact fun x hx ↦ absurd hx (by simp [create])

/-- A sample up to its `meta`. -/
def samplePieces (x : CpePerfSample) : List Piece :=
  [.sound (ascii "probe", .str x.probe),
   .raw (ascii "target") x.target,
   .sound (ascii "rtt_ms", .num (fixed 3 x.rttMs)),
   .sound (ascii "loss", .num (fixed 4 x.loss)),
   .sound (ascii "ts", .str x.tsIso)]

def arpingPieces (x : CpePerfSample) (replied : Bool) (mac ifname : CStr) : List Piece :=
  samplePieces x ++ [.opens (ascii "meta"),
    .sound (ascii "replies", .num (decimal replied.toNat)),
    .sound (ascii "timeouts", .num (decimal (!replied).toNat)),
    .sound (ascii "demo", .bool false),
    .sound (ascii "mac", .str mac),
    .raw (ascii "if") ifname]

/-- The strings of the sample leave the reader where it was. -/
structure CpePerfSample.Rejoined (x : CpePerfSample) : Prop where
  arping : ∀ replied mac ifname, Word mac →
    x.metaText = object (arpingMembers replied mac ++ [("if", quoted ifname)]) →
    NetForensics.Rejoined .lastSample 1 (arpingPieces x replied mac ifname)
  other : (∀ ifname, ¬ x.PrintsInterface ifname) →
    NetForensics.Rejoined .lastSample 0 (samplePieces x)

theorem length_sampleMembers_le {x : CpePerfSample} (hx : x.Sane) :
    (object (sampleMembers x)).length ≤ 8000 := by
  -- three bits need no more than a digit
  have hbits : ∀ j k : ℕ, k ≠ 0 → j ≤ 3 * k → 2 ^ j < 10 ^ k := fun j k hk hj ↦
    calc 2 ^ j ≤ 2 ^ (3 * k) := Nat.pow_le_pow_right (by decide) hj
      _ = 8 ^ k := pow_mul 2 3 k
      _ < 10 ^ k := Nat.pow_lt_pow_left (by decide) hk
  have hpow : 2 ^ 1024 < 10 ^ 342 := hbits 1024 342 (by decide) (by decide)
  have hrtt := length_fixed_le (k := 3) (n := 2 ^ 1024) (by exact_mod_cast hx.finite.1.le) hpow
    (by decide) (by decide)
  have hloss := length_fixed_le (k := 4) (n := 2 ^ 1024) (by exact_mod_cast hx.finite.2.le) hpow
    (by decide) (by decide)
  have hprobe := hx.probe_lt
  have htarget := hx.target_lt
  have hts := hx.tsIso_lt
  have hmeta : (if x.metaText ≠ [] then x.metaText else ascii "\x7b\x7d").length < 128 := by
    split
    · exact hx.metaText_lt
    · decide
  rw [sampleMembers, length_object (List.cons_ne_nil _ _)]
  simp only [List.map_cons, List.map_nil, List.sum_cons, List.sum_nil, length_quoted,
    String.reduceToList, List.length_cons, List.length_nil]
  omega

theorem composed_sample {x : CpePerfSample} (hx : x.Sane) {depth : ℕ} {ps : List Piece}
    {ms : List (String × CStr)} (h : Composed depth ps [("meta", object ms)])
    (hmeta : x.metaText = object ms) : Composed depth (samplePieces x ++ ps) (sampleMembers x) := by
  rw [sampleMembers_eq hmeta]
  exact .cons_quoted (by decide) hx.probe.safe (.cons_raw (by decide) _ (.cons_fixed (by decide) 3 _
    (.cons_fixed (by decide) 4 _ (.cons_quoted (by decide) hx.tsIso.safe h))))

theorem answers_sample_iff {x : CpePerfSample} (hx : x.Sane) (hlegible : x.Legible) :
    (IpcReply.fields .lastSample (sampleMembers x)).Answers (ascii IpcVerb.lastSample.name) ↔
      x.Rejoined := by
  have hlen := length_sampleMembers_le hx
  have harping : ∀ replied mac ifname, Word mac →
      x.metaText = object (arpingMembers replied mac ++ [("if", quoted ifname)]) →
      ((IpcReply.fields .lastSample (sampleMembers x)).Answers (ascii IpcVerb.lastSample.name) ↔
        Rejoined .lastSample 1 (arpingPieces x replied mac ifname)) := by
    intro replied mac ifname hmac hmeta
    have hinner : Composed 1 _ [("meta", object (arpingMembers replied mac ++
        [("if", quoted ifname)]))] :=
      .opens (by decide) (.cons_decimal (by decide) _ (.cons_decimal (by decide) _
        (.cons_bool (by decide) _ (.cons_quoted (by decide) hmac.safe (.last_raw (by decide) _)))))
    refine answers_pieces_iff [] ?_ hlen
    rw [List.map_nil, List.append_nil]
    exact composed_sample hx hinner hmeta
  by_cases hif : ∃ ifname, x.PrintsInterface ifname
  · obtain ⟨ifname, replied, mac, hmac, hmeta⟩ := hif
    constructor
    · refine fun h ↦ ⟨fun replied mac ifname hmac hmeta ↦
        (harping replied mac ifname hmac hmeta).mp h, fun hnone ↦ ?_⟩
      exact absurd ⟨replied, mac, hmac, hmeta⟩ (hnone ifname)
    · exact fun h ↦ (harping replied mac ifname hmac hmeta).mpr (h.arping _ _ _ hmac hmeta)
  · obtain ⟨ms, hmeta, hms⟩ := hlegible.resolve_right hif
    have hsound : ∀ m ∈ [("meta", object ms)], Sound m ∧ Lettered m.1 := by
      obtain ⟨kvs, hkvs⟩ := exists_memberReads hms
      have hname : Safe (ascii "meta") ∧ Lettered "meta" := by decide
      exact List.forall_mem_singleton.mpr ⟨⟨hname.1, ⟨_, reads_object hkvs⟩,
        (clean_object_iff ms).mpr (clean_of_sound hms)⟩, hname.2⟩
    obtain ⟨kvs, hkvs⟩ := exists_composed (List.cons_ne_nil _ _) hsound
    rw [answers_pieces_iff kvs (composed_sample hx hkvs hmeta) hlen]
    constructor
    · refine fun h ↦ ⟨fun replied mac ifname hmac hmeta ↦ ?_, fun _ ↦ h⟩
      exact absurd ⟨ifname, replied, mac, hmac, hmeta⟩ hif
    · exact fun h ↦ h.other fun ifname hprints ↦ hif ⟨ifname, hprints⟩

/-- `latency` up to its last string. -/
def latencyPieces (cfg : CpeAgentConfig) (x : CpePerfSample) : List Piece :=
  [.sound (ascii "available", .bool true),
   .raw (ascii "router_id") cfg.routerId,
   .sound (ascii "probe", .str x.probe),
   .raw (ascii "target") x.target]

/-- A sample that is too long for the buffer of `latency` is an error. -/
theorem answers_latency_iff {s : IpcState} (hs : s.Sane) :
    s.latency.Answers (ascii IpcVerb.latency.name) ↔ ∀ x ∈ s.last,
      (object (latencyMembers s.agent.cfg (some x))).length < 256 →
        Rejoined .latency 0 (latencyPieces s.agent.cfg x) := by
  rw [IpcState.latency]
  by_cases hlen : (object (latencyMembers s.agent.cfg s.last)).length < 256
  · rw [if_pos hlen]
    cases hlast : s.last with
    | none =>
      rw [hlast] at hlen
      refine iff_of_true (IpcReply.answers_fields ?_ (by omega)) (by simp)
      exact List.forall_mem_singleton.mpr (sound_bool (by decide) false)
    | some x =>
      rw [hlast] at hlen
      have hsound : ∀ m ∈ [("rtt_ms", fixed 3 x.rttMs), ("loss", fixed 4 x.loss),
          ("ts", quoted x.tsIso)], Sound m ∧ Lettered m.1 := by
        simp only [List.forall_mem_cons]
        exact ⟨⟨sound_fixed (by decide) 3 _, by decide⟩, ⟨sound_fixed (by decide) 4 _, by decide⟩,
          ⟨sound_safe (by decide) (hs.last x hlast).tsIso.safe, by decide⟩, List.forall_mem_nil _⟩
      obtain ⟨kvs, hkvs⟩ := exists_composed (List.cons_ne_nil _ _) hsound
      have hcomposed : Composed 0 (latencyPieces s.agent.cfg x ++ kvs.map .sound)
          (latencyMembers s.agent.cfg (some x)) := by
        rw [latencyMembers, if_pos (routerId_ne_nil_of_validate hs.agent.cfg)]
        exact .cons_bool (by decide) true (.cons_raw (by decide) _ (.cons_quoted (by decide)
          (hs.last x hlast).probe.safe (.cons_raw (by decide) _ hkvs)))
      rw [answers_pieces_iff kvs hcomposed (by omega)]
      simp [hlen]
  · rw [if_neg hlen]
    refine iff_of_true ?_ fun x hx h ↦ absurd (hx ▸ h) hlen
    have hmsg : Safe (ascii "latency failed") ∧ ascii "latency failed" ≠ [] ∧
        (ascii "latency failed").length < 48 := by decide
    change (IpcReply.error (ascii IpcVerb.latency.name) _).Answers _
    exact answers_refused hmsg

/-! ## The collectors -/

theorem answers_tcpStats {snap : CpeTcpSnapshot} (hworded : snap.Worded) (hfiled : snap.Filed) :
    (IpcReply.fields .tcpStats (tcpStatsMembers snap)).Answers (ascii IpcVerb.tcpStats.name) := by
  have hsound : ∀ m ∈ tcpStatsMembers snap, Sound m := by
    simp only [tcpStatsMembers, List.cons_append, List.forall_mem_cons, List.forall_mem_append]
    exact ⟨sound_decimal (by decide) _, sound_counters _, sound_decimal (by decide) _,
      sound_decimal (by decide) _, sound_decimal (by decide) _, sound_fixed (by decide) 4 _,
      sound_safe (by decide) hworded.tsIso.safe, sound_decimal (by decide) _,
      List.forall_mem_nil _⟩
  refine IpcReply.answers_fields hsound ?_
  have hcounters := length_counters snap.total
  have hremotes : (decimal snap.remotes.length).length ≤ 3 :=
    length_decimal_le (by decide) (hfiled.remotes_le.trans_lt (by decide))
  have hprefixes : (decimal snap.prefixes.length).length ≤ 3 :=
    length_decimal_le (by decide) (hfiled.prefixes_le.trans_lt (by decide))
  have hgroup := length_decimal_uint32 snap.nflogGroup
  have hplen := length_decimal_octet snap.prefixLen
  have hhint := length_fixed_lossHint snap.total
  have hts := hfiled.tsIso
  have hparsed := length_decimal_uint64 snap.pktsParsed
  rw [length_object (by simp [tcpStatsMembers])]
  simp only [tcpStatsMembers, List.cons_append, List.map_cons, List.map_append, List.sum_append,
    List.map_nil, List.sum_cons, List.sum_nil, length_quoted, String.reduceToList, List.length_cons,
    List.length_nil]
  omega

/-- `flow_stats` up to its last string. -/
def flowStatsPieces (a : CpeAgent) (snap : CpeFlowSnapshot) : List Piece :=
  [.sound (ascii "enabled", .bool a.cfg.flowAcctEnabled),
   .sound (ascii "flow_count", .num (decimal snap.flows.length)),
   .sound (ascii "events_in", .num (decimal snap.eventsIn.toNat)),
   .sound (ascii "destroys_emitted", .num (decimal snap.destroysEmitted.toNat)),
   .sound (ascii "samples_emitted", .num (decimal snap.samplesEmitted.toNat)),
   .sound (ascii "dumps", .num (decimal snap.dumps.toNat)),
   .sound (ascii "open_ok", .bool snap.openOk),
   .raw (ascii "open_err") snap.openErr]

theorem length_flowStats_le (a : CpeAgent) (clock : Option WallClock) :
    (object (flowStatsMembers a (a.flowSnapshot clock))).length ≤ 8000 := by
  have hcount : (decimal (a.flowSnapshot clock).flows.length).length ≤ 4 :=
    length_decimal_le (by decide) ((length_flows_le a clock).trans_lt (by decide))
  have henabled := length_boolText a.cfg.flowAcctEnabled
  have hevents := length_decimal_uint64 (a.flowSnapshot clock).eventsIn
  have hdestroys := length_decimal_uint64 (a.flowSnapshot clock).destroysEmitted
  have hsamples := length_decimal_uint64 (a.flowSnapshot clock).samplesEmitted
  have hdumps := length_decimal_uint64 (a.flowSnapshot clock).dumps
  have hopen := length_boolText (a.flowSnapshot clock).openOk
  have herr : (if (a.flowSnapshot clock).openErr ≠ [] then quoted (a.flowSnapshot clock).openErr
      else ascii "null").length < 98 := by
    have hlen := length_openErr_lt a clock
    split
    · rw [length_quoted]
      omega
    · decide
  have hfd := length_intText_le ((a.flow.fd.map Int.ofNat).getD (-1))
  have hdump := length_intText_le ((a.flow.dumpFd.map Int.ofNat).getD (-1))
  have hts := (word_flowTs a clock).2
  rw [flowStatsMembers, length_object (List.cons_ne_nil _ _)]
  simp only [fdText, List.map_cons, List.map_nil, List.sum_cons, List.sum_nil, length_quoted,
    String.reduceToList, List.length_cons, List.length_nil]
  omega

theorem answers_flowStats_iff (a : CpeAgent) (clock : Option WallClock) :
    (IpcReply.fields .flowStats (flowStatsMembers a (a.flowSnapshot clock))).Answers
        (ascii IpcVerb.flowStats.name) ↔
      ((a.flowSnapshot clock).openErr ≠ [] →
        Rejoined .flowStats 0 (flowStatsPieces a (a.flowSnapshot clock))) := by
  have hts := (word_flowTs a clock).1.safe
  by_cases herr : (a.flowSnapshot clock).openErr = []
  · refine iff_of_true (IpcReply.answers_fields ?_ (length_flowStats_le a clock))
      fun hne ↦ absurd herr hne
    rw [flowStatsMembers, if_neg (not_not.mpr herr)]
    simp only [List.forall_mem_cons]
    exact ⟨sound_bool (by decide) _, sound_decimal (by decide) _, sound_decimal (by decide) _,
      sound_decimal (by decide) _, sound_decimal (by decide) _, sound_decimal (by decide) _,
      sound_bool (by decide) _, sound_null (by decide), sound_intText (by decide) _,
      sound_intText (by decide) _, sound_safe (by decide) hts, List.forall_mem_nil _⟩
  · rw [imp_iff_right herr]
    have hsound : ∀ m ∈ [("event_fd", fdText a.flow.fd), ("dump_fd", fdText a.flow.dumpFd),
        ("ts", quoted (a.flowSnapshot clock).tsIso)], Sound m ∧ Lettered m.1 := by
      simp only [List.forall_mem_cons]
      exact ⟨⟨sound_intText (by decide) _, by decide⟩, ⟨sound_intText (by decide) _, by decide⟩,
        ⟨sound_safe (by decide) hts, by decide⟩, List.forall_mem_nil _⟩
    obtain ⟨kvs, hkvs⟩ := exists_composed (List.cons_ne_nil _ _) hsound
    refine answers_pieces_iff kvs ?_ (length_flowStats_le a clock)
    rw [flowStatsMembers, if_pos herr]
    exact .cons_bool (by decide) _ (.cons_decimal (by decide) _ (.cons_decimal (by decide) _
      (.cons_decimal (by decide) _ (.cons_decimal (by decide) _ (.cons_decimal (by decide) _
      (.cons_bool (by decide) _ (.cons_raw (by decide) _ hkvs)))))))

/-- `flow_list` without flows. -/
def hintPieces (hint : CStr) : List Piece :=
  [.sound (ascii "flows", .arr []), .sound (ascii "count", .num (decimal 0)),
   .raw (ascii "hint") hint]

theorem length_hintMembers (hint : CStr) :
    (object (hintMembers hint)).length = hint.length + 32 := by
  have hlen : (array []).length = 2 ∧ (decimal 0).length = 1 := by decide
  rw [hintMembers, length_object (List.cons_ne_nil _ _)]
  simp only [List.map_cons, List.map_nil, List.sum_cons, List.sum_nil, length_quoted, hlen,
    String.reduceToList, List.length_cons, List.length_nil]
  omega

theorem answers_hint_iff {hint : CStr} (h : hint.length < 1000) :
    (IpcReply.fields .flowList (hintMembers hint)).Answers (ascii IpcVerb.flowList.name) ↔
      Rejoined .flowList 0 (hintPieces hint) := by
  have hreads : Reads (array []) (.arr []) := reads_array .nil fun s hs ↦ absurd hs List.not_mem_nil
  have hclean : Clean (array []) := clean_array fun s hs ↦ absurd hs List.not_mem_nil
  refine answers_pieces_iff [] ?_ ?_
  · exact .cons_sound (by decide) hreads hclean (.cons_decimal (by decide) 0
      (.last_raw (by decide) hint))
  · rw [length_hintMembers]
    omega

theorem answers_disabled :
    (IpcReply.fields .flowList (hintMembers hintDisabled)).Answers
      (ascii IpcVerb.flowList.name) := by
  have hflows : Sound ("flows", array []) :=
    ⟨by decide, ⟨_, reads_array .nil fun s hs ↦ absurd hs List.not_mem_nil⟩,
      clean_array fun s hs ↦ absurd hs List.not_mem_nil⟩
  have hplain : Plain hintDisabled := by decide
  have hdash : ValidUtf8 hintDisabled := by
    rw [hintDisabled, List.append_assoc]
    refine (clean_of_printable (by decide)).1.append (ValidUtf8.append ?_ ?_)
    · exact ⟨['—'], by decide⟩
    · exact (clean_of_printable (by decide)).1
  refine IpcReply.answers_fields ?_ ?_
  · simp only [hintMembers, List.forall_mem_cons]
    exact ⟨hflows, sound_decimal (by decide) 0,
      sound_quoted (by decide) hplain ⟨hdash, fun b hb ↦ (hplain b hb).1⟩, List.forall_mem_nil _⟩
  · rw [length_hintMembers]
    decide

/-- A list of flows that takes up the byte of the newline is sent without one. -/
theorem answers_flows_iff {rows : List (List (String × CStr))}
    (h : ∀ ms ∈ rows, ∀ m ∈ ms, Sound m) (count : ℕ) :
    (IpcReply.flows rows count).Answers (ascii IpcVerb.flowList.name) ↔
      max (rowsSize rows) 1 + (decimal count).length ≠ 8135 := by
  have hopen : (okOpen .flowList).length = 35 := by decide
  have hlen : (okText .flowList (object [("flows", array (rows.map object)),
        ("count", decimal count)])).length
      = max (rowsSize rows) 1 + (decimal count).length + 56 := by
    rw [length_okText, hopen, length_object (List.cons_ne_nil _ _)]
    simp only [List.map_cons, List.map_nil, List.sum_cons, List.sum_nil, String.reduceToList,
      List.length_cons, List.length_nil, length_rows]
    omega
  obtain ⟨vs, hvs, -⟩ := reads_rows h
  have hsound : ∀ m ∈ [("flows", array (rows.map object)), ("count", decimal count)], Sound m := by
    have hname : Safe (ascii "flows") ∧ Safe (ascii "count") := by decide
    simp only [List.forall_mem_cons]
    exact ⟨⟨hname.1, ⟨_, hvs⟩, clean_rows h⟩, sound_decimal hname.2 count, List.forall_mem_nil _⟩
  have hmax : cpeIpcLineMax = 8192 := rfl
  have hbrace : (IpcReply.flows rows count).text = okOpen .flowList ++
      object [("flows", array (rows.map object)), ("count", decimal count)] ++ [125] := by
    rw [IpcReply.text, okText_eq, List.append_assoc]
  rw [IpcReply.answers_iff_length_ne rfl hbrace (tells_object .flowList hsound), IpcReply.text,
    hlen]
  omega

theorem answers_rows (verb : IpcVerb) {rows : List (List (String × CStr))}
    (h : ∀ ms ∈ rows, ∀ m ∈ ms, Sound m) :
    (IpcReply.rows verb rows).Answers (ascii verb.name) :=
  IpcReply.answers_of_room (by rw [IpcReply.room]; decide) (tells_rows verb h)

theorem answers_row (verb : IpcVerb) {ms : List (String × CStr)} (h : ∀ m ∈ ms, Sound m) :
    (IpcReply.row verb ms).Answers (ascii verb.name) :=
  IpcReply.answers_of_room (by rw [IpcReply.room]; decide) (tells_object verb h)

theorem answers_tcpByIp {a : CpeAgent} (h : a.tcp.snap.Worded) (ip : CStr) :
    (IpcState.tcpByIp a ip).Answers (ascii IpcVerb.tcpByIp.name) := by
  rw [IpcState.tcpByIp]
  split
  · cases hfind : a.tcpRemote ip with
    | none =>
      exact IpcReply.answers_value reads_null (clean_of_printable (by decide)) (by decide)
    | some r =>
      exact answers_row .tcpByIp (sound_remoteRow (h.remotes r (List.mem_of_find?_eq_some hfind)))
  · exact answers_rows .tcpByIp (sound_remoteRows h 64)

theorem answers_tcpByPrefix {a : CpeAgent} (h : a.tcp.snap.Worded) (pfx : CStr) :
    (IpcState.tcpByPrefix a pfx).Answers (ascii IpcVerb.tcpByPrefix.name) := by
  rw [IpcState.tcpByPrefix]
  split
  · cases hfind : a.tcpPrefix pfx with
    | none =>
      exact IpcReply.answers_value reads_null (clean_of_printable (by decide)) (by decide)
    | some x =>
      exact answers_row .tcpByPrefix
        (sound_prefixRow (h.prefixes x (List.mem_of_find?_eq_some hfind)))
  · exact answers_rows .tcpByPrefix (sound_prefixRows h 64)

theorem answers_help :
    (IpcReply.value .help (array (helpNames.map fun n ↦ quoted (ascii n)))).Answers
      (ascii IpcVerb.help.name) := by
  have hplain : ∀ n ∈ helpNames, Safe (ascii n) := by decide
  have hreads : ∀ names : List String, (∀ n ∈ names, Safe (ascii n)) →
      List.Forall₂ Reads (names.map fun n ↦ quoted (ascii n))
        (names.map fun n ↦ .str (ascii n)) := by
    intro names h
    induction names with
    | nil => exact .nil
    | cons n names ih =>
      exact .cons (reads_quoted (h n List.mem_cons_self).plain)
        (ih fun m hm ↦ h m (List.mem_cons_of_mem n hm))
  have hlen : (array (helpNames.map fun n ↦ quoted (ascii n))).length ≤ 8000 := by
    simp only [helpNames, List.map_cons, List.map_nil, array, elemList, List.length_append,
      List.length_cons, List.length_nil, length_quoted, length_ascii, String.reduceToList]
    decide
  refine IpcReply.answers_value (reads_array (hreads _ hplain) ?_) (clean_array ?_) hlen
  · intro s hs
    obtain ⟨n, -, rfl⟩ := List.mem_map.mp hs
    exact ⟨_, .inr rfl⟩
  · intro s hs
    obtain ⟨n, hn, rfl⟩ := List.mem_map.mp hs
    exact (clean_quoted_iff _).mpr (hplain n hn).clean

/-! ## Every request -/

namespace IpcState

/-- The strings the answer to a request for the operation prints as they are leave the reader where
it was; and a list of flows does not fill the line. -/
def RejoinedOf (env : IpcEnv) (s : IpcState) (req : CStr) : IpcVerb → Prop
  | .status => Rejoined .status 0 (statusPieces s.agent.cfg)
  | .config => Rejoined .config 0 (configPieces s.agent.cfg)
  | .lastSample => ∀ x ∈ s.last, x.Rejoined
  | .latency => ∀ x ∈ s.last, (object (latencyMembers s.agent.cfg (some x))).length < 256 →
      Rejoined .latency 0 (latencyPieces s.agent.cfg x)
  | .flowStats =>
    let a := (s.agent.flowTick env.flow).1
    let snap := a.flowSnapshot env.clock
    snap.openErr ≠ [] → Rejoined .flowStats 0 (flowStatsPieces a snap)
  | .flowList =>
    let snap := (s.agent.flowTick env.flow).1.flowSnapshot env.clock
    s.agent.cfg.flowAcctEnabled = true →
      if snap.openOk then
        max (rowsSize ((snap.flows.take (flowLimit req)).map flowRow)) 1 +
          (decimal snap.flows.length).length ≠ 8135
      else Rejoined .flowList 0 (hintPieces (hintClosed snap.openErr))
  | .ping | .help | .spool | .emit | .tcpPoll | .tcpStats | .flowTick | .tcpByIp | .tcpByPrefix
  | .tcpEmit | .tcpReset => True

theorem answers_flowList_iff {a : CpeAgent} (h : a.flow.Worded) (clock : Option WallClock)
    (limit : ℕ) :
    (flowList a (a.flowSnapshot clock) limit).Answers (ascii IpcVerb.flowList.name) ↔
      (a.cfg.flowAcctEnabled = true →
        if (a.flowSnapshot clock).openOk then
          max (rowsSize (((a.flowSnapshot clock).flows.take limit).map flowRow)) 1 +
            (decimal (a.flowSnapshot clock).flows.length).length ≠ 8135
        else Rejoined .flowList 0 (hintPieces (hintClosed (a.flowSnapshot clock).openErr))) := by
  rw [flowList]
  cases a.cfg.flowAcctEnabled with
  | false => exact iff_of_true answers_disabled fun h ↦ absurd h (by simp)
  | true =>
    rw [if_neg (by decide), imp_iff_right rfl]
    cases (a.flowSnapshot clock).openOk with
    | true =>
      rw [if_neg (by decide), if_pos rfl]
      exact answers_flows_iff (sound_flowRows h clock limit) _
    | false =>
      rw [if_pos (by decide), if_neg (by decide)]
      refine answers_hint_iff ?_
      have hlen := length_openErr_lt a clock
      have herr : (if (a.flowSnapshot clock).openErr ≠ [] then (a.flowSnapshot clock).openErr
          else ascii "unknown").length < 96 := by
        split
        · exact hlen
        · decide
      have hwords : (ascii "conntrack netlink open failed: ").length = 31 ∧
          (ascii " (need CAP_NET_ADMIN / root)").length = 28 := by decide
      rw [hintClosed, List.length_append, List.length_append, hwords.1, hwords.2]
      omega

theorem answers_serve_iff {s : IpcState} (hs : s.Sane) (hfiled : s.agent.tcp.snap.Filed)
    (hlegible : ∀ x ∈ s.last, x.Legible) (env : IpcEnv) (req : CStr) (verb : IpcVerb) :
    (s.serve env req verb).2.Answers (ascii verb.name) ↔ s.RejoinedOf env req verb := by
  have hticked : (s.agent.flowTick env.flow).1.Sane := hs.agent.flowTick env.flow
  cases verb with
  | ping =>
    exact iff_of_true (IpcReply.answers_value (reads_quoted (by decide))
      (clean_of_printable (by decide)) (by decide)) trivial
  | help => exact iff_of_true answers_help trivial
  | status => exact answers_status_iff hs.agent
  | config => exact answers_config_iff hs.agent
  | lastSample =>
    rw [serve, RejoinedOf]
    cases hlast : s.last with
    | none =>
      exact iff_of_true (IpcReply.answers_value reads_null (clean_of_printable (by decide))
        (by decide)) (by simp)
    | some x =>
      refine (answers_sample_iff (hs.last x hlast) (hlegible x hlast)).trans ?_
      simp
  | latency => exact answers_latency_iff hs
  | spool =>
    refine iff_of_true (IpcReply.answers_fields ?_ ?_) trivial
    · simp only [List.forall_mem_cons]
      exact ⟨sound_decimal (by decide) _, sound_decimal (by decide) _, List.forall_mem_nil _⟩
    · have hdepth := length_sizeText_le s.agent.spoolDepth
      have hdrops := length_sizeText_le s.agent.spoolDrops
      rw [length_object (List.cons_ne_nil _ _)]
      simp only [List.map_cons, List.map_nil, List.sum_cons, List.sum_nil, String.reduceToList,
        List.length_cons, List.length_nil]
      omega
  | emit | tcpPoll | flowTick | tcpEmit =>
    exact iff_of_true (answers_counted (by decide) (by decide) _) trivial
  | tcpStats => exact iff_of_true (answers_tcpStats hs.agent.tcp hfiled) trivial
  | flowStats => exact answers_flowStats_iff (s.agent.flowTick env.flow).1 env.clock
  | flowList =>
    have hiff := answers_flowList_iff hticked.flow env.clock (flowLimit req)
    rw [CpeAgent.flowTick_cfg] at hiff
    exact hiff
  | tcpByIp => exact iff_of_true (answers_tcpByIp hs.agent.tcp _) trivial
  | tcpByPrefix => exact iff_of_true (answers_tcpByPrefix hs.agent.tcp _) trivial
  | tcpReset =>
    exact iff_of_true (IpcReply.answers_value reads_true (clean_of_printable (by decide))
      (by decide)) trivial

/-- When the answer to a request is as it should be. An operation the handler does not know is
repeated as it is. -/
def Answerable (env : IpcEnv) (s : IpcState) (req : CStr) : Prop :=
  match IpcVerb.find (requestOp req) with
  | none => Plain (requestOp req) ∧ ValidUtf8 (requestOp req)
  | some verb => s.RejoinedOf env req verb

/-- The operation of a request, as errors name it. -/
def opName (req : CStr) : CStr := if requestOp req = [] then ascii "unknown" else requestOp req

/-- The handler fails: its answer does not fit. -/
def Fails (env : IpcEnv) (s : IpcState) (req : CStr) : Prop := (s.answer env req).2.render = none

theorem bounds_opName (req : CStr) : opName req ≠ [] ∧ (opName req).length < 48 := by
  rw [opName]
  split
  · exact ⟨by decide, by decide⟩
  · rename_i hop
    exact ⟨hop, length_requestOp_lt req⟩

theorem opName_of_find {req : CStr} {verb : IpcVerb}
    (h : IpcVerb.find (requestOp req) = some verb) : opName req = ascii verb.name := by
  have hname := IpcVerb.eq_name_of_find h
  have hne : requestOp req ≠ [] := by
    rw [hname]
    cases verb <;> decide
  rw [opName, if_neg hne, hname]

/-- An operation that is missing or not known is answered with an error. -/
theorem answer_of_find_none {req : CStr} (h : IpcVerb.find (requestOp req) = none) (env : IpcEnv)
    (s : IpcState) : ∃ msg, (Safe msg ∧ msg ≠ [] ∧ msg.length < 48) ∧
      s.answer env req = (s, .error (opName req) msg) := by
  rw [answer, opName]
  by_cases hop : requestOp req = []
  · rw [if_pos hop, if_pos hop]
    exact ⟨_, by decide, rfl⟩
  · rw [if_neg hop, if_neg hop, h]
    exact ⟨_, by decide, rfl⟩

/-- An error always fits, so that it is an operation the handler knows that fails. -/
theorem opName_of_fails {env : IpcEnv} {s : IpcState} {req : CStr} (h : s.Fails env req) :
    opName req ≠ ascii "unknown" := by
  cases hfind : IpcVerb.find (requestOp req) with
  | none =>
    obtain ⟨msg, ⟨-, hmsg⟩, hanswer⟩ := answer_of_find_none hfind env s
    rw [Fails, hanswer,
      IpcReply.render_of_length (IpcReply.length_error_lt (bounds_opName req) hmsg)] at h
    contradiction
  | some verb =>
    rw [opName_of_find hfind]
    cases verb <;> decide

theorem plain_opName_iff (req : CStr) : Plain (opName req) ∧ ValidUtf8 (opName req) ↔
    Plain (requestOp req) ∧ ValidUtf8 (requestOp req) := by
  rw [opName]
  split
  · rename_i hop
    have hsafe : Safe (ascii "unknown") := by decide
    rw [hop]
    exact iff_of_true ⟨hsafe.plain, hsafe.clean.1⟩ ⟨plain_nil, validUtf8_nil⟩
  · exact Iff.rfl

theorem answers_answer_iff {s : IpcState} (hs : s.Sane) (hfiled : s.agent.tcp.snap.Filed)
    (hlegible : ∀ x ∈ s.last, x.Legible) (env : IpcEnv) (req : CStr) :
    (s.answer env req).2.Answers (opName req) ↔ s.Answerable env req := by
  rw [Answerable]
  cases hfind : IpcVerb.find (requestOp req) with
  | none =>
    obtain ⟨msg, hmsg, hanswer⟩ := answer_of_find_none hfind env s
    rw [hanswer]
    exact (IpcReply.answers_error_iff (bounds_opName req) hmsg.1 hmsg.2.1 hmsg.2.2).trans
      (plain_opName_iff req)
  | some verb =>
    rw [answer_of_op (IpcVerb.eq_name_of_find hfind), opName_of_find hfind]
    exact answers_serve_iff hs hfiled hlegible env req verb

theorem answersWith_opName_iff {s : IpcState} (hs : s.Sane) (hfiled : s.agent.tcp.snap.Filed)
    (hlegible : ∀ x ∈ s.last, x.Legible) (env : IpcEnv) (req : CStr) :
    AnswersWith (s.answer env req).2.sent (opName req) ↔
      ¬ s.Fails env req ∧ s.Answerable env req := by
  rw [← answers_answer_iff hs hfiled hlegible, IpcReply.Answers]
  by_cases hfails : s.Fails env req
  · rw [IpcReply.sent_of_none hfails, answersWith_append_iff]
    refine iff_of_false (fun htells ↦ ?_) fun h ↦ h.1 hfails
    exact opName_of_fails hfails (htells.unique IpcReply.tells_handlerError)
  · have hrender : (s.answer env req).2.render ≠ none := hfails
    rw [and_iff_right hfails, imp_iff_right hrender]

/-- A complete line is handed to the handler, and its answer is sent before the rest is looked at. -/
theorem serveLines_answer (env : IpcEnv) (s : IpcState) (n fuel : ℕ) (sends : List Bool)
    {line : CStr} (hline : 10 ∉ line) (rest : CStr) :
    (serveLines (IpcState.handleRequest env) n (fuel + 1) sends s (line ++ 10 :: rest)).2.2.2
      = .request n (requestText line) ::
        .sent n (s.answer env (requestText line)).2.sent (sends.headD true) ::
          if sends.headD true then (serveLines (IpcState.handleRequest env) n fuel sends.tail
            (s.answer env (requestText line)).1 rest).2.2.2 else [.closed n] := by
  rw [serveLines, cutLine_append_cons hline rest]
  dsimp only
  cases sends.headD true <;> rfl

end IpcState

/-- In every run each request that arrives is answered once, before the next one is looked at. The
answer is one line, with one object on it that names the operation that was asked, exactly when the
handler does not fail and the strings it prints as they are leave the reader where it was; when it
fails, there is a line that says so. -/
theorem answered_hostRun (ops : List HostOp) (env : IpcEnv) (n fuel : ℕ) (sends : List Bool)
    {line : CStr} (rest : CStr) (hline : 10 ∉ line) :
    let s := IpcState.create.hostRun ops
    let req := requestText line
    ∃ bytes tr,
      (serveLines (IpcState.handleRequest env) n (fuel + 1) sends s (line ++ 10 :: rest)).2.2.2
        = .request n req :: .sent n bytes (sends.headD true) :: tr ∧
      (AnswersWith bytes (IpcState.opName req) ↔ ¬ s.Fails env req ∧ s.Answerable env req) ∧
      (s.Fails env req → AnswersWith bytes (ascii "unknown")) := by
  intro s req
  have hs : s.Sane := IpcState.sane_hostRun ops
  have hlegible : ∀ x ∈ s.last, x.Legible :=
    IpcState.last_hostRun (fun p cfg clock x hx ↦ Probe.legible_head hx) ops
  refine ⟨_, _, IpcState.serveLines_answer env s n fuel sends hline rest,
    IpcState.answersWith_opName_iff hs (IpcState.filed_hostRun ops) hlegible env req,
    fun hfails ↦ ?_⟩
  rw [IpcReply.sent_of_none hfails, answersWith_append_iff]
  exact IpcReply.tells_handlerError

/-- With one remote host seen and the defaults of the configuration, `status` is answered with a
line that says so. -/
theorem answered_status :
    let s := IpcState.create.hostRun (seenHosts 1)
    ∃ bytes, (serveLines (IpcState.handleRequest quietEnv) 0 1 [] s
        (bareRequest "status" ++ [10])).2.2.2.take 2
        = [.request 0 (bareRequest "status"), .sent 0 bytes true] ∧
      AnswersWith bytes (ascii "status") := by
  intro s
  have hreq : requestText (bareRequest "status") = bareRequest "status" := by decide
  have hasked : IpcState.opName (bareRequest "status") = ascii "status" := by decide
  have hfits : ¬ s.Fails quietEnv (bareRequest "status") := by
    rw [IpcState.Fails]
    decide +kernel
  have hplain : ∀ t ∈ rawStrings (statusPieces s.agent.cfg), Safe t := by decide +kernel
  have hline : 10 ∉ bareRequest "status" := by decide
  obtain ⟨bytes, tr, htrace, hiff, -⟩ :=
    answered_hostRun (seenHosts 1) quietEnv 0 0 [] [] hline
  rw [hreq, hasked] at hiff
  refine ⟨bytes, by rw [htrace, hreq]; rfl, hiff.mpr ⟨hfits, ?_⟩⟩
  have hfind : IpcVerb.find (requestOp (bareRequest "status")) = some .status := by decide
  rw [IpcState.Answerable, hfind]
  exact rejoined_of_plain .status fun t ht ↦ ⟨(hplain t ht).plain, (hplain t ht).clean.1⟩

end NetForensics

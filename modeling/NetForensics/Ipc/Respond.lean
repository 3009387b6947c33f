import NetForensics.Ipc.OneLine

/-!
# One well-formed line for a request

A response should be one line with one object on it, whose `op` is the operation of the request, or
`unknown`. What can go wrong is what is printed as it is: an operation the handler does not know,
and the strings of the configuration, of a sample and of an error in the data of an answer. The
operation of a known request comes before them, so that nothing behind it makes the line name
another; and an error of `service_client` names none.
-/

namespace NetForensics

open Json

/-- One line that names the operation, or `unknown`, and a newline. -/
def RespondsTo (bytes op : CStr) : Prop :=
  AnswersWith bytes op ∨ AnswersWith bytes (ascii "unknown")

/-! ## Errors -/

/-- In the quotes of an error the text is read as the string `unknown`, with other members behind
it, as far as the beginning of a string. -/
def PassesForUnknown (op : CStr) : Prop :=
  IsLine op ∧ ∃ kvs, readPieces ⟨[], []⟩ (errPieces op) = some ⟨kvs, []⟩ ∧
    membersOf (ascii "op") (.obj kvs) = [.str (ascii "unknown")]

theorem membersOf_concat_of_ne {name key : CStr} (h : key ≠ name) (kvs : List (CStr × Json))
    (v : Json) : membersOf name (.obj (kvs ++ [(key, v)])) = membersOf name (.obj kvs) := by
  rw [membersOf, membersOf, List.filter_append, List.map_append]
  simp [h]

theorem tells_unknown_iff (op : CStr) {msg : CStr} (hmsg : Safe msg) :
    Tells (errText op msg) (ascii "unknown") ↔ PassesForUnknown op := by
  have hname : ascii "error" ≠ ascii "op" := by decide
  rw [Tells, PassesForUnknown, isLine_errText_iff op hmsg]
  refine and_congr_right fun _ ↦ ⟨?_, ?_⟩
  · rintro ⟨ms, hparse, hmem⟩
    have hread := (composed_errText op hmsg).parse_flat_iff.mp hparse
    rw [readPieces_append] at hread
    obtain ⟨⟨kvs, around⟩, hpieces, hlast⟩ := Option.bind_eq_some_iff.mp hread
    obtain ⟨rfl, rfl⟩ := Between.mk.inj (Option.some_inj.mp hlast)
    rw [membersOf_concat_of_ne hname] at hmem
    exact ⟨kvs, hpieces, hmem⟩
  · rintro ⟨kvs, hpieces, hmem⟩
    refine ⟨kvs ++ [(ascii "error", .str msg)], ?_, ?_⟩
    · refine (composed_errText op hmsg).parse_flat_iff.mpr ?_
      rw [readPieces_append, hpieces]
      rfl
    · rw [membersOf_concat_of_ne hname, hmem]

/-! ## The operation of an answer -/

/-- The operation an answer is printed with. -/
def IpcReply.op : IpcReply → CStr
  | value verb _ | fields verb _ | row verb _ | rows verb _ => ascii verb.name
  | flows _ _ => ascii IpcVerb.flowList.name
  | error op _ => if op ≠ [] then op else ascii "unknown"

/-- Whatever the rest of an object is, its second member is there. -/
theorem eq_of_tells {s op x : CStr} {v : Json} (hok : Reads s v) (hop : Plain op)
    {m : String × CStr} (h : Tells (object [("ok", s), ("op", quoted op), m]) x) : x = op := by
  obtain ⟨-, ms, hparse, hmem⟩ := h
  have hpre : List.Forall₂ MemberReads [("ok", s), ("op", quoted op)]
      [(ascii "ok", v), (ascii "op", .str op)] :=
    .cons (memberReads (by decide) hok) (.cons (memberReads (by decide) (reads_quoted hop)) .nil)
  obtain ⟨rest, -, heq⟩ := (parse_object_append hpre (List.cons_ne_nil m [])).mp hparse
  have hkey : ∀ kv ∈ [(ascii "ok", v)], kv.1 ≠ ascii "op" :=
    List.forall_mem_singleton.mpr (by decide : ascii "ok" ≠ ascii "op")
  have hsplit : [(ascii "ok", v), (ascii "op", Json.str op)] ++ rest
      = [(ascii "ok", v)] ++ (ascii "op", .str op) :: rest := rfl
  rw [heq, hsplit, membersOf_append hkey, membersOf_cons_self] at hmem
  exact (Json.str.inj (List.cons.inj hmem).1).symm

theorem IpcReply.eq_op_of_tells {r : IpcReply} (hop : Plain r.op) {x : CStr}
    (h : Tells r.text x) : x = r.op := by
  cases r with
  | value verb data => exact eq_of_tells reads_true hop h
  | fields verb ms => exact eq_of_tells reads_true hop h
  | row verb ms => exact eq_of_tells reads_true hop h
  | rows verb rs => exact eq_of_tells reads_true hop h
  | flows rs count => exact eq_of_tells reads_true hop h
  | error op msg => exact eq_of_tells reads_false hop h

theorem IpcReply.text_eq_concat (r : IpcReply) : ∃ line, r.text = line ++ [125] := by
  cases r <;> exact ⟨_, rfl⟩

theorem IpcReply.eq_op_of_answersWith {r : IpcReply} (hrender : r.render ≠ none)
    (hop : Plain r.op) {x : CStr} (h : AnswersWith r.sent x) : x = r.op := by
  have hsome : r.render = some r.text := by
    rw [render_eq] at hrender ⊢
    exact fitText_of_lt (not_le.mp fun hle ↦ hrender (fitText_of_le hle))
  rw [sent, hsome, Option.getD_some, responseBytes] at h
  split at h
  · exact eq_op_of_tells hop (answersWith_append_iff.mp h)
  · obtain ⟨line, hline⟩ := r.text_eq_concat
    rw [hline] at h
    exact absurd h (not_answersWith_of_brace line x)

/-- An answer that is printed with another operation is not taken for an error that names none. -/
theorem IpcReply.respondsTo_iff {r : IpcReply} (hop : Plain r.op) (hne : r.op ≠ ascii "unknown") :
    RespondsTo r.sent r.op ↔ r.Answers r.op := by
  by_cases hrender : r.render = none
  · refine iff_of_true (Or.inr ?_) (answers_of_none hrender r.op)
    rw [sent_of_none hrender]
    exact answersWith_append_iff.mpr tells_handlerError
  · have hnot : ¬ AnswersWith r.sent (ascii "unknown") :=
      fun h ↦ hne (eq_op_of_answersWith hrender hop h).symm
    rw [RespondsTo, or_iff_left hnot, Answers]
    exact (imp_iff_right hrender).symm

/-! ## Every request -/

namespace IpcState

theorem op_counted (verb : IpcVerb) (field msg : String) (n : ℤ) :
    (counted verb field msg n).op = ascii verb.name := by
  rw [counted]
  split
  · exact if_pos (by cases verb <;> decide)
  · rfl

theorem op_flowList (a : CpeAgent) (snap : CpeFlowSnapshot) (limit : ℕ) :
    (flowList a snap limit).op = ascii IpcVerb.flowList.name := by
  rw [flowList]
  split
  · rfl
  · split <;> rfl

theorem op_serve (env : IpcEnv) (s : IpcState) (req : CStr) (verb : IpcVerb) :
    (s.serve env req verb).2.op = ascii verb.name := by
  cases verb with
  | ping | help | status | config | spool | tcpStats | flowStats | tcpReset => rfl
  | lastSample =>
    rw [serve]
    split <;> rfl
  | latency =>
    rw [serve, latency]
    split <;> rfl
  | emit | tcpPoll | flowTick | tcpEmit => exact op_counted _ _ _ _
  | flowList => exact op_flowList _ _ _
  | tcpByIp =>
    rw [serve, tcpByIp]
    split
    · split <;> rfl
    · rfl
  | tcpByPrefix =>
    rw [serve, tcpByPrefix]
    split
    · split <;> rfl
    · rfl

/-- When the response to a request is well formed: when the answer is as it should be, or when an
operation the handler does not know passes for `unknown`. -/
def Respondable (env : IpcEnv) (s : IpcState) (req : CStr) : Prop :=
  s.Answerable env req ∨
    IpcVerb.find (requestOp req) = none ∧ PassesForUnknown (requestOp req)

theorem respondsTo_of_find_none {env : IpcEnv} {s : IpcState} {req : CStr}
    (h : IpcVerb.find (requestOp req) = none) :
    RespondsTo (s.answer env req).2.sent (requestOp req) ↔
      Plain (requestOp req) ∧ ValidUtf8 (requestOp req) ∨ PassesForUnknown (requestOp req) := by
  obtain ⟨msg, ⟨hsafe, hmsg⟩, hanswer⟩ := answer_of_find_none h env s
  have hname := bounds_opName req
  have htext : (IpcReply.error (opName req) msg).text = errText (opName req) msg := by
    rw [IpcReply.text, if_pos hname.1, if_pos hmsg.1]
  rw [hanswer, IpcReply.sent_of_length (IpcReply.length_error_lt hname hmsg), htext, RespondsTo,
    answersWith_append_iff, answersWith_append_iff, opName]
  by_cases hop : requestOp req = []
  · have hunknown : Safe (ascii "unknown") := by decide
    rw [if_pos hop, hop]
    exact iff_of_true (Or.inr (tells_errText hunknown hsafe)) (Or.inl ⟨plain_nil, validUtf8_nil⟩)
  · rw [if_neg hop]
    exact or_congr (tells_errText_iff hsafe) (tells_unknown_iff _ hsafe)

theorem respondsTo_answer_iff {s : IpcState} (hs : s.Sane) (hfiled : s.agent.tcp.snap.Filed)
    (hlegible : ∀ x ∈ s.last, x.Legible) (env : IpcEnv) (req : CStr) :
    RespondsTo (s.answer env req).2.sent (requestOp req) ↔ s.Respondable env req := by
  rw [Respondable, Answerable]
  cases hfind : IpcVerb.find (requestOp req) with
  | none => exact (respondsTo_of_find_none hfind).trans (or_congr_right (and_iff_right rfl).symm)
  | some verb =>
    have hname := IpcVerb.eq_name_of_find hfind
    have hop := op_serve env s req verb
    have hplain : Plain (s.serve env req verb).2.op := hop ▸ (safe_verbName verb).plain
    have hknown : (s.serve env req verb).2.op ≠ ascii "unknown" := by
      rw [hop]
      cases verb <;> decide
    have hiff := IpcReply.respondsTo_iff hplain hknown
    rw [hop] at hiff
    rw [answer_of_op hname, hname, or_iff_left (by simp)]
    exact hiff.trans (answers_serve_iff hs hfiled hlegible env req verb)

end IpcState

/-- In every run each request that arrives is answered once, before the next one is looked at, and
what is sent for it is one well-formed line, which names the operation of the request or `unknown`,
exactly when the request can be responded to. -/
theorem responds_hostRun (ops : List HostOp) (env : IpcEnv) (n fuel : ℕ) (sends : List Bool)
    {line : CStr} (hline : 10 ∉ line) (rest : CStr) :
    let s := IpcState.create.hostRun ops
    let req := requestText line
    ∃ bytes,
      (serveLines (IpcState.handleRequest env) n (fuel + 1) sends s (line ++ 10 :: rest)).2.2.2
        = .request n req :: .sent n bytes (sends.headD true) ::
          (if sends.headD true then (serveLines (IpcState.handleRequest env) n fuel sends.tail
            (s.answer env req).1 rest).2.2.2 else [.closed n]) ∧
      (RespondsTo bytes (requestOp req) ↔ s.Respondable env req) := by
  intro s req
  have hlegible : ∀ x ∈ s.last, x.Legible :=
    IpcState.last_hostRun (fun p cfg clock x hx ↦ Probe.legible_head hx) ops
  exact ⟨_, IpcState.serveLines_answer env s n fuel sends hline rest,
    IpcState.respondsTo_answer_iff (IpcState.sane_hostRun ops) (IpcState.filed_hostRun ops) hlegible
      env req⟩

theorem responds_other_op :
    ∃ bytes, (serveLines (IpcState.handleRequest quietEnv) 0 1 [] (IpcState.create.hostRun [])
        (bareRequest "reboot" ++ [10])).2.2.2
        = [.request 0 (bareRequest "reboot"), .sent 0 bytes true] ∧
      RespondsTo bytes (ascii "reboot") := by
  have hreq : requestText (bareRequest "reboot") = bareRequest "reboot" := by decide
  have hop : requestOp (bareRequest "reboot") = ascii "reboot" := by decide
  have hfind : IpcVerb.find (ascii "reboot") = none := by decide
  have hsafe : Safe (ascii "reboot") := by decide
  obtain ⟨bytes, htrace, hiff⟩ := responds_hostRun [] quietEnv 0 0 []
    (by decide : 10 ∉ bareRequest "reboot") []
  rw [hreq] at htrace hiff
  rw [hop, IpcState.Respondable, IpcState.Answerable, hop, hfind] at hiff
  exact ⟨bytes, htrace, hiff.mpr (Or.inl ⟨hsafe.plain, hsafe.clean.1⟩)⟩

/-- A request whose operation has a quote in it, behind a backslash. -/
def quoteRequest : CStr := object [("op", quoted (ascii "a\\\"b"))]

/-- The quote is printed without the backslash, and the line is no object. -/
theorem not_responds_quote :
    (serveLines (IpcState.handleRequest quietEnv) 0 1 [] (IpcState.create.hostRun [])
        (quoteRequest ++ [10])).2.2.2
      = [.request 0 quoteRequest,
          .sent 0 (errText (ascii "a\"b") (ascii "unknown op") ++ [10]) true] ∧
      ¬ RespondsTo (errText (ascii "a\"b") (ascii "unknown op") ++ [10])
        (requestOp quoteRequest) := by
  have hnone : parse (errText (ascii "a\"b") (ascii "unknown op")) = none := by decide +kernel
  refine ⟨by decide +kernel, ?_⟩
  rintro (h | h) <;>
    · obtain ⟨-, ms, hparse, -⟩ := answersWith_append_iff.mp h
      exact absurd (hnone.symm.trans hparse) (by simp)

end NetForensics

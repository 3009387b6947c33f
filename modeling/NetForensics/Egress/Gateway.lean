import NetForensics.Egress.BasicAuth
import NetForensics.Egress.Url
import NetForensics.Query.Head

/-!
# The agent and the gateway stub

`gateway_stub_main.c` is the other end of a plain post. It reads once, prints what it has of the
body, and answers with success whatever it read; the agent reads once as well, and drops its batch
when what it read is a success. Between the two any prefix of the request may be what the stub has,
and any prefix of the answer what the agent has. A run interleaves pushes with posts whose bytes
arrive in any such way, and for each post the lines on the stub's output can be compared with the
lines that have left the ring.
-/

namespace NetForensics

/-! ## The stub -/

/-- The text is printed, and a line feed behind it if it does not end in one. -/
def endLine (text : CStr) : CStr :=
  if text ≠ [] ∧ text.getLast? ≠ some 10 then text ++ [10] else text

def gatewayPrint (buf : CStr) : CStr :=
  match strstr (crlf ++ crlf) buf with
  | none => []
  | some body => endLine (body.takeWhile (· ≠ 0))

/-- The answer. It is sent with a length of 48, from a literal of 46 characters and a terminator:
the last byte is the one that follows the literal in memory. -/
def gatewayReply (past : UInt8) : CStr :=
  ascii "HTTP/1.1 204 No Content\r\nConnection: close\r\n\r\n" ++ [0, past]

/-- One connection of the stub's loop: what it prints and what it sends. -/
def gatewayServe (past : UInt8) (buf : CStr) : CStr × CStr :=
  if buf = [] then ([], []) else (gatewayPrint buf, gatewayReply past)

/-! ## One post -/

/-- The bytes of a request that can have been sent: of a part whose `send` fails the last byte, at
least, is missing. -/
def PlainEnv.sent (env : PlainEnv) (c : PostCall) : CStr :=
  if env.connectErr.isSome ∨ 1536 ≤ c.header.length then []
  else if !env.sendHdr then c.header.dropLast
  else if !env.sendBody then c.header ++ c.body.dropLast
  else c.header ++ c.body

/-- What happens to one post on its way. -/
structure Hop where
  env : PlainEnv
  tls : TlsEnv
  /-- how many bytes of the request the stub's `recv` brings -/
  got : ℕ
  /-- how many bytes of the answer the agent's `recv` brings -/
  seen : ℕ
  /-- what follows the stub's literal in its memory -/
  past : UInt8

namespace Hop

/-- What the stub reads: its buffer has 8192 bytes. -/
def received (h : Hop) (c : PostCall) : CStr := (h.env.sent c).take (min h.got 8191)

def answer (h : Hop) (c : PostCall) : CStr := (gatewayServe h.past (h.received c)).2.take h.seen

def arrival (h : Hop) (c : PostCall) : Arrival where
  pieces := [h.answer c].filter (· ≠ [])
  ne_nil := fun _ hp ↦ of_decide_eq_true (List.mem_filter.mp hp).2

/-- What both transports meet when this request is posted. -/
def postEnv (h : Hop) (req : HttpRequest) : PostEnv :=
  match httpRoute req with
  | .ok (.plain, c) => ⟨h.env.answer (h.arrival c), h.tls⟩
  | _ => ⟨h.env, h.tls⟩

def emitEnv (h : Hop) : EmitEnv where
  post req := (cpeAgentHttpPost (h.postEnv req) req 160).toOption.isSome
  fopen := false
  sink := ⟨fun _ ↦ false, false, false⟩

end Hop

/-! ## Runs -/

/-- A step of the agent beside the stub. -/
inductive GatewayOp where
  | push (line : CStr)
  | post (hop : Hop)

def GatewayOp.toSpool : GatewayOp → SpoolOp
  | .push line => .push line
  | .post hop => .post hop.emitEnv.post

/-- One post over the plain transport, as both ends saw it. -/
structure Posted where
  lines : List CStr
  call : PostCall
  received : CStr
  answer : CStr
  /-- the lines have left the ring -/
  taken : Bool

def Posted.shown (p : Posted) : CStr := gatewayPrint p.received

/-- The stub has read the request, up to the line feed that ends it. -/
def Posted.Whole (p : Posted) : Prop :=
  p.call.header.length + p.call.body.length ≤ p.received.length + 1

def handedOn (posts : List Posted) : List CStr := (posts.filter Posted.taken).flatMap Posted.lines

def gatewayOutput (posts : List Posted) : CStr := posts.flatMap Posted.shown

namespace CpeAgent

def batch (a : CpeAgent) : List CStr :=
  a.spool.ring.contents.take (batchLoop a.spool.ring a.spool.ring.cnt 0 []).2

def gatewayStep (a : CpeAgent) : GatewayOp → CpeAgent × List Posted
  | .push line => ((a.spoolPushLine line).1, [])
  | .post hop =>
    let flushed := a.emitFlush hop.emitEnv
    (flushed.1,
      match a.emitRoute with
      | some (.plain, c) => [⟨a.batch, c, hop.received c, hop.answer c, 0 < flushed.2.1⟩]
      | _ => [])

def gatewayRun : CpeAgent → List GatewayOp → CpeAgent × List Posted
  | a, [] => (a, [])
  | a, op :: ops =>
    let rest := (a.gatewayStep op).1.gatewayRun ops
    (rest.1, (a.gatewayStep op).2 ++ rest.2)

end CpeAgent

def gatewayPushed (ops : List GatewayOp) : List CStr :=
  ops.filterMap fun
    | .push line => some (line.take 767)
    | .post _ => none

/-! ## The search for the body -/

/-- The lines of the header block; `auth` are those of the credentials. -/
def PostCall.headLines (c : PostCall) (auth : List CStr) : List CStr :=
  [ascii "POST " ++ c.path ++ ascii " HTTP/1.1", ascii "Host: " ++ c.host,
    ascii "Content-Type: application/x-ndjson",
    ascii "Content-Length: " ++ decimal c.body.length, ascii "Connection: close"] ++ auth

/-- No part of the request ends a line of its header block. -/
structure PostCall.Plain (c : PostCall) (auth : List CStr) : Prop where
  path : LineText c.path
  host : LineText c.host
  auth_ne : ∀ l ∈ auth, l ≠ []
  auth_text : ∀ l ∈ auth, LineText l
  authHdr : c.authHdr.getD [] = lineBytes auth

theorem lineText_append {s t : CStr} (hs : LineText s) (ht : LineText t) : LineText (s ++ t) :=
  fun b hb ↦ (List.mem_append.mp hb).elim (hs b) (ht b)

theorem lineText_decimal (n : ℕ) : LineText (decimal n) := by
  intro b hb
  obtain ⟨hlow, -⟩ := toNat_of_mem_decimal hb
  refine ⟨?_, ?_, ?_⟩ <;> rintro rfl <;> exact absurd hlow (by decide)

namespace PostCall.Plain

variable {c : PostCall} {auth : List CStr}

theorem headLines_ne (h : c.Plain auth) : ∀ l ∈ c.headLines auth, l ≠ [] := by
  intro l hl
  rcases List.mem_append.mp hl with hl | hl
  · simp only [List.mem_cons, List.not_mem_nil, or_false] at hl
    rcases hl with rfl | rfl | rfl | rfl | rfl
    · rw [List.append_assoc]
      exact List.append_ne_nil_of_left_ne_nil (by decide) _
    · exact List.append_ne_nil_of_left_ne_nil (by decide) _
    · decide
    · exact List.append_ne_nil_of_left_ne_nil (by decide) _
    · decide
  · exact h.auth_ne l hl

theorem headLines_text (h : c.Plain auth) : ∀ l ∈ c.headLines auth, LineText l := by
  have hfixed : ∀ s ∈ [ascii "POST ", ascii " HTTP/1.1", ascii "Host: ",
      ascii "Content-Type: application/x-ndjson", ascii "Content-Length: ",
      ascii "Connection: close"], LineText s := by
    simp only [LineText]
    decide
  intro l hl
  rcases List.mem_append.mp hl with hl | hl
  · simp only [List.mem_cons, List.not_mem_nil, or_false] at hl
    rcases hl with rfl | rfl | rfl | rfl | rfl
    · exact lineText_append (lineText_append (hfixed _ (by simp)) h.path) (hfixed _ (by simp))
    · exact lineText_append (hfixed _ (by simp)) h.host
    · exact hfixed _ (by simp)
    · exact lineText_append (hfixed _ (by simp)) (lineText_decimal _)
    · exact hfixed _ (by simp)
  · exact h.auth_text l hl

theorem header_eq (h : c.Plain auth) : c.header = lineBytes (c.headLines auth) ++ crlf := by
  have hcrlf : ascii "\r\n" = crlf := by decide
  have hpost : ascii " HTTP/1.1\r\nHost: " = ascii " HTTP/1.1" ++ (crlf ++ ascii "Host: ") := by
    decide
  have htype : ascii "\r\nContent-Type: application/x-ndjson\r\nContent-Length: "
      = crlf ++ (ascii "Content-Type: application/x-ndjson" ++ (crlf ++
        ascii "Content-Length: ")) := by decide
  have hclose : ascii "\r\nConnection: close\r\n"
      = crlf ++ (ascii "Connection: close" ++ crlf) := by
    decide
  rw [PostCall.header, h.authHdr, hcrlf, hpost, htype, hclose]
  simp only [PostCall.headLines, lineBytes, List.cons_append, List.nil_append, List.flatMap_cons,
    List.append_assoc]

theorem strstr_request (h : c.Plain auth) (body : CStr) :
    strstr (crlf ++ crlf) (c.header ++ body) = some body := by
  rw [h.header_eq, List.append_assoc]
  exact strstr_emptyLine (List.cons_ne_nil _ _) h.headLines_ne h.headLines_text body

/-- The search in a part of the request: it needs the whole header block. -/
theorem strstr_take (h : c.Plain auth) (body : CStr) (k : ℕ) :
    strstr (crlf ++ crlf) ((c.header ++ body).take k)
      = if c.header.length ≤ k then some (body.take (k - c.header.length)) else none := by
  split
  · rename_i hle
    rw [List.take_append, List.take_of_length_le hle, h.strstr_request]
  · rename_i hlt
    cases hfound : strstr (crlf ++ crlf) ((c.header ++ body).take k) with
    | none => rfl
    | some rest =>
      -- then the body would be longer than what is left of the request
      have hmore := strstr_append (t := (c.header ++ body).drop k) hfound
      rw [List.take_append_drop, h.strstr_request, Option.some_inj] at hmore
      have hlen := congrArg List.length hmore
      rw [List.length_append, List.length_drop, List.length_append] at hlen
      omega

end PostCall.Plain

/-! ## What is printed of a batch -/

/-- The first `m` bytes of the lines, again as lines: the last one may be cut. -/
def cutLines : ℕ → List CStr → List CStr
  | _, [] => []
  | 0, _ :: _ => []
  | m + 1, l :: ls => if m < l.length then [l.take (m + 1)] else l :: cutLines (m - l.length) ls

/-- A line the stub prints as it is. -/
structure Printable (line : CStr) : Prop where
  ne_nil : line ≠ []
  nul : 0 ∉ line
  lf : 10 ∉ line

variable {l : CStr} {ls : List CStr}

theorem Printable.take (h : Printable l) {k : ℕ} (hk : 0 < k) : Printable (l.take k) where
  ne_nil := by
    rw [Ne, List.take_eq_nil_iff, not_or]
    exact ⟨hk.ne', h.ne_nil⟩
  nul := fun hmem ↦ h.nul (List.mem_of_mem_take hmem)
  lf := fun hmem ↦ h.lf (List.mem_of_mem_take hmem)

theorem ndjson_cons (l : CStr) (ls : List CStr) : ndjson (l :: ls) = l ++ 10 :: ndjson ls := by
  rw [ndjson, List.flatMap_cons, List.append_assoc, ndjson]
  rfl

theorem endLine_of_lf_notMem (hne : l ≠ []) (hlf : 10 ∉ l) : endLine l = l ++ [10] := by
  refine if_pos ⟨hne, fun hlast ↦ hlf ?_⟩
  exact List.mem_of_getLast? hlast

theorem endLine_append (l t : CStr) : endLine (l ++ 10 :: t) = l ++ 10 :: endLine t := by
  have hne : l ++ 10 :: t ≠ [] := List.append_ne_nil_of_right_ne_nil _ (List.cons_ne_nil _ _)
  cases t with
  | nil =>
    have hlast : (l ++ [10]).getLast? = some 10 := by simp
    rw [endLine, if_neg (fun h ↦ h.2 hlast)]
    rfl
  | cons b t =>
    have hlast : (l ++ 10 :: b :: t).getLast? = (b :: t).getLast? := by
      rw [List.getLast?_append_cons, List.getLast?_cons_cons]
    rw [endLine, endLine, hlast]
    by_cases hlf : (b :: t).getLast? = some 10
    · rw [if_neg (fun h ↦ h.2 hlf), if_neg (fun h ↦ h.2 hlf)]
    · rw [if_pos ⟨hne, hlf⟩, if_pos ⟨List.cons_ne_nil _ _, hlf⟩, List.append_assoc]
      rfl

theorem nul_notMem_ndjson (h : ∀ l ∈ ls, Printable l) : 0 ∉ ndjson ls := by
  intro hmem
  obtain ⟨l, hl, hmem⟩ := List.mem_flatMap.mp hmem
  rcases List.mem_append.mp hmem with hmem | hmem
  · exact (h l hl).nul hmem
  · exact absurd (List.mem_singleton.mp hmem) (by decide)

theorem endLine_take_ndjson (h : ∀ l ∈ ls, Printable l) (m : ℕ) :
    endLine ((ndjson ls).take m) = ndjson (cutLines m ls) := by
  induction ls generalizing m with
  | nil =>
    rw [cutLines, ndjson, List.flatMap_nil, List.take_nil]
    rfl
  | cons l ls ih =>
    have hl := h l List.mem_cons_self
    cases m with
    | zero => rfl
    | succ m =>
      rw [ndjson_cons, cutLines]
      split
      · rename_i hlt
        have hcut := hl.take (Nat.succ_pos m)
        rw [List.take_append_of_le_length hlt, endLine_of_lf_notMem hcut.ne_nil hcut.lf,
          ndjson_singleton]
      · rename_i hge
        have htake : (l ++ 10 :: ndjson ls).take (m + 1)
            = l ++ 10 :: (ndjson ls).take (m - l.length) := by
          rw [List.take_append, List.take_of_length_le (by omega),
            show m + 1 - l.length = m - l.length + 1 by omega, List.take_succ_cons]
        rw [htake, endLine_append, ih (fun k hk ↦ h k (List.mem_cons_of_mem l hk)), ndjson_cons]

/-- All lines are printed if at most the last line feed is missing. -/
theorem endLine_take_ndjson_iff (h : ∀ l ∈ ls, Printable l) (m : ℕ) :
    endLine ((ndjson ls).take m) = ndjson ls ↔ (ndjson ls).length ≤ m + 1 := by
  constructor
  · intro heq
    have hlen := congrArg List.length heq
    have hcut : ((ndjson ls).take m).length ≤ m := by
      rw [List.length_take]
      exact min_le_left _ _
    rw [endLine] at hlen
    split at hlen
    · rw [List.length_append, List.length_singleton] at hlen
      omega
    · omega
  · induction ls generalizing m with
    | nil =>
      intro _
      rw [ndjson, List.flatMap_nil, List.take_nil]
      rfl
    | cons l ls ih =>
      intro hle
      have hl := h l List.mem_cons_self
      have hls := fun k hk ↦ h k (List.mem_cons_of_mem l hk)
      have hpos := List.length_pos_of_ne_nil hl.ne_nil
      rw [endLine_take_ndjson h]
      rw [ndjson_cons, List.length_append, List.length_cons] at hle
      cases m with
      | zero => omega
      | succ m =>
        rw [cutLines]
        split
        · rename_i hlt
          have hnil : ls = [] := by
            cases ls with
            | nil => rfl
            | cons k ls =>
              rw [ndjson_cons, List.length_append, List.length_cons] at hle
              omega
          rw [hnil, List.take_of_length_le (by omega)]
        · rw [ndjson_cons, ndjson_cons, ← endLine_take_ndjson hls, ih hls _ (by omega)]

/-! ## What a post carries -/

theorem lineText_of_parseUrl {url : CStr} {u : ParsedUrl} (htext : LineText url)
    (h : parseUrl url 256 16 512 = some u) : LineText u.host ∧ LineText u.path := by
  obtain ⟨parts, rfl⟩ := exists_parts_of_parseUrl h
  rw [parseUrl_text, Option.some_inj] at h
  subst h
  rw [UrlParts.text] at htext
  have hhost : ∀ b ∈ parts.host, b ∈ parts.authority := by
    intro b hb
    rw [UrlParts.authority]
    split
    · exact List.mem_append_left _ hb
    · exact hb
  refine ⟨fun b hb ↦ htext b (List.mem_append_right _ (List.mem_append_left _ (hhost b hb))), ?_⟩
  rw [UrlParts.parsed]
  dsimp only
  split
  · rw [LineText]
    decide
  · exact fun b hb ↦ htext b (List.mem_append_right _ (List.mem_append_right _ hb))

theorem plain_of_httpRoute {req : HttpRequest} {t : Transport} {c : PostCall}
    (htext : LineText req.url) (h : httpRoute req = .ok (t, c)) :
    c.body = req.body ∧ ∃ auth, c.Plain auth := by
  rw [httpRoute] at h
  cases hurl : parseUrl req.url 256 16 512 with
  | none =>
    rw [hurl] at h
    exact absurd h (by simp)
  | some u =>
    obtain ⟨hhost, hpath⟩ := lineText_of_parseUrl htext hurl
    have hnone : (⟨u.host, u.port, u.path, req.body, none⟩ : PostCall).Plain [] :=
      ⟨hpath, hhost, by simp, by simp, rfl⟩
    rw [hurl] at h
    dsimp only at h
    split at h
    · obtain ⟨-, rfl⟩ := Prod.mk.inj (Except.ok.inj h)
      exact ⟨rfl, [], hnone⟩
    · rename_i user _
      split at h
      · obtain ⟨-, rfl⟩ := Prod.mk.inj (Except.ok.inj h)
        exact ⟨rfl, [], hnone⟩
      · rename_i huser
        rw [buildBasicAuth_eq huser] at h
        by_cases hfits : user.length + 1 + req.opts.password.length ≤ 319
        · rw [if_pos hfits] at h
          obtain ⟨-, rfl⟩ := Prod.mk.inj (Except.ok.inj h)
          refine ⟨rfl, [ascii "Authorization: Basic " ++
            Base64.encode (user ++ 58 :: req.opts.password)], hpath, hhost, ?_, ?_, ?_⟩
          · intro l hl
            rw [List.mem_singleton.mp hl]
            exact List.append_ne_nil_of_left_ne_nil (by decide) _
          · intro l hl
            rw [List.mem_singleton.mp hl]
            refine lineText_append (by rw [LineText]; decide) fun b hb ↦ ?_
            have hlt := Base64.lt_of_mem_encode hb
            refine ⟨?_, ?_, ?_⟩ <;> rintro rfl <;> exact absurd hlt (by decide)
          · rw [lineBytes, List.flatMap_singleton]
            rfl
        · rw [if_neg hfits] at h
          exact absurd h (by simp)

/-- The two ends of one post. -/
structure Posted.Fits (p : Posted) : Prop where
  lines_ne : p.lines ≠ []
  printable : ∀ l ∈ p.lines, Printable l
  body : p.call.body = ndjson p.lines
  plain : ∃ auth, p.call.Plain auth
  received : p.received <+: p.call.header ++ p.call.body
  taken : p.taken = true → p.received ≠ [] ∧ 12 ≤ p.answer.length

namespace Posted.Fits

variable {p : Posted}

theorem shown_eq (h : p.Fits) :
    p.shown = endLine (p.call.body.take (p.received.length - p.call.header.length)) := by
  obtain ⟨auth, hplain⟩ := h.plain
  have hreceived := List.prefix_iff_eq_take.mp h.received
  rw [shown, gatewayPrint, hreceived, hplain.strstr_take, ← hreceived]
  split_ifs with hle
  · have hnul : 0 ∉ p.call.body.take (p.received.length - p.call.header.length) := fun hmem ↦
      nul_notMem_ndjson h.printable (h.body ▸ List.mem_of_mem_take hmem)
    dsimp only
    rw [List.takeWhile_eq_self_iff.mpr fun b hb ↦ decide_eq_true (ne_of_mem_of_not_mem hb hnul)]
  · rw [Nat.sub_eq_zero_of_le (by omega), List.take_zero]
    rfl

theorem shown_lines (h : p.Fits) :
    p.shown = ndjson (cutLines (p.received.length - p.call.header.length) p.lines) := by
  rw [h.shown_eq, h.body, endLine_take_ndjson h.printable]

theorem shown_iff (h : p.Fits) : p.shown = ndjson p.lines ↔ p.Whole := by
  obtain ⟨l, ls, hlines⟩ := List.exists_cons_of_ne_nil h.lines_ne
  have hpos : 2 ≤ (ndjson p.lines).length := by
    have hl := List.length_pos_of_ne_nil (h.printable l (hlines ▸ List.mem_cons_self)).ne_nil
    rw [hlines, ndjson_cons, List.length_append, List.length_cons]
    omega
  rw [h.shown_eq, h.body, endLine_take_ndjson_iff h.printable, Posted.Whole, h.body]
  omega

end Posted.Fits

theorem httpStatusOk_of_plainHttpPost {env : PlainEnv} {c : PostCall} {errLen : ℕ}
    (h : plainHttpPost env c errLen = .ok ()) : ∃ resp ∈ env.recv, httpStatusOk resp = true := by
  rw [plainHttpPost] at h
  split at h
  · exact absurd h (by simp)
  · split_ifs at h
    split at h
    · exact absurd h (by simp)
    · rename_i resp hrecv
      split_ifs at h with hok
      exact ⟨resp, hrecv, hok⟩

namespace Hop

variable (h : Hop) (c : PostCall)

theorem firstRead_arrival : (h.arrival c).firstRead = (h.answer c).take 511 := by
  rw [Arrival.firstRead, arrival]
  dsimp only
  by_cases hnil : h.answer c = []
  · rw [hnil]
    rfl
  · have hkeep : [h.answer c].filter (· ≠ []) = [h.answer c] := by simp [hnil]
    rw [hkeep, List.headD_cons]

theorem received_prefix : h.received c <+: c.header ++ c.body := by
  refine (List.take_prefix _ _).trans ?_
  rw [PlainEnv.sent]
  split_ifs
  · exact List.nil_prefix
  · exact (List.dropLast_prefix _).trans (List.prefix_append _ _)
  · exact (List.prefix_append_right_inj _).mpr (List.dropLast_prefix _)
  · exact List.prefix_rfl

theorem answered {env : PlainEnv} {errLen : ℕ}
    (hok : plainHttpPost (env.answer (h.arrival c)) c errLen = .ok ()) :
    h.received c ≠ [] ∧ 12 ≤ (h.answer c).length := by
  obtain ⟨resp, hrecv, hstatus⟩ := httpStatusOk_of_plainHttpPost hok
  have hlen := ((httpStatusOk_iff resp).mp hstatus).1
  have hresp : resp = (h.answer c).take 511 := by
    rw [← h.firstRead_arrival]
    rw [Option.mem_def, PlainEnv.answer, Arrival.recv] at hrecv
    split_ifs at hrecv
    exact (Option.some_inj.mp hrecv).symm
  rw [hresp, List.length_take] at hlen
  refine ⟨fun hnil ↦ ?_, by omega⟩
  have hanswer : h.answer c = [] := by
    rw [answer, hnil, gatewayServe, if_pos rfl, List.take_nil]
  rw [hanswer, List.length_nil] at hlen
  omega

end Hop

namespace CpeAgent

variable {a : CpeAgent}

theorem batchLoop_batch (a : CpeAgent) :
    batchLoop a.spool.ring a.spool.ring.cnt 0 []
      = (ndjson a.batch, batchSize 0 a.spool.ring.contents) := by
  have hloop := batchLoop_spec a.spool.ring a.spool.ring.cnt 0 (Nat.zero_add _) []
  rw [List.drop_zero, List.nil_append, List.length_nil, Nat.zero_add] at hloop
  rw [batch, hloop]

theorem batch_eq (a : CpeAgent) :
    a.batch = a.spool.ring.contents.take (batchSize 0 a.spool.ring.contents) := by
  rw [batch, batchLoop_batch]

theorem batch_ne_nil (hn : batchSize 0 a.spool.ring.contents ≠ 0) : a.batch ≠ [] := by
  have hle := batchSize_le 0 a.spool.ring.contents
  rw [batch_eq, Ne, List.take_eq_nil_iff, not_or]
  refine ⟨hn, fun hnil ↦ hn ?_⟩
  rw [hnil]
  rfl

theorem emitPost_batch (hmode : a.Posts) : a.emitPost =
    if a.spool.ring.cnt = 0 then none
    else if batchSize 0 a.spool.ring.contents = 0 then none
    else some (a.emitRequest (ndjson a.batch)) := by
  refine (if_pos hmode).trans ?_
  rw [batchLoop_batch]

theorem gatewayStep_fst (hmode : a.Posts) (op : GatewayOp) :
    (a.gatewayStep op).1 = (a.spoolStep op.toSpool).1 := by
  cases op with
  | push line => rfl
  | post hop =>
    have hflush : a.emitFlush hop.emitEnv = a.emitHttp hop.emitEnv.post := if_pos hmode
    exact congrArg Prod.fst hflush

/-- A post is not made at all, or both ends see the next batch. -/
theorem gatewayStep_snd (hmode : a.Posts) (hscheme : ascii "http://" <+: a.cfg.httpsUrl)
    (hop : Hop) :
    ((a.gatewayStep (.post hop)).2 = [] ∧ (a.spoolStep (.post hop.emitEnv.post)).2 = []) ∨
    ∃ c ok, httpRoute (a.emitRequest (ndjson a.batch)) = .ok (.plain, c) ∧ a.batch ≠ [] ∧
      (ok = true → plainHttpPost (hop.env.answer (hop.arrival c)) c 160 = .ok ()) ∧
      (a.gatewayStep (.post hop)).2 = [⟨a.batch, c, hop.received c, hop.answer c, ok⟩] ∧
      (a.spoolStep (.post hop.emitEnv.post)).2 = if ok then a.batch else [] := by
  have hflush : a.emitFlush hop.emitEnv = a.emitHttp hop.emitEnv.post := if_pos hmode
  rw [gatewayStep, spoolStep]
  dsimp only
  rw [hflush, emitRoute, emitPost_batch hmode, emitHttp, batchLoop_batch]
  dsimp only
  by_cases hcnt : a.spool.ring.cnt = 0
  · rw [if_pos hcnt, if_pos hcnt]
    exact .inl ⟨rfl, rfl⟩
  rw [if_neg hcnt, if_neg hcnt]
  by_cases hn : batchSize 0 a.spool.ring.contents = 0
  · rw [if_pos hn, if_pos hn]
    exact .inl ⟨rfl, rfl⟩
  rw [if_neg hn, if_neg hn, Option.bind_some]
  cases hroute : httpRoute (a.emitRequest (ndjson a.batch)) with
  | error err =>
    have hpost : hop.emitEnv.post (a.emitRequest (ndjson a.batch)) = false := by
      rw [Hop.emitEnv]
      dsimp only
      rw [cpeAgentHttpPost, hroute]
      rfl
    rw [hpost]
    exact .inl ⟨rfl, rfl⟩
  | ok route =>
    obtain ⟨t, c⟩ := route
    cases t with
    | tls =>
      obtain ⟨⟨u, hu, hkind⟩, -⟩ := (httpRoute_spec _ .tls).mp ⟨c, hroute⟩
      have hplain := (isHttps_of_parseUrl hu).2.mpr hscheme
      exact absurd (hkind.mpr rfl) (by simp [hplain])
    | plain =>
      refine .inr ⟨c, hop.emitEnv.post (a.emitRequest (ndjson a.batch)), rfl, batch_ne_nil hn,
        ?_, ?_, ?_⟩
      · rw [Hop.emitEnv]
        dsimp only
        rw [cpeAgentHttpPost, Hop.postEnv, hroute]
        dsimp only
        cases plainHttpPost (hop.env.answer (hop.arrival c)) c 160 with
        | error err => exact fun h ↦ absurd h Bool.false_ne_true
        | ok u => exact fun _ ↦ rfl
      · cases hop.emitEnv.post (a.emitRequest (ndjson a.batch)) with
        | false => rfl
        | true =>
          have hpos : 0 < batchSize 0 a.spool.ring.contents := Nat.pos_of_ne_zero hn
          simp [Except.toOption, hpos]
      · cases hop.emitEnv.post (a.emitRequest (ndjson a.batch)) with
        | false => rfl
        | true => rw [batch_eq]; rfl

/-! ## The run -/

theorem fits_gatewayStep (hmode : a.Posts) (hscheme : ascii "http://" <+: a.cfg.httpsUrl)
    (htext : LineText a.cfg.httpsUrl) (hlines : ∀ l ∈ a.spool.ring.contents, Printable l)
    (op : GatewayOp) : ∀ p ∈ (a.gatewayStep op).2, p.Fits := by
  cases op with
  | push line => exact fun p hp ↦ absurd hp (List.not_mem_nil)
  | post hop =>
    rcases gatewayStep_snd hmode hscheme hop with ⟨hnone, -⟩ | ⟨c, ok, hroute, hne, hok, hposts, -⟩
    · rw [hnone]
      exact fun p hp ↦ absurd hp (List.not_mem_nil)
    · intro p hp
      rw [hposts] at hp
      obtain rfl := List.mem_singleton.mp hp
      obtain ⟨hbody, hplain⟩ := plain_of_httpRoute htext hroute
      exact {
        lines_ne := hne
        printable := fun l hl ↦ hlines l (List.mem_of_mem_take (batch_eq a ▸ hl))
        body := hbody
        plain := hplain
        received := hop.received_prefix c
        taken := fun htaken ↦ hop.answered c (hok htaken) }

theorem handedOn_append (xs ys : List Posted) :
    handedOn (xs ++ ys) = handedOn xs ++ handedOn ys := by
  rw [handedOn, List.filter_append, List.flatMap_append, handedOn, handedOn]

theorem handedOn_gatewayStep (hmode : a.Posts) (hscheme : ascii "http://" <+: a.cfg.httpsUrl)
    (op : GatewayOp) : handedOn (a.gatewayStep op).2 = (a.spoolStep op.toSpool).2 := by
  cases op with
  | push line => rfl
  | post hop =>
    rw [GatewayOp.toSpool]
    rcases gatewayStep_snd hmode hscheme hop with ⟨hnone, hspool⟩ | ⟨c, ok, -, -, -, hposts, hspool⟩
    · rw [hnone, hspool]
      rfl
    · rw [hposts, hspool]
      cases ok with
      | false => rfl
      | true => exact List.append_nil _

theorem gatewayRun_spoolRun (hmode : a.Posts) (hscheme : ascii "http://" <+: a.cfg.httpsUrl)
    (ops : List GatewayOp) :
    (a.gatewayRun ops).1 = (a.spoolRun (ops.map GatewayOp.toSpool)).1 ∧
      handedOn (a.gatewayRun ops).2 = (a.spoolRun (ops.map GatewayOp.toSpool)).2 := by
  induction ops generalizing a with
  | nil => exact ⟨rfl, rfl⟩
  | cons op ops ih =>
    have hstep := gatewayStep_fst hmode op
    have hcfg : (a.spoolStep op.toSpool).1.cfg = a.cfg := spoolStep_cfg a op.toSpool
    obtain ⟨hrest, hhanded⟩ := ih (a := (a.spoolStep op.toSpool).1)
      (by rw [Posts, hcfg]; exact hmode) (by rw [hcfg]; exact hscheme)
    rw [gatewayRun, List.map_cons, spoolRun]
    dsimp only
    rw [handedOn_append, handedOn_gatewayStep hmode hscheme, hstep]
    exact ⟨hrest, by rw [hhanded]⟩

theorem mem_items_spoolSpec {cap : ℕ} {request : CStr → HttpRequest} {q : DropQueue CStr}
    {op : SpoolOp} {l : CStr} (h : l ∈ (spoolSpec cap request q op).1.items) :
    l ∈ q.items ∨ l ∈ pushedLines [op] := by
  cases op with
  | push line =>
    rw [spoolSpec, DropQueue.push] at h
    split at h
    · exact List.mem_append.mp h
    · exact (List.mem_append.mp h).imp_left List.mem_of_mem_tail
  | flush sink => exact .inl (List.mem_of_mem_drop h)
  | post accepts =>
    rw [spoolSpec] at h
    split at h
    · exact .inl (List.mem_of_mem_drop h)
    · exact .inl h

/-- Every line that is pushed is printed as it is. -/
def PushesPrintable (ops : List GatewayOp) : Prop := ∀ line, .push line ∈ ops → Printable line

theorem fits_gatewayRun {cap : ℕ} {q : DropQueue CStr} (h : a.Represents cap q) (hmode : a.Posts)
    (hscheme : ascii "http://" <+: a.cfg.httpsUrl) (htext : LineText a.cfg.httpsUrl)
    (hlines : ∀ l ∈ q.items, Printable l) {ops : List GatewayOp} (hops : PushesPrintable ops) :
    ∀ p ∈ (a.gatewayRun ops).2, p.Fits := by
  induction ops generalizing a q with
  | nil => exact fun p hp ↦ absurd hp (List.not_mem_nil)
  | cons op ops ih =>
    have hfits := fits_gatewayStep hmode hscheme htext (by rwa [h.holds.contents_eq]) op
    have hcfg : (a.spoolStep op.toSpool).1.cfg = a.cfg := spoolStep_cfg a op.toSpool
    have hlines' : ∀ l ∈ (spoolSpec cap a.emitRequest q op.toSpool).1.items, Printable l := by
      intro l hl
      rcases mem_items_spoolSpec hl with hl | hl
      · exact hlines l hl
      · cases op with
        | push line =>
          rw [List.mem_singleton.mp hl]
          exact (hops line List.mem_cons_self).take (by norm_num)
        | post hop => exact absurd hl (List.not_mem_nil)
    have hrest := ih (h.step op.toSpool).1 (by rw [Posts, hcfg]; exact hmode)
      (by rw [hcfg]; exact hscheme) (by rw [hcfg]; exact htext) hlines'
      fun line hl ↦ hops line (List.mem_cons_of_mem op hl)
    intro p hp
    rw [gatewayRun] at hp
    rcases List.mem_append.mp hp with hp | hp
    · exact hfits p hp
    · rw [gatewayStep_fst hmode] at hp
      exact hrest p hp

theorem pushedLines_toSpool (ops : List GatewayOp) :
    pushedLines (ops.map GatewayOp.toSpool) = gatewayPushed ops := by
  rw [pushedLines, gatewayPushed, List.filterMap_map]
  refine List.filterMap_congr fun op _ ↦ ?_
  cases op <;> rfl

end CpeAgent

/-! ## Lost and repeated lines -/

/-- Nothing is lost if the stub has the whole request of every batch that leaves the ring. -/
theorem output_of_whole {posts : List Posted} (hfits : ∀ p ∈ posts, p.Fits)
    (hwhole : ∀ p ∈ posts, p.taken = true → p.Whole) :
    ∃ printed, gatewayOutput posts = ndjson printed ∧ List.Sublist (handedOn posts) printed := by
  induction posts with
  | nil => exact ⟨[], rfl, List.Sublist.refl _⟩
  | cons p posts ih =>
    obtain ⟨printed, houtput, hsub⟩ := ih (fun p' hp ↦ hfits p' (List.mem_cons_of_mem p hp))
      fun p' hp ↦ hwhole p' (List.mem_cons_of_mem p hp)
    have hp := hfits p List.mem_cons_self
    have hout : gatewayOutput (p :: posts) = p.shown ++ gatewayOutput posts := List.flatMap_cons
    have hhanded : handedOn (p :: posts)
        = (if p.taken = true then p.lines else []) ++ handedOn posts := by
      cases htaken : p.taken <;> simp [handedOn, htaken]
    rw [hout, hhanded, houtput]
    cases htaken : p.taken with
    | true =>
      rw [if_pos rfl, hp.shown_iff.mpr (hwhole p List.mem_cons_self htaken), ← ndjson_append]
      exact ⟨_, rfl, (List.Sublist.refl _).append hsub⟩
    | false =>
      rw [if_neg Bool.false_ne_true, hp.shown_lines, ← ndjson_append]
      exact ⟨_, rfl, (List.nil_sublist _).append hsub⟩

/-- Nothing is repeated either if every batch leaves the ring. -/
theorem output_of_taken {posts : List Posted} (hfits : ∀ p ∈ posts, p.Fits)
    (hall : ∀ p ∈ posts, p.taken = true ∧ p.Whole) :
    gatewayOutput posts = ndjson (handedOn posts) := by
  have hhanded : handedOn posts = posts.flatMap Posted.lines := by
    rw [handedOn, List.filter_eq_self.mpr fun p hp ↦ (hall p hp).1]
  rw [hhanded, gatewayOutput, ndjson, List.flatMap_assoc]
  exact List.flatMap_congr fun p hp ↦ (hfits p hp).shown_iff.mpr (hall p hp).2

/-- In every run of pushes and posts to the stub, whatever part of a request it has read and
whatever part of its answer the agent has: what has left the ring and what is left are the pushed
lines that were not overwritten, each once and in order. A batch leaves only after an answer of at
least twelve bytes, whose request need not have been read to its end. What the stub prints are the
lines it has read, the last of them perhaps cut, and it prints the batch exactly if at most the last
byte of the request is missing. If that holds of every batch that leaves, every line is printed, in
order; if besides every batch leaves, just once. -/
theorem gatewayRun_delivers (a : CpeAgent) (cells : ℕ → CStr) (cap : ℕ) (hcap : 0 < cap)
    (hmem : a.spool.mem = true) (hring : a.spool.ring = ⟨cells, cap, 0, 0, 0⟩) (hmode : a.Posts)
    (hscheme : ascii "http://" <+: a.cfg.httpsUrl) (htext : LineText a.cfg.httpsUrl)
    (ops : List GatewayOp) (hops : CpeAgent.PushesPrintable ops) :
    let ring := (a.gatewayRun ops).1.spool
    let posts := (a.gatewayRun ops).2
    (List.Sublist (handedOn posts ++ ring.ring.contents) (gatewayPushed ops) ∧
      (gatewayPushed ops).length + a.spool.drops
        = (handedOn posts).length + ring.ring.contents.length + ring.drops) ∧
    (∀ p ∈ posts, (p.taken = true → p.received ≠ [] ∧ 12 ≤ p.answer.length) ∧
      p.shown = ndjson (cutLines (p.received.length - p.call.header.length) p.lines) ∧
      (p.shown = ndjson p.lines ↔ p.Whole)) ∧
    ((∀ p ∈ posts, p.taken = true → p.Whole) →
      ∃ printed, gatewayOutput posts = ndjson printed ∧ List.Sublist (handedOn posts) printed) ∧
    ((∀ p ∈ posts, p.taken = true ∧ p.Whole) → gatewayOutput posts = ndjson (handedOn posts)) := by
  intro ring posts
  have hstart : a.Represents cap ⟨[], a.spool.drops⟩ :=
    ⟨hmem, by rw [hring], hring ▸ Ring.holds_nil cells hcap, rfl⟩
  have hfits := CpeAgent.fits_gatewayRun hstart hmode hscheme htext (by simp) hops
  obtain ⟨hagent, hhanded⟩ := CpeAgent.gatewayRun_spoolRun hmode hscheme ops
  obtain ⟨hrep, hout⟩ := hstart.run (ops.map GatewayOp.toSpool)
  have hacc := accounts_spoolSpecRun hcap a.emitRequest
    (DropQueue.accounts_nil a.spool.drops) (ops.map GatewayOp.toSpool)
  rw [List.nil_append, List.nil_append, ← hout, ← hhanded, CpeAgent.pushedLines_toSpool] at hacc
  rw [← hagent] at hrep
  have hcontents : ring.ring.contents = _ := hrep.holds.contents_eq
  have hdrops : ring.drops = _ := hrep.drops_eq
  refine ⟨⟨?_, ?_⟩, fun p hp ↦ ⟨(hfits p hp).taken, (hfits p hp).shown_lines,
    (hfits p hp).shown_iff⟩, output_of_whole hfits, output_of_taken hfits⟩
  · rw [hcontents]
    exact hacc.sublist
  · rw [hcontents, hdrops]
    exact hacc.length_eq

def labAgent : CpeAgent :=
  { CpeAgent.create with cfg := { cpeAgentConfigDefaults with
      emitMode := ascii "http", httpsUrl := ascii "http://h/" } }

/-- The stub reads the start of the header block, and its answer arrives. -/
def cutHop : Hop := ⟨openPlain, openTls, 30, 48, 0⟩

theorem gatewayRun_delivers_nothing :
    handedOn (labAgent.gatewayRun [.push (ascii "line"), .post cutHop]).2 = [ascii "line"] ∧
      (labAgent.gatewayRun [.push (ascii "line"), .post cutHop]).1.spool.ring.contents = [] ∧
      gatewayOutput (labAgent.gatewayRun [.push (ascii "line"), .post cutHop]).2 = [] := by
  have hhanded : handedOn (labAgent.gatewayRun [.push (ascii "line"), .post cutHop]).2
      = [ascii "line"] := by decide +kernel
  have hrun := gatewayRun_delivers labAgent (fun _ ↦ []) 256 (by decide) rfl rfl
    (.inr (by decide)) (by decide) (by rw [LineText]; decide)
    [.push (ascii "line"), .post cutHop] (by
      intro line hline
      obtain rfl : line = ascii "line" := by simpa using hline
      exact ⟨by decide, by decide, by decide⟩)
  refine ⟨hhanded, ?_, by decide +kernel⟩
  have hsub := hrun.1.1.length_le
  rw [hhanded, List.length_append] at hsub
  exact List.length_eq_zero_iff.mp (by
    have hpushed : (gatewayPushed [.push (ascii "line"), .post cutHop]).length = 1 := rfl
    have hone : [ascii "line"].length = 1 := rfl
    omega)

end NetForensics

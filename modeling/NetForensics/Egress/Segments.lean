import NetForensics.Egress.Transport
import NetForensics.Spool.Batch

/-!
# The verdict about a response

Both transports read once and judge the response by what that read returned: with fewer than twelve
bytes it is no success. A stream may be cut anywhere, so whether a batch counts as delivered depends
on how the response arrives, and a batch the server has accepted may stay in the spool.
-/

namespace NetForensics

/-! ## Arriving in pieces -/

/-- A response as it arrives, each piece ready for one read. -/
structure Arrival where
  pieces : List CStr
  ne_nil : ∀ p ∈ pieces, p ≠ []

namespace Arrival

def response (s : Arrival) : CStr := s.pieces.flatten

/-- What the first read returns: `resp` has 512 bytes, and one of them is for the terminator. -/
def firstRead (s : Arrival) : CStr := (s.pieces.headD []).take 511

/-- `recv`, which returns nothing at the end of the stream. -/
def recv (s : Arrival) : Option CStr := if s.firstRead = [] then none else some s.firstRead

/-- `mbedtls_ssl_read` -/
def read (s : Arrival) : Except ℤ CStr := if s.firstRead = [] then .error 0 else .ok s.firstRead

theorem firstRead_prefix (s : Arrival) : s.firstRead <+: s.response := by
  rw [firstRead, response]
  cases s.pieces with
  | nil => exact List.nil_prefix
  | cons p pieces =>
    rw [List.headD_cons, List.flatten_cons]
    exact (List.take_prefix _ _).trans (List.prefix_append _ _)

end Arrival

/-- The server has accepted the request: HTTP/1.0 or 1.1, a space and a code that begins with 2. -/
def Accepted (resp : CStr) : Prop := ascii "HTTP/1.1 2" <+: resp ∨ ascii "HTTP/1.0 2" <+: resp

theorem prefix_concat_iff {p s : CStr} {b : UInt8} :
    p ++ [b] <+: s ↔ p <+: s ∧ s[p.length]? = some b := by
  constructor
  · rintro ⟨t, rfl⟩
    refine ⟨⟨b :: t, by rw [List.append_assoc, List.singleton_append]⟩, ?_⟩
    rw [List.append_assoc, List.getElem?_append_right le_rfl, Nat.sub_self]
    rfl
  · rintro ⟨⟨t, rfl⟩, hb⟩
    rw [List.getElem?_append_right le_rfl, Nat.sub_self] at hb
    obtain ⟨t', rfl⟩ : ∃ t', t = b :: t' := by
      cases t with
      | nil => exact nomatch hb
      | cons c t' => exact ⟨t', by rw [Option.some_inj.mp hb]⟩
    exact ⟨t', by rw [List.append_assoc, List.singleton_append]⟩

theorem httpStatusOk_iff (resp : CStr) :
    httpStatusOk resp = true ↔ 12 ≤ resp.length ∧ Accepted resp := by
  have hone : ascii "HTTP/1.1 2" = ascii "HTTP/1.1 " ++ [50] := by decide
  have hzero : ascii "HTTP/1.0 2" = ascii "HTTP/1.0 " ++ [50] := by decide
  have hone' : (ascii "HTTP/1.1 ").length = 9 := by decide
  have hzero' : (ascii "HTTP/1.0 ").length = 9 := by decide
  rw [Accepted, hone, hzero, prefix_concat_iff, prefix_concat_iff, hone', hzero', ← or_and_right]
  simp only [httpStatusOk, Bool.and_eq_true, Bool.or_eq_true, decide_eq_true_eq, beq_iff_eq]

/-- The verdict is right unless the first read was too short. -/
theorem httpStatusOk_firstRead_iff (s : Arrival) :
    httpStatusOk s.firstRead = true ↔ 12 ≤ s.firstRead.length ∧ Accepted s.response := by
  have hpre := s.firstRead_prefix
  have hpart : ∀ p : CStr, p.length = 10 → 12 ≤ s.firstRead.length →
      (p <+: s.firstRead ↔ p <+: s.response) := fun p hp hlen ↦
    ⟨fun h ↦ h.trans hpre, fun h ↦ List.prefix_of_prefix_length_le h hpre (by omega)⟩
  rw [httpStatusOk_iff]
  refine and_congr_right fun hlen ↦ ?_
  rw [Accepted, Accepted, hpart _ (by decide) hlen, hpart _ (by decide) hlen]

/-! ## The transports -/

/-- The request is sent completely, and the socket becomes readable. -/
structure PlainEnv.Sends (env : PlainEnv) (c : PostCall) : Prop where
  connected : env.connectErr = none
  header_lt : c.header.length < 1536
  sendHdr : env.sendHdr = true
  sendBody : env.sendBody = true
  poll : env.poll = true

/-- The request is sent completely. -/
structure TlsEnv.Sends (env : TlsEnv) (c : PostCall) (opts : CpeAgentHttpOpts) : Prop where
  built : env.built = true
  prepared : tlsPrepareErr env opts = none
  connected : env.connect = 0
  configured : env.configDefaults = 0
  ownCert : (clientCert opts).isSome = true → env.ownCert = true
  setup : env.setup = true
  setHostname : env.setHostname = true
  handshake : env.handshake (verifyMode opts) = 0
  header_lt : c.header.length < 1536
  writeHdr : 0 < env.writeHdr
  writeBody : c.body = [] ∨ 0 < env.writeBody

def PlainEnv.answer (env : PlainEnv) (s : Arrival) : PlainEnv := { env with recv := s.recv }

def TlsEnv.answer (env : TlsEnv) (s : Arrival) : TlsEnv := { env with read := s.read }

theorem plainHttpPost_answer {env : PlainEnv} {c : PostCall} (h : env.Sends c) (s : Arrival)
    (errLen : ℕ) :
    plainHttpPost (env.answer s) c errLen = .ok () ↔ httpStatusOk s.firstRead = true := by
  rw [plainHttpPost, PlainEnv.answer]
  dsimp only
  rw [h.connected]
  dsimp only
  rw [if_neg (Nat.not_le_of_lt h.header_lt), h.sendHdr, h.sendBody, h.poll, Arrival.recv]
  by_cases hnil : s.firstRead = []
  · rw [hnil]
    exact iff_of_false nofun (by decide)
  · rw [if_neg hnil]
    simp only [Bool.not_true, Bool.false_eq_true, if_false]
    cases httpStatusOk s.firstRead with
    | true => exact iff_of_true rfl rfl
    | false => exact iff_of_false nofun Bool.false_ne_true

theorem tlsExchange_answer {env : TlsEnv} {c : PostCall} {opts : CpeAgentHttpOpts}
    (h : env.Sends c opts) (s : Arrival) :
    tlsExchange (env.answer s) (verifyMode opts) c = .ok () ↔
      httpStatusOk s.firstRead = true := by
  have hbody : ¬ (c.body ≠ [] ∧ env.writeBody ≤ 0) := by
    rintro ⟨hne, hle⟩
    rcases h.writeBody with hnil | hpos
    · exact hne hnil
    · exact absurd hle (Int.not_le.mpr hpos)
  rw [tlsExchange, TlsEnv.answer]
  dsimp only
  rw [if_neg (not_not.mpr h.handshake), if_neg (Nat.not_le_of_lt h.header_lt),
    if_neg (Int.not_le.mpr h.writeHdr), if_neg hbody, Arrival.read]
  by_cases hnil : s.firstRead = []
  · rw [hnil]
    exact iff_of_false nofun (by decide)
  · rw [if_neg hnil]
    dsimp only
    cases httpStatusOk s.firstRead with
    | true => exact iff_of_true rfl rfl
    | false => exact iff_of_false nofun Bool.false_ne_true

/-- A TLS environment that sends the request gets as far as the exchange. -/
theorem mbedtlsHttpsPost_answer {env : TlsEnv} {c : PostCall} {opts : CpeAgentHttpOpts}
    (h : env.Sends c opts) (s : Arrival) :
    (mbedtlsHttpsPost (env.answer s) c opts).result = .ok () ↔
      httpStatusOk s.firstRead = true := by
  have hprepared : tlsPrepareErr (env.answer s) opts = none := h.prepared
  have hconnect : ¬ (env.answer s).connect ≠ 0 := not_not.mpr h.connected
  have hconfigured : ¬ (env.answer s).configDefaults ≠ 0 := not_not.mpr h.configured
  have hcert : ¬ ((clientCert opts).isSome = true ∧ (env.answer s).ownCert = false) := by
    rintro ⟨hsome, hfalse⟩
    exact Bool.noConfusion ((h.ownCert hsome).symm.trans hfalse)
  have hbuilt : (env.answer s).built = true := h.built
  have hsetup : (env.answer s).setup = true := h.setup
  have hhostname : (env.answer s).setHostname = true := h.setHostname
  rw [← tlsExchange_answer h s, mbedtlsHttpsPost, hbuilt, hprepared]
  dsimp only
  rw [if_neg hconnect, if_neg hconfigured, if_neg hcert, hsetup, hhostname]
  rfl

/-! ## The flush -/

/-- The transport the request is routed to sends it completely. -/
def PostEnv.Sends (env : PostEnv) (req : HttpRequest) : Prop :=
  (∃ c, httpRoute req = .ok (.plain, c) ∧ env.plain.Sends c) ∨
    ∃ c, httpRoute req = .ok (.tls, c) ∧ env.tls.Sends c req.opts

/-- The response that comes, over either transport. -/
def PostEnv.answer (env : PostEnv) (s : Arrival) : PostEnv := ⟨env.plain.answer s, env.tls.answer s⟩

theorem cpeAgentHttpPost_answer {env : PostEnv} {req : HttpRequest} (h : env.Sends req)
    (s : Arrival) (errLen : ℕ) :
    (cpeAgentHttpPost (env.answer s) req errLen).toOption.isSome = httpStatusOk s.firstRead := by
  have hunit : ∀ res : Except CStr Unit, res.toOption.isSome = true ↔ res = .ok () := by
    intro res
    cases res with
    | error err => exact iff_of_false Bool.false_ne_true (by simp)
    | ok u => exact iff_of_true rfl rfl
  rw [Bool.eq_iff_iff, hunit, cpeAgentHttpPost]
  rcases h with ⟨c, hroute, hsends⟩ | ⟨c, hroute, hsends⟩
  · rw [hroute]
    exact plainHttpPost_answer hsends s errLen
  · rw [hroute, ← mbedtlsHttpsPost_answer hsends s]
    have hmap : ∀ res : Except CStr Unit,
        res.mapError (copyStr errLen) = .ok () ↔ res = .ok () := by
      intro res
      cases res with
      | error err => exact iff_of_false (by simp [Except.mapError]) (by simp)
      | ok u => exact iff_of_true rfl rfl
    exact hmap _

namespace CpeAgent

theorem emitFlush_keeps_iff {a : CpeAgent} {req : HttpRequest} (h : a.emitPost = some req)
    (env : EmitEnv) :
    (a.emitFlush env).1.spool.ring.contents = a.spool.ring.contents ↔ env.post req = false := by
  have hmode : a.Posts := by
    by_contra hmode
    have hnone : a.emitPost = none := if_neg hmode
    exact absurd (hnone.symm.trans h) nofun
  obtain ⟨hcnt, hfits, rfl⟩ := (emitPost_eq_some_iff hmode).mp h
  have hbatch := batchLoop_spec a.spool.ring a.spool.ring.cnt 0 (Nat.zero_add _) []
  rw [List.drop_zero, List.nil_append, List.length_nil, Nat.zero_add] at hbatch
  have hpos : 0 < batchSize 0 a.spool.ring.contents := by
    have hne := (batchLoop_ne_zero_iff a.spool.ring hcnt).mpr hfits
    rw [hbatch] at hne
    exact Nat.pos_of_ne_zero hne
  have hle := batchSize_le 0 a.spool.ring.contents
  rw [emitFlush_eq hmode hcnt hpos, hbatch]
  dsimp only
  cases env.post (a.emitRequest
      (ndjson (a.spool.ring.contents.take (batchSize 0 a.spool.ring.contents)))) with
  | false => exact iff_of_true rfl rfl
  | true =>
    refine iff_of_false (fun hkeep ↦ ?_) Bool.noConfusion
    rw [if_pos rfl, Ring.contents_advance (by rwa [Ring.length_contents] at hle)] at hkeep
    have hlen := congrArg List.length hkeep
    rw [List.length_drop] at hlen
    omega

end CpeAgent

/-! ## When the verdict is right -/

/-- The verdict is right exactly when the response is no success, or its first read has the twelve
bytes that are asked for. -/
theorem verdict_iff (s : Arrival) {verdict : Prop}
    (h : verdict ↔ httpStatusOk s.firstRead = true) :
    (verdict ↔ Accepted s.response) ↔ ¬ Accepted s.response ∨ 12 ≤ s.firstRead.length := by
  rw [h, httpStatusOk_firstRead_iff, and_iff_right_iff_imp, imp_iff_not_or]

/-- Both transports, and the flush over them: the verdict does not depend on how the response is cut
exactly when it is no success or the first read brings twelve bytes of it. -/
theorem post_verdict_iff (s : Arrival) :
    (∀ (env : PlainEnv) (c : PostCall) (errLen : ℕ), env.Sends c →
      ((plainHttpPost (env.answer s) c errLen = .ok () ↔ Accepted s.response) ↔
        ¬ Accepted s.response ∨ 12 ≤ s.firstRead.length)) ∧
    (∀ (env : TlsEnv) (c : PostCall) (opts : CpeAgentHttpOpts), env.Sends c opts →
      (((mbedtlsHttpsPost (env.answer s) c opts).result = .ok () ↔ Accepted s.response) ↔
        ¬ Accepted s.response ∨ 12 ≤ s.firstRead.length)) ∧
    ∀ (a : CpeAgent) (req : HttpRequest) (env : PostEnv) (fopen : Bool) (sink : Sink),
      a.emitPost = some req → env.Sends req →
      (((a.emitFlush (CpeAgent.emitEnv (env.answer s) fopen sink)).1.spool.ring.contents
          ≠ a.spool.ring.contents ↔ Accepted s.response) ↔
        ¬ Accepted s.response ∨ 12 ≤ s.firstRead.length) := by
  refine ⟨fun env c errLen h ↦ verdict_iff s (plainHttpPost_answer h s errLen),
    fun env c opts h ↦ verdict_iff s (mbedtlsHttpsPost_answer h s), ?_⟩
  intro a req env fopen sink hpost hsends
  have hverdict : (CpeAgent.emitEnv (env.answer s) fopen sink).post req
      = httpStatusOk s.firstRead :=
    cpeAgentHttpPost_answer hsends s 160
  refine verdict_iff s ?_
  rw [Ne, CpeAgent.emitFlush_keeps_iff hpost, Bool.not_eq_false, hverdict]

/-- A plain environment in which the request is sent. -/
def openPlain : PlainEnv := ⟨none, true, true, true, none⟩

/-- A TLS environment in which the request is sent. -/
def openTls : TlsEnv :=
  ⟨true, 0, fun _ ↦ true, fun _ ↦ true, fun _ ↦ true, 0, 0, true, true, true, fun _ ↦ 0, 1, 1,
    .error 0⟩

def wholeResponse : Arrival := ⟨[ascii "HTTP/1.1 204 No Content"], by decide⟩

def cutResponse : Arrival := ⟨[ascii "HTTP/1.1", ascii " 204 No Content"], by decide⟩

def postCall : PostCall := ⟨ascii "h", ascii "80", ascii "/", ascii "line\n", none⟩

def plainOpts : CpeAgentHttpOpts := ⟨none, [], none, none, none, false⟩

theorem openPlain_sends : openPlain.Sends postCall := ⟨rfl, by decide, rfl, rfl, rfl⟩

theorem postingTo_sends : ∃ req, (CpeAgent.postingTo "http://h/").emitPost = some req ∧
    (⟨openPlain, openTls⟩ : PostEnv).Sends req :=
  ⟨_, rfl, Or.inl ⟨postCall, by decide, openPlain_sends⟩⟩

theorem post_verdict_wholeResponse :
    ((plainHttpPost (openPlain.answer wholeResponse) postCall 160 = .ok () ↔
        Accepted wholeResponse.response) ∧
      ((mbedtlsHttpsPost (openTls.answer wholeResponse) postCall plainOpts).result = .ok () ↔
        Accepted wholeResponse.response)) ∧
    ∀ fopen sink, (((CpeAgent.postingTo "http://h/").emitFlush (CpeAgent.emitEnv
        ((⟨openPlain, openTls⟩ : PostEnv).answer wholeResponse) fopen sink)).1.spool.ring.contents
        ≠ (CpeAgent.postingTo "http://h/").spool.ring.contents ↔
      Accepted wholeResponse.response) := by
  have hlen : 12 ≤ wholeResponse.firstRead.length := by decide
  obtain ⟨req, hpost, hsends⟩ := postingTo_sends
  have hverdict := post_verdict_iff wholeResponse
  exact ⟨⟨(hverdict.1 openPlain postCall 160 openPlain_sends).mpr (Or.inr hlen),
    (hverdict.2.1 openTls postCall plainOpts
      ⟨rfl, rfl, rfl, rfl, fun _ ↦ rfl, rfl, rfl, rfl, by decide, by decide,
        Or.inr (by decide)⟩).mpr (Or.inr hlen)⟩,
    fun fopen sink ↦ (hverdict.2.2 _ req _ fopen sink hpost hsends).mpr (Or.inr hlen)⟩

/-- The cut makes the plain transport fail, and the flush keeps a batch the server has taken. -/
theorem cutResponse_keeps_batch :
    Accepted cutResponse.response ∧
      plainHttpPost (openPlain.answer cutResponse) postCall 160 ≠ .ok () ∧
      (mbedtlsHttpsPost (openTls.answer cutResponse) postCall plainOpts).result ≠ .ok () ∧
      ∀ fopen sink, ((CpeAgent.postingTo "http://h/").emitFlush (CpeAgent.emitEnv
        ((⟨openPlain, openTls⟩ : PostEnv).answer cutResponse) fopen sink)).1.spool.ring.contents
          = (CpeAgent.postingTo "http://h/").spool.ring.contents := by
  have hverdict : httpStatusOk cutResponse.firstRead = false := by decide
  refine ⟨by rw [Accepted]; decide, ?_, ?_, fun fopen sink ↦ ?_⟩
  · rw [Ne, plainHttpPost_answer openPlain_sends, hverdict]
    exact Bool.false_ne_true
  · rw [Ne, mbedtlsHttpsPost_answer ⟨rfl, rfl, rfl, rfl, fun _ ↦ rfl, rfl, rfl, rfl, by decide,
      by decide, Or.inr (by decide)⟩, hverdict]
    exact Bool.false_ne_true
  · obtain ⟨req, hpost, hsends⟩ := postingTo_sends
    rw [CpeAgent.emitFlush_keeps_iff hpost, ← hverdict]
    exact cpeAgentHttpPost_answer hsends cutResponse 160

end NetForensics

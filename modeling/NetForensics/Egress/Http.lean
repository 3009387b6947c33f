import NetForensics.Agent.Spool
import NetForensics.Inet.Addr

/-!
# Posting over HTTP

`tls_egress.c`: the Basic `Authorization` header, the split of the URL, the request, and the two
transports. `cpe_agent_http_post` chooses between them by the scheme of the URL (`httpRoute`).

What the network and the TLS library answer is an input. The bytes a transport is given are part of
its call, so that statements about what is sent can refer to them.
-/

namespace NetForensics

/-! ## Basic authentication -/

/-- `b64_tbl` -/
def b64Tbl : CStr := ascii "ABCDEFGHIJKLMNOPQRSTUVWXYZabcdefghijklmnopqrstuvwxyz0123456789+/"

/-- The digit of weight `64 ^ k` of a group of three bytes. -/
def b64Digit (v k : ℕ) : UInt8 := b64Tbl.getD (v / 64 ^ k % 64) 0

/-- `b64_encode`, with `o` bytes written so far. -/
def b64Encode (outSz : ℕ) : ℕ → CStr → Option CStr
  | _, [] => some []
  | o, [x] =>
    if outSz ≤ o + 4 then none
    else
      let v := x.toNat * 2 ^ 16
      some [b64Digit v 3, b64Digit v 2, 61, 61]
  | o, [x, y] =>
    if outSz ≤ o + 4 then none
    else
      let v := x.toNat * 2 ^ 16 + y.toNat * 2 ^ 8
      some [b64Digit v 3, b64Digit v 2, b64Digit v 1, 61]
  | o, x :: y :: z :: rest =>
    if outSz ≤ o + 4 then none
    else
      let v := x.toNat * 2 ^ 16 + y.toNat * 2 ^ 8 + z.toNat
      (b64Encode outSz (o + 4) rest).map fun out ↦
        b64Digit v 3 :: b64Digit v 2 :: b64Digit v 1 :: b64Digit v 0 :: out

/-- `build_basic_auth` -/
def buildBasicAuth (user pass : CStr) (hdrSz : ℕ) : Option CStr :=
  if user = [] ∨ hdrSz < 16 then none
  else
    (fitText 320 (user ++ 58 :: pass)).bind fun raw ↦
      (b64Encode 440 0 raw).bind fun enc ↦
        fitText hdrSz (ascii "Authorization: Basic " ++ enc ++ ascii "\r\n")

/-! ## The URL -/

/-- What `parse_url` makes of a URL. -/
structure ParsedUrl where
  isHttps : Bool
  host : CStr
  port : CStr
  path : CStr
  deriving DecidableEq

/-- The scheme of a URL and what follows it. -/
def urlScheme (url : CStr) : Option (Bool × CStr) :=
  if ascii "https://" <+: url then some (true, url.drop 8)
  else if ascii "http://" <+: url then some (false, url.drop 7)
  else none

/-- The host and the port of an authority: a colon splits them. -/
def splitAuthority (isHttps : Bool) (authority : CStr) (hostSz portSz : ℕ) : Option (CStr × CStr) :=
  let host := authority.takeWhile (· ≠ 58)
  if host = [] ∨ hostSz ≤ host.length then none
  else if 58 ∈ authority then
    let port := (authority.dropWhile (· ≠ 58)).tail
    if port = [] ∨ portSz ≤ port.length then none else some (host, port)
  else some (host, copyStr portSz (if isHttps then ascii "443" else ascii "80"))

/-- `parse_url`: the authority goes up to the first slash. -/
def parseUrl (url : CStr) (hostSz portSz pathSz : ℕ) : Option ParsedUrl :=
  (urlScheme url).bind fun (isHttps, p) ↦
    (splitAuthority isHttps (p.takeWhile (· ≠ 47)) hostSz portSz).bind fun (host, port) ↦
      let path := p.dropWhile (· ≠ 47)
      if path = [] then some ⟨isHttps, host, port, copyStr pathSz [47]⟩
      else if pathSz ≤ path.length then none
      else some ⟨isHttps, host, port, path⟩

/-! ## The request -/

/-- The arguments of `plain_http_post` and `mbedtls_https_post`. -/
structure PostCall where
  host : CStr
  port : CStr
  path : CStr
  body : CStr
  authHdr : Option CStr
  deriving DecidableEq

def PostCall.header (c : PostCall) : CStr :=
  ascii "POST " ++ c.path ++ ascii " HTTP/1.1\r\nHost: " ++ c.host ++
    ascii "\r\nContent-Type: application/x-ndjson\r\nContent-Length: " ++ decimal c.body.length ++
    ascii "\r\nConnection: close\r\n" ++ c.authHdr.getD [] ++ ascii "\r\n"

/-- `http_status_ok` -/
def httpStatusOk (resp : CStr) : Bool :=
  decide (12 ≤ resp.length) &&
    ((decide (ascii "HTTP/1.1 " <+: resp) || decide (ascii "HTTP/1.0 " <+: resp)) &&
      resp[9]? == some 50)

/-- `%d` -/
def signedDecimal (n : ℤ) : CStr := if n < 0 then 45 :: decimal n.natAbs else decimal n.natAbs

/-! ## Plain HTTP -/

/-- Outcomes of the calls `plain_http_post` makes. -/
structure PlainEnv where
  /-- the message of a failed `tcp_connect` -/
  connectErr : Option CStr
  sendHdr : Bool
  sendBody : Bool
  poll : Bool
  /-- the first bytes of the response -/
  recv : Option CStr

/-- What follows the first occurrence of a pattern, as with `strstr`. -/
def afterFirst (pat : CStr) : CStr → Option CStr
  | [] => none
  | b :: s => if pat <+: b :: s then some ((b :: s).drop pat.length) else afterFirst pat s

def responseLine (s : CStr) : CStr := s.takeWhile fun b ↦ b ≠ 13 ∧ b ≠ 10

/-- The message about a response other than 2xx: its status line and the start of its body. -/
def statusErr (resp : CStr) (errLen : ℕ) : CStr :=
  let status := (responseLine resp).take (errLen - 1)
  let text := resp.takeWhile (· ≠ 0)
  let msg : CStr :=
    match (afterFirst [13, 10, 13, 10] text).orElse fun _ ↦ afterFirst [10, 10] text with
    | some (b :: s) =>
      if status.length + 3 < errLen then
        status ++ [32, 124, 32] ++ (responseLine (b :: s)).take (errLen - 1 - (status.length + 3))
      else status
    | _ => status
  if msg ≠ [] then msg else copyStr errLen (ascii "http non-2xx")

/-- `plain_http_post` -/
def plainHttpPost (env : PlainEnv) (c : PostCall) (errLen : ℕ) : Except CStr Unit :=
  match env.connectErr with
  | some err => .error (copyStr errLen err)
  | none =>
    if 1536 ≤ c.header.length then .error (copyStr errLen (ascii "hdr overflow"))
    else if !env.sendHdr then .error (copyStr errLen (ascii "send hdr failed"))
    else if !env.sendBody then .error (copyStr errLen (ascii "send body failed"))
    else if !env.poll then .error (copyStr errLen (ascii "response timeout"))
    else
      match env.recv with
      | none => .error (copyStr errLen (ascii "no response"))
      | some resp => if httpStatusOk resp then .ok () else .error (statusErr resp errLen)

/-! ## TLS -/

/-- `MBEDTLS_SSL_VERIFY_*` -/
inductive VerifyMode where
  | verifyNone | verifyOptional | verifyRequired
  deriving DecidableEq

/-- Outcomes of the calls `mbedtls_https_post` makes; zero is success where the library returns a
code that ends up in a message. -/
structure TlsEnv where
  /-- `CPE_AGENT_HAVE_MBEDTLS` -/
  built : Bool
  seed : ℤ
  parseCa : CStr → Bool
  parseCert : CStr → Bool
  parseKey : CStr → Bool
  connect : ℤ
  configDefaults : ℤ
  ownCert : Bool
  setup : Bool
  setHostname : Bool
  /-- the handshake, given how the peer is to be verified -/
  handshake : VerifyMode → ℤ
  writeHdr : ℤ
  writeBody : ℤ
  read : Except ℤ CStr

/-- How far a call of `mbedtls_https_post` got: whether it connected, how it set the verification of
the peer, and what it returned. -/
structure TlsOutcome where
  connected : Bool
  authmode : Option VerifyMode
  result : Except CStr Unit

/-- The choice of `mbedtls_ssl_conf_authmode`. -/
def verifyMode (opts : CpeAgentHttpOpts) : VerifyMode :=
  if opts.caFile.getD [] ≠ [] ∧ opts.tlsInsecure = false then .verifyRequired
  else if opts.caFile.getD [] ≠ [] then .verifyOptional
  else .verifyNone

/-- Client certificate and key, when both are given. -/
def clientCert (opts : CpeAgentHttpOpts) : Option (CStr × CStr) :=
  if opts.certFile.getD [] ≠ [] ∧ opts.keyFile.getD [] ≠ [] then
    some (opts.certFile.getD [], opts.keyFile.getD [])
  else none

/-- The error before the connection is made, if there is one. -/
def tlsPrepareErr (env : TlsEnv) (opts : CpeAgentHttpOpts) : Option CStr :=
  if env.seed ≠ 0 then some (ascii "ctr_drbg_seed " ++ signedDecimal env.seed)
  else if opts.caFile.getD [] ≠ [] ∧ env.parseCa (opts.caFile.getD []) = false then
    some (ascii "parse ca_file")
  else
    match clientCert opts with
    | none => none
    | some (cert, key) =>
      if env.parseCert cert = false then some (ascii "parse cert_file")
      else if env.parseKey key = false then some (ascii "parse key_file")
      else none

/-- From the handshake on. -/
def tlsExchange (env : TlsEnv) (mode : VerifyMode) (c : PostCall) : Except CStr Unit :=
  if env.handshake mode ≠ 0 then .error (ascii "handshake " ++ signedDecimal (env.handshake mode))
  else if 1536 ≤ c.header.length then .error (ascii "hdr overflow")
  else if env.writeHdr ≤ 0 then .error (ascii "write hdr " ++ signedDecimal env.writeHdr)
  else if c.body ≠ [] ∧ env.writeBody ≤ 0 then
    .error (ascii "write body " ++ signedDecimal env.writeBody)
  else
    match env.read with
    | .error code => .error (ascii "read " ++ signedDecimal code)
    | .ok resp => if httpStatusOk resp then .ok () else .error (ascii "http non-2xx")

/-- `mbedtls_https_post` -/
def mbedtlsHttpsPost (env : TlsEnv) (c : PostCall) (opts : CpeAgentHttpOpts) : TlsOutcome :=
  if !env.built then
    ⟨false, none, .error (ascii "HTTPS requires mbedTLS (CPE_AGENT_WITH_MBEDTLS)")⟩
  else
    match tlsPrepareErr env opts with
    | some err => ⟨false, none, .error err⟩
    | none =>
      if env.connect ≠ 0 then
        ⟨false, none, .error (ascii "connect " ++ signedDecimal env.connect)⟩
      else if env.configDefaults ≠ 0 then
        ⟨true, none, .error (ascii "ssl_config_defaults " ++ signedDecimal env.configDefaults)⟩
      else
        let mode := verifyMode opts
        if (clientCert opts).isSome ∧ env.ownCert = false then
          ⟨true, some mode, .error (ascii "own_cert")⟩
        else if !env.setup then ⟨true, some mode, .error (ascii "ssl_setup")⟩
        else if !env.setHostname then ⟨true, some mode, .error (ascii "set_hostname")⟩
        else ⟨true, some mode, tlsExchange env mode c⟩

/-! ## Choosing the transport -/

inductive Transport where
  | plain | tls
  deriving DecidableEq

/-- `cpe_agent_http_post` up to the call of a transport. -/
def httpRoute (req : HttpRequest) : Except CStr (Transport × PostCall) :=
  match parseUrl req.url 256 16 512 with
  | none => .error (ascii "bad url (need http:// or https://)")
  | some u =>
    let route := fun authHdr ↦
      (if u.isHttps then Transport.tls else Transport.plain,
        (⟨u.host, u.port, u.path, req.body, authHdr⟩ : PostCall))
    match req.opts.username with
    | none => .ok (route none)
    | some user =>
      if user = [] then .ok (route none)
      else
        match buildBasicAuth user req.opts.password 512 with
        | none => .error (ascii "basic auth encode failed")
        | some hdr => .ok (route (some hdr))

/-- The outcomes of both transports. -/
structure PostEnv where
  plain : PlainEnv
  tls : TlsEnv

/-- `cpe_agent_http_post` -/
def cpeAgentHttpPost (env : PostEnv) (req : HttpRequest) (errLen : ℕ) : Except CStr Unit :=
  match httpRoute req with
  | .error err => .error (copyStr errLen err)
  | .ok (.tls, c) => (mbedtlsHttpsPost env.tls c req.opts).result.mapError (copyStr errLen)
  | .ok (.plain, c) => plainHttpPost env.plain c errLen

/-! ## The post of a flush -/

namespace CpeAgent

/-- The request `cpe_agent_emit_flush` hands to `cpe_agent_http_post`, if it gets that far. -/
def emitPost (a : CpeAgent) : Option HttpRequest :=
  if a.cfg.emitMode = ascii "https" ∨ a.cfg.emitMode = ascii "http" then
    if a.spool.ring.cnt = 0 then none
    else
      let (body, n) := batchLoop a.spool.ring a.spool.ring.cnt 0 []
      if n = 0 then none else some (a.emitRequest body)
  else none

/-- The transport the flush reaches, and what it hands over. -/
def emitRoute (a : CpeAgent) : Option (Transport × PostCall) :=
  a.emitPost.bind fun req ↦ (httpRoute req).toOption

/-- The environment of a flush whose posts are made by `cpe_agent_http_post`. -/
def emitEnv (env : PostEnv) (fopen : Bool) (sink : Sink) : EmitEnv where
  post req := (cpeAgentHttpPost env req 160).toOption.isSome
  fopen := fopen
  sink := sink

/-- A flush asks for the outcome of that request and of no other. -/
theorem emitFlush_congr (a : CpeAgent) {env env' : EmitEnv} (hfopen : env.fopen = env'.fopen)
    (hsink : env.sink = env'.sink)
    (h : ∀ req, a.emitPost = some req → env.post req = env'.post req) :
    a.emitFlush env = a.emitFlush env' := by
  rw [emitFlush, emitFlush, hfopen, hsink]
  split
  · rename_i hmode
    rw [emitPost, if_pos hmode] at h
    rw [emitHttp, emitHttp]
    split
    · rfl
    · rename_i hcnt
      rw [if_neg hcnt] at h
      dsimp only at h ⊢
      split
      · rfl
      · rename_i hn
        rw [if_neg hn] at h
        rw [h _ rfl]
  · rfl

/-- The outcome of the plain transport counts only if the flush reaches it, and so does that of the
TLS transport. -/
theorem emitFlush_of_route (a : CpeAgent) (env env' : PostEnv) (fopen : Bool) (sink : Sink)
    (hplain : ∀ c, a.emitRoute = some (.plain, c) → env.plain = env'.plain)
    (htls : ∀ c, a.emitRoute = some (.tls, c) → env.tls = env'.tls) :
    a.emitFlush (emitEnv env fopen sink) = a.emitFlush (emitEnv env' fopen sink) := by
  refine a.emitFlush_congr rfl rfl fun req hreq ↦ ?_
  have hroute : a.emitRoute = (httpRoute req).toOption := by
    rw [emitRoute, hreq, Option.bind_some]
  simp only [emitEnv, cpeAgentHttpPost]
  cases hr : httpRoute req with
  | error err => rfl
  | ok r =>
    obtain ⟨t, c⟩ := r
    rw [hr] at hroute
    cases t with
    | plain => rw [hplain c hroute]
    | tls => rw [htls c hroute]

end CpeAgent

end NetForensics

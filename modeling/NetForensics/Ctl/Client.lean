import NetForensics.Ctl.Answer
import NetForensics.Ctl.Request
import NetForensics.Ipc.Serial

/-!
# From the command to the answer

`cpe_ctl` with an operation makes one connection, sends one request and prints what comes back.
Other clients are served meanwhile, and between two requests anything can happen to the agent. What
is printed is the answer of the agent in the state in which it was given the request, exactly if
that answer is one line. An answer with a newline inside may be cut off there, if it comes in
pieces.
-/

namespace NetForensics

/-! ## One call -/

/-- What the calls of a client come to; an error comes with its text, and `send` with the number of
bytes it took. -/
structure ClientEnv where
  socket : Option CStr
  connect : Option CStr
  send : Except CStr ℕ
  recv : List (Except CStr CStr)

/-- The receive loop, for a buffer of the given size. The peer's end of the stream is the empty
text. -/
def clientRecv (size : ℕ) : CStr → List (Except CStr CStr) → Except CStr CStr
  | got, [] => .ok got
  | got, r :: rs =>
    if got.length + 1 < size then
      match r with
      | .error e => .error e
      | .ok chunk =>
        if chunk = [] then .ok got
        else
          let got := got ++ chunk.take (size - got.length - 1)
          if 10 ∈ got then .ok got else clientRecv size got rs
    else .ok got

/-- What a call sends and what it returns: the response, or the message. -/
structure ClientCall where
  wire : CStr
  result : Except CStr CStr

/-- `cpe_ipc_client_request` -/
def cpeIpcClientRequest (env : ClientEnv) (sockPath req : CStr) (respSz errLen : ℕ) : ClientCall :=
  let path := if sockPath ≠ [] then sockPath else cpeIpcSockDefault
  let fail (wire msg : CStr) : ClientCall := ⟨wire, .error (copyStr errLen msg)⟩
  if respSz < 8 then fail [] (ascii "bad args")
  else
    match env.socket with
    | some e => fail [] (ascii "socket: " ++ e)
    | none =>
      if 108 ≤ path.length then fail [] (ascii "socket path too long")
      else
        match env.connect with
        | some e =>
          fail [] (ascii "connect " ++ path ++ ascii ": " ++ e ++ ascii " (is cpe_agent running?)")
        | none =>
          if cpeIpcLineMax < req.length + 2 then fail [] (ascii "request too long")
          else
            match env.send with
            | .error e => fail [] (ascii "send: " ++ e)
            | .ok sent =>
              let wire := (clientLine req).take sent
              match clientRecv respSz [] env.recv with
              | .error e => fail wire (ascii "recv: " ++ e)
              | .ok got =>
                let got := (got.reverse.dropWhile fun b ↦ b == 10 || b == 13).reverse
                if got = [] then fail wire (ascii "empty response")
                else ⟨wire, .ok (got.takeWhile (· ≠ 0))⟩

/-- `oneshot_daemon`: what is printed, or what is printed as an error. -/
def oneshotDaemon (env : ClientEnv) (sock op arg : CStr) (limit : UInt32) : Except CStr CStr :=
  match oneshotRequest op arg limit with
  | none => .error (ascii "unknown op: " ++ op ++ [10])
  | some req =>
    match (cpeIpcClientRequest env sock req cpeIpcLineMax 160).result with
    | .error e =>
      .error (ascii "cpe_ctl: " ++ (if e ≠ [] then e else ascii "request failed") ++ [10])
    | .ok resp => .ok (resp ++ [10])

/-! ## What comes back -/

theorem clientRecv_ok (got : CStr) (chunks : List CStr) :
    clientRecv cpeIpcLineMax got (chunks.map .ok) = .ok (recvLoop got chunks) := by
  induction chunks generalizing got with
  | nil => rfl
  | cons chunk chunks ih =>
    rw [List.map_cons, clientRecv, recvLoop]
    dsimp only
    by_cases hroom : got.length + 1 < cpeIpcLineMax
    · by_cases hnil : chunk = []
      · rw [if_pos hroom, if_pos hnil, if_neg fun h ↦ h.1 hnil]
      · have hmore : chunk ≠ [] ∧ got.length + 1 < cpeIpcLineMax := ⟨hnil, hroom⟩
        rw [if_pos hroom, if_neg hnil, if_pos hmore]
        by_cases hline : 10 ∈ got ++ chunk.take (cpeIpcLineMax - got.length - 1)
        · rw [if_pos hline, if_pos hline]
        · rw [if_neg hline, if_neg hline]
          exact ih _
    · rw [if_neg hroom, if_neg fun h ↦ hroom h.2]

/-- A connection is made, and the whole line is sent. -/
structure ClientEnv.Sends (env : ClientEnv) (sock req : CStr) : Prop where
  socket : env.socket = none
  connect : env.connect = none
  path : (if sock ≠ [] then sock else cpeIpcSockDefault).length < 108
  fits : req.length + 2 ≤ cpeIpcLineMax
  send : env.send = .ok (clientLine req).length

def ClientEnv.receives (env : ClientEnv) (chunks : List CStr) : ClientEnv :=
  { env with recv := chunks.map .ok }

theorem cpeIpcClientRequest_receives {env : ClientEnv} {sock req : CStr} (h : env.Sends sock req)
    (chunks : List CStr) (errLen : ℕ) :
    cpeIpcClientRequest (env.receives chunks) sock req cpeIpcLineMax errLen
      = ⟨clientLine req,
          if ((recvLoop [] chunks).reverse.dropWhile fun b ↦ b == 10 || b == 13).reverse = [] then
            .error (copyStr errLen (ascii "empty response"))
          else .ok (clientResponse chunks)⟩ := by
  obtain ⟨hsocket, hconnect, hpath, hfits, hsend⟩ := h
  have hfields : (env.receives chunks).socket = none ∧ (env.receives chunks).connect = none ∧
      (env.receives chunks).send = .ok (clientLine req).length := ⟨hsocket, hconnect, hsend⟩
  rw [cpeIpcClientRequest]
  dsimp only
  rw [if_neg (by decide), hfields.1]
  dsimp only
  rw [if_neg (by omega), hfields.2.1]
  dsimp only
  rw [if_neg (by omega), hfields.2.2]
  dsimp only
  rw [List.take_length, ClientEnv.receives, clientRecv_ok]
  dsimp only
  split <;> rfl

/-- A response that ends in a brace is returned, in whatever pieces it comes, exactly if it is one
line. -/
theorem returns_iff {env : ClientEnv} {sock req : CStr} (h : env.Sends sock req) (errLen : ℕ)
    {text : CStr} (hlen : text.length < cpeIpcLineMax) (hlast : text.getLast? = some 125) :
    (∀ chunks, ArrivesAs (responseBytes text) chunks →
      (cpeIpcClientRequest (env.receives chunks) sock req cpeIpcLineMax errLen).result = .ok text) ↔
      OneLine text := by
  constructor
  · intro hall
    obtain ⟨chunks, harrives, hline⟩ := exists_clientResponse (length_responseBytes hlen)
    have hresult := hall chunks harrives
    rw [cpeIpcClientRequest_receives h] at hresult
    dsimp only at hresult
    split at hresult
    · exact absurd hresult (by simp)
    · exact Except.ok.inj hresult ▸ hline
  · intro hline chunks harrives
    have hresp := clientResponse_eq hlen hline hlast harrives
    rw [cpeIpcClientRequest_receives h]
    dsimp only
    rw [hresp, if_neg]
    intro hnil
    rw [clientResponse, hnil] at hresp
    rw [← hresp] at hlast
    exact absurd hlast (by simp)

/-! ## What answers -/

/-- What happens to the agent before each request, and what the calls of the request come to. -/
abbrev HostScript := ℕ → List HostOp × IpcEnv

/-- The request handler, with the agent between requests. -/
def hostHandler : IpcHandler (IpcState × HostScript) := fun s req ↦
  let r := (s.1.hostRun (s.2 0).1).handleRequest (s.2 0).2 req
  ((r.1, fun i ↦ s.2 (i + 1)), r.2)

theorem hostRun_append (s : IpcState) (ops ops' : List HostOp) :
    s.hostRun (ops ++ ops') = (s.hostRun ops).hostRun ops' := List.foldl_append

/-- Requests are part of the history of the agent. -/
theorem exists_hostRun (ops : List HostOp) (script : HostScript) (reqs : List (ℕ × CStr)) :
    ∃ ops', (serialRun hostHandler (IpcState.create.hostRun ops, script) reqs).1.1
      = IpcState.create.hostRun ops' := by
  induction reqs generalizing ops script with
  | nil => exact ⟨ops, rfl⟩
  | cons r reqs ih =>
    obtain ⟨n, req⟩ := r
    have hstep : (hostHandler (IpcState.create.hostRun ops, script) req).1.1
        = IpcState.create.hostRun (ops ++ (script 0).1 ++ [.request (script 0).2 req]) := by
      rw [hostRun_append, hostRun_append]
      rfl
    rw [serialRun_cons]
    have hstate : (hostHandler (IpcState.create.hostRun ops, script) req).1
        = (IpcState.create.hostRun (ops ++ (script 0).1 ++ [.request (script 0).2 req]),
          fun i ↦ script (i + 1)) := Prod.ext hstep rfl
    rw [hstate]
    exact ih _ _

/-- What the daemon sends to a request, without the newline. -/
def IpcState.response (s : IpcState) (env : IpcEnv) (req : CStr) : CStr :=
  (s.handleRequest env req).2.getD handlerError

theorem IpcReply.text_getLast (r : IpcReply) : r.text.getLast? = some 125 := by
  have hobject : ∀ ms, (object ms).getLast? = some 125 := fun ms ↦ by
    rw [object, List.getLast?_concat]
  cases r <;> exact hobject _

theorem IpcState.response_spec (s : IpcState) (env : IpcEnv) (req : CStr) :
    (s.response env req).length < cpeIpcLineMax ∧ (s.response env req).getLast? = some 125 := by
  have hroom : ∀ r : IpcReply, r.room < cpeIpcLineMax := by
    intro r
    have hmax : cpeIpcLineMax = 8192 := rfl
    cases r <;> rw [IpcReply.room] <;> omega
  rw [response, handleRequest]
  dsimp only
  rw [IpcReply.render_eq]
  by_cases hfit : (s.answer env req).2.text.length < (s.answer env req).2.room + 1
  · rw [fitText_of_lt hfit, Option.getD_some]
    exact ⟨by have := hroom (s.answer env req).2; omega, IpcReply.text_getLast _⟩
  · rw [fitText_of_le (not_lt.mp hfit), Option.getD_none]
    exact ⟨by decide, by decide⟩

/-! ## Command and answer -/

theorem oneshotDaemon_eq_ok_iff {env : ClientEnv} {sock op arg req text : CStr} {limit : UInt32}
    (h : oneshotRequest op arg limit = some req) :
    oneshotDaemon env sock op arg limit = .ok (text ++ [10]) ↔
      (cpeIpcClientRequest env sock req cpeIpcLineMax 160).result = .ok text := by
  rw [oneshotDaemon, h]
  dsimp only
  cases (cpeIpcClientRequest env sock req cpeIpcLineMax 160).result with
  | error e => exact iff_of_false (by simp) (by simp)
  | ok resp => simp

/-- `cpe_ctl` with an operation and an argument without a newline in it. Whatever other clients do
meanwhile and however their streams and this one are cut, and whatever happens to the agent between
requests: there is one state of the agent, after the requests before this one, such that what
`cpe_ctl` prints is the answer to the operation with its argument in that state, in whatever pieces
the answer comes, exactly if the answer is one line. -/
theorem oneshotDaemon_prints_iff {op arg : CStr} {limit : UInt32} {req : CStr} (harg : 0 ∉ arg)
    (hreq : oneshotRequest op arg limit = some req) (hline : 10 ∉ req.dropLast)
    (script : HostScript) (ops : List IpcOp) {env : ClientEnv} {sock : CStr}
    (hsends : env.Sends sock req) {n : ℕ} :
    let tr := (ipcRun hostHandler (IpcState.create, script) ops).trace
    received n tr = clientLine req → ¬ SendFailed n tr →
      ∃ verb first pre post,
        (op = ascii verb.name ∨ op = ascii "flows" ∧ verb = .flowList) ∧
        IpcVerb.find (requestOp first) = some verb ∧ ArgumentRead verb arg limit first ∧
        calls tr = pre ++ (n, first) :: post ∧
        let p := (serialRun hostHandler (IpcState.create, script) pre).1
        let s := p.1.hostRun (p.2 0).1
        let text := s.response (p.2 0).2 first
        (∃ hops, s = IpcState.create.hostRun hops) ∧
        ((∀ chunks, ArrivesAs (sentTo n (replies tr)) chunks →
          oneshotDaemon (env.receives chunks) sock op arg limit = .ok (text ++ [10])) ↔
          OneLine text) := by
  intro tr hrecv hsend
  obtain ⟨verb, first, more, hop, hasks⟩ := exists_asks_of_oneshot harg hreq
  obtain ⟨body, hbody, ⟨-, hnone, hlines⟩ | ⟨-, -, -, hmem, -⟩⟩ := askedOf_cases req
  swap
  · exact absurd hmem hline
  obtain ⟨rfl, rfl⟩ : first = requestText body ∧ more = [] := by
    rw [hasks.lines] at hlines
    exact List.cons.inj hlines
  have hwire : clientLine req = body ++ [10] := by
    rcases hbody with rfl | rfl
    · rw [clientLine, if_neg fun h ↦ hnone (List.mem_of_getLast? h)]
    · rw [clientLine, if_pos List.getLast?_concat]
  have hlen : body.length < cpeIpcLineMax - 1 := by
    have hfits := hsends.fits
    have hmax : cpeIpcLineMax = 8192 := rfl
    rcases hbody with rfl | rfl
    · omega
    · rw [List.length_append, List.length_singleton] at hfits
      omega
  obtain ⟨pre, post, hcalls, hpre, hpost⟩ := exists_calls (hwire ▸ hrecv) hnone hlen hsend
  refine ⟨verb, requestText body, pre, post, hop, hasks.found, hasks.argument rfl, hcalls, ?_, ?_⟩
  · obtain ⟨hops, hstate⟩ := exists_hostRun [] script pre
    refine ⟨hops ++ ((serialRun hostHandler (IpcState.create, script) pre).1.2 0).1, ?_⟩
    rw [hostRun_append, ← hstate]
    rfl
  · have hserial := (serial_ipcRun hostHandler (IpcState.create, script) ops).run
    have hsent : sentTo n (serialRun hostHandler (IpcState.create, script)
        (pre ++ (n, requestText body) :: post)).2 = _ := sentTo_serialRun hpre hpost
    rw [← hcalls, hserial] at hsent
    have hspec := IpcState.response_spec
      ((serialRun hostHandler (IpcState.create, script) pre).1.1.hostRun
        ((serialRun hostHandler (IpcState.create, script) pre).1.2 0).1)
      ((serialRun hostHandler (IpcState.create, script) pre).1.2 0).2 (requestText body)
    rw [hsent, ← returns_iff hsends 160 hspec.1 hspec.2]
    exact forall₂_congr fun chunks _ ↦ oneshotDaemon_eq_ok_iff hreq

def willingClient (req : CStr) : ClientEnv := ⟨none, none, .ok (clientLine req).length, []⟩

/-- Nothing happens to the agent between requests. -/
def quietScript : HostScript := fun _ ↦ ([], quietEnv)

/-- One connection, from which `ping` comes in one piece. -/
def pingOps : List IpcOp :=
  [.accept, .service ⟨0, Nat.zero_lt_succ 7⟩ (.data (clientLine (bareRequest "ping"))) []]

/-- The answer to `ping` is printed. -/
theorem oneshotDaemon_prints_ping :
    let text := okText .ping (quoted (ascii "pong"))
    ∀ chunks, ArrivesAs (text ++ [10]) chunks →
      oneshotDaemon ((willingClient (bareRequest "ping")).receives chunks) [] (ascii "ping") [] 0
        = .ok (text ++ [10]) := by
  intro text chunks hchunks
  have htrace : (ipcRun hostHandler (IpcState.create, quietScript) pingOps).trace
      = [.received 0 (clientLine (bareRequest "ping")), .request 0 (bareRequest "ping"),
        .sent 0 (text ++ [10]) true] := by decide +kernel
  have hsends : (willingClient (bareRequest "ping")).Sends [] (bareRequest "ping") :=
    ⟨rfl, rfl, by decide, by decide, rfl⟩
  have hreq : oneshotRequest (ascii "ping") [] 0 = some (bareRequest "ping") := by decide
  obtain ⟨verb, first, pre, post, -, -, -, hcalls, -, hiff⟩ :=
    oneshotDaemon_prints_iff (by decide : (0 : UInt8) ∉ []) hreq (by decide) quietScript pingOps
      hsends (n := 0) (by rw [htrace]; decide) (by rw [htrace]; simp [SendFailed])
  rw [htrace] at hcalls hiff
  obtain ⟨rfl, rfl⟩ : pre = [] ∧ first = bareRequest "ping" := by
    rcases pre with - | ⟨c, pre⟩
    · exact ⟨rfl, (Prod.mk.inj (List.cons.inj hcalls).1).2.symm⟩
    · exact absurd (List.cons.inj hcalls).2 (by simp)
  have htext : OneLine text := by decide
  exact hiff.mpr htext chunks (by simpa [sentTo, replies] using hchunks)

end NetForensics

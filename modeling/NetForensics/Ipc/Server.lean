import NetForensics.Util.Lines
import NetForensics.Util.Run
import NetForensics.Util.Text

/-!
# The control socket

`cpe_ipc_server_t`: up to eight connections, each with a buffer of one line. `service_client` reads
what has arrived, hands every complete line to the request handler and sends the response back.

The handler and the agent behind it are parameters. What the kernel answers is an input of each
call, and every call reports what it received, handed over, sent and closed.
-/

namespace NetForensics

/-- `CPE_IPC_LINE_MAX` -/
def cpeIpcLineMax : ℕ := 8192

/-- `CPE_IPC_CLIENTS_MAX` -/
def cpeIpcClientsMax : ℕ := 8

/-- One of `clients`, with its part of `rbuf`: the `rlen` bytes that are in use. Connections are
numbered in the order in which they are accepted, since the kernel uses descriptors again. -/
structure IpcSlot where
  client : Option ℕ
  rbuf : CStr
  deriving DecidableEq

/-- `cpe_ipc_server_t`, with the number of connections accepted so far. -/
structure IpcServer (σ : Type) where
  agent : σ
  slots : Fin cpeIpcClientsMax → IpcSlot
  accepted : ℕ

/-- What can be seen of a call. -/
inductive IpcEvent where
  | received (conn : ℕ) (bytes : CStr)
  | request (conn : ℕ) (line : CStr)
  | sent (conn : ℕ) (bytes : CStr) (ok : Bool)
  | closed (conn : ℕ)
  deriving DecidableEq

/-- What `recv` returns: nothing yet, an error, or what the peer has sent, of which it takes no more
than fits. The peer's end of the stream is the empty text. -/
inductive RecvResult where
  | again
  | failed
  | data (bytes : CStr)

/-- `cpe_ipc_handle_request` with its agent; `none` is the return value `-1`. -/
abbrev IpcHandler (σ : Type) := σ → CStr → σ × Option CStr

/-! ## Lines and responses -/

/-- The request the handler is given: without a carriage return at its end, and up to the first NUL,
since it is a C string. -/
def requestText (line : CStr) : CStr :=
  (if line.getLast? = some 13 then line.dropLast else line).takeWhile (· ≠ 0)

/-- The response to a request the handler refuses. -/
def handlerError : CStr :=
  object [("ok", ascii "false"), ("op", quoted (ascii "unknown")),
    ("error", quoted (ascii "handler"))]

/-- What is sent for a response: the newline is added if there is room. -/
def responseBytes (resp : CStr) : CStr :=
  if resp.length + 1 < cpeIpcLineMax then resp ++ [10] else resp

variable {σ : Type}

/-- The loop of `service_client` over the complete lines of the buffer. `sends` are the outcomes of
`send`. The results are the agent, the buffer unless the connection was closed, the number of
requests, and what could be seen. Every turn uses up a newline, so that the length of the buffer is
fuel enough. -/
def serveLines (handle : IpcHandler σ) (n : ℕ) :
    ℕ → List Bool → σ → CStr → σ × Option CStr × ℕ × List IpcEvent
  | 0, _, agent, buf => (agent, some buf, 0, [])
  | fuel + 1, sends, agent, buf =>
    match cutLine 10 buf with
    | none =>
      if cpeIpcLineMax - 1 ≤ buf.length then (agent, none, 0, [.closed n])
      else (agent, some buf, 0, [])
    | some (line, rest) =>
      let (agent, resp) := handle agent (requestText line)
      let bytes := responseBytes (resp.getD handlerError)
      if sends.headD true then
        let (agent, buf, handled, tr) := serveLines handle n fuel sends.tail agent rest
        (agent, buf, handled + 1, .request n (requestText line) :: .sent n bytes true :: tr)
      else (agent, none, 0, [.request n (requestText line), .sent n bytes false, .closed n])

namespace IpcServer

/-- `cpe_ipc_server_create` -/
def create (agent : σ) : IpcServer σ := ⟨agent, fun _ ↦ ⟨none, []⟩, 0⟩

/-- `close_client` -/
def closeClient (s : IpcServer σ) (idx : Fin cpeIpcClientsMax) : IpcServer σ :=
  { s with slots := Function.update s.slots idx ⟨none, []⟩ }

/-- One turn of `accept_clients`, for a connection that is waiting: it takes the first free slot, or
is closed at once. -/
def acceptClient (s : IpcServer σ) : IpcServer σ × List IpcEvent :=
  match (List.finRange cpeIpcClientsMax).find? fun i ↦ (s.slots i).client.isNone with
  | none => ({ s with accepted := s.accepted + 1 }, [.closed s.accepted])
  | some slot =>
    ({ s with
      slots := Function.update s.slots slot ⟨some s.accepted, []⟩
      accepted := s.accepted + 1 }, [])

/-- The length `recv` is given. -/
def room (s : IpcServer σ) (idx : Fin cpeIpcClientsMax) : ℕ :=
  cpeIpcLineMax - (s.slots idx).rbuf.length - 1

/-- `service_client` -/
def serviceClient (handle : IpcHandler σ) (s : IpcServer σ) (idx : Fin cpeIpcClientsMax)
    (recv : RecvResult) (sends : List Bool) : IpcServer σ × ℕ × List IpcEvent :=
  match (s.slots idx).client with
  | none => (s, 0, [])
  | some n =>
    match recv with
    | .again => (s, 0, [])
    | .failed => (s.closeClient idx, 0, [.closed n])
    | .data bytes =>
      let got := bytes.take (s.room idx)
      if got = [] then (s.closeClient idx, 0, [.closed n])
      else
        let buf := (s.slots idx).rbuf ++ got
        let (agent, buf, handled, tr) := serveLines handle n (buf.length + 1) sends s.agent buf
        let s := { s with agent := agent }
        match buf with
        | none => (s.closeClient idx, handled, .received n got :: tr)
        | some buf =>
          ({ s with slots := Function.update s.slots idx ⟨some n, buf⟩ }, handled,
            .received n got :: tr)

/-- `accept_clients`, for a number of connections that are waiting. -/
def acceptClients (s : IpcServer σ) : ℕ → IpcServer σ × List IpcEvent
  | 0 => (s, [])
  | waiting + 1 =>
    let (s, tr) := s.acceptClient
    let (s, rest) := s.acceptClients waiting
    (s, tr ++ rest)

/-- The loop of `cpe_ipc_server_poll` over the slots. -/
def serviceSlots (handle : IpcHandler σ) (recv : Fin cpeIpcClientsMax → RecvResult)
    (sends : Fin cpeIpcClientsMax → List Bool) :
    List (Fin cpeIpcClientsMax) → IpcServer σ → IpcServer σ × ℕ × List IpcEvent
  | [], s => (s, 0, [])
  | i :: slots, s =>
    if (s.slots i).client.isSome then
      let (s, handled, tr) := s.serviceClient handle i (recv i) (sends i)
      let (s, more, rest) := serviceSlots handle recv sends slots s
      (s, handled + more, tr ++ rest)
    else serviceSlots handle recv sends slots s

/-- `cpe_ipc_server_poll` -/
def poll (handle : IpcHandler σ) (s : IpcServer σ) (waiting : ℕ)
    (recv : Fin cpeIpcClientsMax → RecvResult) (sends : Fin cpeIpcClientsMax → List Bool) :
    IpcServer σ × ℕ × List IpcEvent :=
  let (s, tr) := s.acceptClients waiting
  let (s, handled, rest) :=
    serviceSlots handle recv sends (List.finRange cpeIpcClientsMax) s
  (s, handled, tr ++ rest)

end IpcServer

/-! ## Runs -/

/-- One action of the server. -/
inductive IpcOp where
  | accept
  | service (idx : Fin cpeIpcClientsMax) (recv : RecvResult) (sends : List Bool)

/-- The server and what could be seen of it so far. -/
structure IpcRun (σ : Type) where
  server : IpcServer σ
  trace : List IpcEvent

def ipcStep (handle : IpcHandler σ) (r : IpcRun σ) : IpcOp → IpcRun σ
  | .accept => ⟨r.server.acceptClient.1, r.trace ++ r.server.acceptClient.2⟩
  | .service idx recv sends =>
    ⟨(r.server.serviceClient handle idx recv sends).1,
      r.trace ++ (r.server.serviceClient handle idx recv sends).2.2⟩

/-- A run from a new server, with actions in any order. -/
def ipcRun (handle : IpcHandler σ) (agent : σ) (ops : List IpcOp) : IpcRun σ :=
  ops.foldl (ipcStep handle) ⟨IpcServer.create agent, []⟩

/-! ## Runs of polls -/

/-- What the kernel answers to the calls of one poll. -/
structure IpcPoll where
  waiting : ℕ
  recv : Fin cpeIpcClientsMax → RecvResult
  sends : Fin cpeIpcClientsMax → List Bool

/-- The actions of one `cpe_ipc_server_poll`: the waiting connections, then every slot in turn. -/
def IpcPoll.ops (x : IpcPoll) : List IpcOp :=
  List.replicate x.waiting .accept ++
    (List.finRange cpeIpcClientsMax).map fun i ↦ .service i (x.recv i) (x.sends i)

def pollStep (handle : IpcHandler σ) (r : IpcRun σ) (x : IpcPoll) : IpcRun σ :=
  ⟨(r.server.poll handle x.waiting x.recv x.sends).1,
    r.trace ++ (r.server.poll handle x.waiting x.recv x.sends).2.2⟩

theorem foldl_accept (handle : IpcHandler σ) (r : IpcRun σ) (waiting : ℕ) :
    (List.replicate waiting .accept).foldl (ipcStep handle) r
      = ⟨(r.server.acceptClients waiting).1, r.trace ++ (r.server.acceptClients waiting).2⟩ := by
  induction waiting generalizing r with
  | zero => rw [IpcServer.acceptClients, List.append_nil]; rfl
  | succ waiting ih =>
    rw [List.replicate_succ, List.foldl_cons, ih, ipcStep, List.append_assoc]
    rfl

/-- An empty slot that is skipped is one whose service does nothing. -/
theorem foldl_service (handle : IpcHandler σ) (x : IpcPoll)
    (slots : List (Fin cpeIpcClientsMax)) (r : IpcRun σ) :
    (slots.map fun i ↦ IpcOp.service i (x.recv i) (x.sends i)).foldl (ipcStep handle) r
      = ⟨(IpcServer.serviceSlots handle x.recv x.sends slots r.server).1,
          r.trace ++ (IpcServer.serviceSlots handle x.recv x.sends slots r.server).2.2⟩ := by
  induction slots generalizing r with
  | nil => rw [IpcServer.serviceSlots, List.append_nil, List.map_nil, List.foldl_nil]
  | cons i slots ih =>
    rw [List.map_cons, List.foldl_cons, ih]
    cases hclient : (r.server.slots i).client with
    | some n =>
      have hsome : (r.server.slots i).client.isSome = true := by
        rw [hclient]
        rfl
      rw [IpcServer.serviceSlots, if_pos hsome, ipcStep, List.append_assoc]
    | none =>
      have hnone : ¬(r.server.slots i).client.isSome = true := by
        rw [hclient]
        exact Bool.false_ne_true
      have hidle : r.server.serviceClient handle i (x.recv i) (x.sends i) = (r.server, 0, []) := by
        rw [IpcServer.serviceClient, hclient]
      rw [IpcServer.serviceSlots, if_neg hnone, ipcStep, hidle, List.append_nil]

theorem foldl_ops (handle : IpcHandler σ) (r : IpcRun σ) (x : IpcPoll) :
    x.ops.foldl (ipcStep handle) r = pollStep handle r x := by
  rw [IpcPoll.ops, List.foldl_append, foldl_accept, foldl_service, pollStep, IpcServer.poll,
    List.append_assoc]

/-- The daemon, which calls the server by polls only, makes one of the runs above. -/
theorem foldl_pollStep (handle : IpcHandler σ) (agent : σ) (xs : List IpcPoll) :
    xs.foldl (pollStep handle) ⟨IpcServer.create agent, []⟩
      = ipcRun handle agent (xs.flatMap IpcPoll.ops) := by
  rw [ipcRun, List.foldl_flatMap]
  simp only [foldl_ops]

/-! ## What a connection sees -/

def received (n : ℕ) (tr : List IpcEvent) : CStr :=
  tr.flatMap fun
    | .received m bytes => if m = n then bytes else []
    | _ => []

def requests (n : ℕ) (tr : List IpcEvent) : List CStr :=
  tr.flatMap fun
    | .request m line => if m = n then [line] else []
    | _ => []

/-- Some response to a connection could not be sent. -/
def SendFailed (n : ℕ) (tr : List IpcEvent) : Prop := ∃ bytes, .sent n bytes false ∈ tr

end NetForensics

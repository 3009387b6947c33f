import NetForensics.Flow.Tick
import NetForensics.Ipc.Request
import NetForensics.Ipc.Server
import NetForensics.Perf.Sample
import NetForensics.Tcp.Poll

/-!
# The request handler

`cpe_ipc_handle_request` looks at the `op` of a request, does what it asks for and prints the answer
into a buffer of one line. Here the two are kept apart: `serve` says what is done and what the
answer consists of, `render` prints it. Every answer that is not an error is printed in the same
envelope; the ways of printing differ in how they check that it fits.
-/

namespace NetForensics

open Json

/-- The operations the handler knows. -/
inductive IpcVerb where
  | ping | help | status | config | lastSample | latency | spool | emit | tcpPoll | tcpStats
  | flowTick | flowStats | flowList | tcpByIp | tcpByPrefix | tcpEmit | tcpReset
  deriving DecidableEq

namespace IpcVerb

/-- The `op` of a request for the operation. -/
def name : IpcVerb → String
  | ping => "ping"
  | help => "help"
  | status => "status"
  | config => "config"
  | lastSample => "last_sample"
  | latency => "latency"
  | spool => "spool"
  | emit => "emit"
  | tcpPoll => "tcp_poll"
  | tcpStats => "tcp_stats"
  | flowTick => "flow_tick"
  | flowStats => "flow_stats"
  | flowList => "flow_list"
  | tcpByIp => "tcp_by_ip"
  | tcpByPrefix => "tcp_by_prefix"
  | tcpEmit => "tcp_emit"
  | tcpReset => "tcp_reset"

/-- The operations in the order in which the handler compares them. -/
def all : List IpcVerb :=
  [ping, help, status, config, lastSample, latency, spool, emit, tcpPoll, tcpStats, flowTick,
   flowStats, flowList, tcpByIp, tcpByPrefix, tcpEmit, tcpReset]

def find (op : CStr) : Option IpcVerb := all.find? fun v ↦ op = ascii v.name

end IpcVerb

/-- An answer before it is printed. Texts of members are already printed. -/
inductive IpcReply where
  /-- data that is not an object, printed by one `snprintf` -/
  | value (verb : IpcVerb) (data : CStr)
  /-- an object, printed by one `snprintf` -/
  | fields (verb : IpcVerb) (ms : List (String × CStr))
  /-- an object, printed by `append_remote_json` or `append_prefix_json` -/
  | row (verb : IpcVerb) (ms : List (String × CStr))
  /-- an array of such objects -/
  | rows (verb : IpcVerb) (rows : List (List (String × CStr)))
  /-- the flows, with how many there are -/
  | flows (rows : List (List (String × CStr))) (count : ℕ)
  | error (op msg : CStr)

/-! ## Printing -/

def okText (verb : IpcVerb) (data : CStr) : CStr :=
  object [("ok", ascii "true"), ("op", quoted (ascii verb.name)), ("data", data)]

def errText (op msg : CStr) : CStr :=
  object [("ok", ascii "false"), ("op", quoted op), ("error", quoted msg)]

/-- `respond_err` -/
def respondErr (op msg : CStr) : Option CStr :=
  fitText cpeIpcLineMax (errText (if op ≠ [] then op else ascii "unknown")
    (if msg ≠ [] then msg else ascii "error"))

def okOpen (verb : IpcVerb) : CStr :=
  123 :: memberList [("ok", ascii "true"), ("op", quoted (ascii verb.name))] ++
    44 :: (quoted (ascii "data") ++ [58])

/-- One `snprintf` behind what is in the buffer. -/
def appendText (buf text : CStr) : Option CStr :=
  if text.length < cpeIpcLineMax - buf.length then some (buf ++ text) else none

/-- The loop of the two list queries over the rows. -/
def appendRows : Bool → CStr → List CStr → Option CStr
  | _, buf, [] => some buf
  | first, buf, row :: rows =>
    (if first then some buf
      else if buf.length + 1 < cpeIpcLineMax then some (buf ++ [44]) else none).bind fun buf ↦
    (appendText buf row).bind fun buf ↦ appendRows false buf rows

/-- The loop of `flow_list`: the comma is part of the row. -/
def appendFlows : Bool → CStr → List CStr → Option CStr
  | _, buf, [] => some buf
  | first, buf, row :: rows =>
    (appendText buf (if first then row else 44 :: row)).bind fun buf ↦ appendFlows false buf rows

/-- The answer as it is printed, or `none` for the return value `-1`. -/
def IpcReply.render : IpcReply → Option CStr
  | value verb data => fitText cpeIpcLineMax (okText verb data)
  | fields verb ms => fitText cpeIpcLineMax (okText verb (object ms))
  | row verb ms =>
    (appendText (okOpen verb) (object ms)).bind fun buf ↦
      if buf.length + 2 < cpeIpcLineMax then some (buf ++ [125]) else none
  | rows verb rs =>
    (appendRows true (okOpen verb ++ [91]) (rs.map object)).bind fun buf ↦
      if buf.length + 3 < cpeIpcLineMax then some (buf ++ [93, 125]) else none
  | flows rs count =>
    (appendText [] (okOpen .flowList ++ 123 :: (quoted (ascii "flows") ++ [58, 91]))).bind fun buf ↦
      (appendFlows true buf (rs.map object)).bind fun buf ↦
        appendText buf (93 :: 44 :: (member "count" (decimal count) ++ [125, 125]))
  | error op msg => respondErr op msg

/-! ## The data of the answers -/

/-- `%zu` -/
def sizeText (n : ℕ) : CStr := decimal (n % 2 ^ 64)

/-- `%d` -/
def intText (n : ℤ) : CStr := signedDecimal (Int.bmod n (2 ^ 32))

/-- `CPE_IPC_SOCK_DEFAULT` -/
def cpeIpcSockDefault : CStr := ascii "/var/run/netforensics/cpe_agent.sock"

/-- `status` -/
def statusMembers (a : CpeAgent) : List (String × CStr) :=
  [("router_id", quoted a.cfg.routerId),
   ("emit_mode", quoted a.cfg.emitMode),
   ("egress_url", quoted a.cfg.httpsUrl),
   ("openai_proxy_url", quoted a.cfg.openaiProxyUrl),
   ("demo", boolText a.cfg.demoMode),
   ("tcp_stats", boolText a.cfg.tcpStatsEnabled),
   ("tcp_nflog_group", decimal a.cfg.tcpNflogGroup.toNat),
   ("flow_acct", boolText a.cfg.flowAcctEnabled),
   ("spool_depth", sizeText a.spoolDepth),
   ("spool_drops", sizeText a.spoolDrops),
   ("generation", decimal a.cfg.generation.toNat)]

/-- The socket `config` names. -/
def CpeAgentConfig.ipcPath (cfg : CpeAgentConfig) : CStr :=
  if cfg.ipcSocket ≠ [] then cfg.ipcSocket else cpeIpcSockDefault

/-- `config` -/
def configMembers (cfg : CpeAgentConfig) : List (String × CStr) :=
  [("router_id", quoted cfg.routerId),
   ("emit_mode", quoted cfg.emitMode),
   ("target", quoted cfg.demoTarget),
   ("interval_ms", decimal cfg.demoIntervalMs.toNat),
   ("timeout_ms", decimal cfg.probeTimeoutMs.toNat),
   ("demo", boolText cfg.demoMode),
   ("tcp_stats", boolText cfg.tcpStatsEnabled),
   ("tcp_nflog_group", decimal cfg.tcpNflogGroup.toNat),
   ("tcp_prefix_len", decimal cfg.tcpPrefixLen.toNat),
   ("egress_url", quoted cfg.httpsUrl),
   ("openai_proxy_url", quoted cfg.openaiProxyUrl),
   ("ipc_socket", quoted cfg.ipcPath)]

/-- `last_sample` -/
def sampleMembers (x : CpePerfSample) : List (String × CStr) :=
  [("probe", quoted x.probe),
   ("target", quoted x.target),
   ("rtt_ms", fixed 3 x.rttMs),
   ("loss", fixed 4 x.loss),
   ("ts", quoted x.tsIso),
   ("meta", if x.metaText ≠ [] then x.metaText else ascii "\x7b\x7d")]

/-- The members `cpe_agent_get_local_latency_json` prints. -/
def latencyMembers (cfg : CpeAgentConfig) : Option CpePerfSample → List (String × CStr)
  | none => [("available", ascii "false")]
  | some x =>
    [("available", ascii "true"),
     ("router_id", quoted (if cfg.routerId ≠ [] then cfg.routerId else ascii "unknown")),
     ("probe", quoted x.probe),
     ("target", quoted x.target),
     ("rtt_ms", fixed 3 x.rttMs),
     ("loss", fixed 4 x.loss),
     ("ts", quoted x.tsIso)]

/-- `tcp_stats` -/
def tcpStatsMembers (snap : CpeTcpSnapshot) : List (String × CStr) :=
  ("nflog_group", decimal snap.nflogGroup.toNat) :: snap.total.members ++
  [("remotes", decimal snap.remotes.length),
   ("prefixes", decimal snap.prefixes.length),
   ("prefix_len", decimal snap.prefixLen.toNat),
   ("loss_hint", fixed 4 snap.total.lossHint),
   ("ts", quoted snap.tsIso),
   ("pkts_parsed", decimal snap.pktsParsed.toNat)]

/-- `append_remote_json` -/
def remoteRow (r : CpeTcpRemote) : List (String × CStr) :=
  [("remote_ip", quoted r.remoteIp),
   ("local_ip", quoted r.localIp),
   ("remote_port", decimal r.remotePort.toNat),
   ("local_port", decimal r.localPort.toNat)] ++
  r.toTcpCounters.members ++ [("loss_hint", fixed 4 r.toTcpCounters.lossHint)]

/-- `append_prefix_json` -/
def prefixRow (x : CpeTcpPrefix) : List (String × CStr) :=
  [("prefix", quoted x.pfx),
   ("remotes", decimal x.remoteCount.toNat)] ++
  x.toTcpCounters.members ++ [("loss_hint", fixed 4 x.toTcpCounters.lossHint)]

/-- A descriptor as it is printed. -/
def fdText (fd : Option ℕ) : CStr := intText ((fd.map Int.ofNat).getD (-1))

/-- `flow_stats` -/
def flowStatsMembers (a : CpeAgent) (snap : CpeFlowSnapshot) : List (String × CStr) :=
  [("enabled", boolText a.cfg.flowAcctEnabled),
   ("flow_count", decimal snap.flows.length),
   ("events_in", decimal snap.eventsIn.toNat),
   ("destroys_emitted", decimal snap.destroysEmitted.toNat),
   ("samples_emitted", decimal snap.samplesEmitted.toNat),
   ("dumps", decimal snap.dumps.toNat),
   ("open_ok", boolText snap.openOk),
   ("open_err", if snap.openErr ≠ [] then quoted snap.openErr else ascii "null"),
   ("event_fd", fdText a.flow.fd),
   ("dump_fd", fdText a.flow.dumpFd),
   ("ts", quoted snap.tsIso)]

/-- `%s:%u` -/
def endText (ip : CStr) (port : UInt16) : CStr := ip ++ 58 :: decimal port.toNat

/-- A row of `flow_list`. -/
def flowRow (e : CpeFlowEntry) : List (String × CStr) :=
  [("flow_id", quoted e.flowId),
   ("proto", decimal e.proto.toNat),
   ("lan", quoted (endText e.lanIp e.lanPort)),
   ("remote", quoted (endText e.remoteIp e.remotePort)),
   ("wan", quoted (endText e.wanIp e.wanPort)),
   ("bytes_up", decimal e.bytesUp.toNat),
   ("bytes_down", decimal e.bytesDown.toNat),
   ("rate_up_bps", fixed0 e.rateUpBps),
   ("rate_down_bps", fixed0 e.rateDownBps),
   ("state", quoted e.state)]

/-- `flow_list` without flows, for a reason. -/
def hintMembers (hint : CStr) : List (String × CStr) :=
  [("flows", array []), ("count", decimal 0), ("hint", quoted hint)]

/-- The dash in the hint, in UTF-8. -/
def emDash : CStr := [0xE2, 0x80, 0x94]

/-- The hint when the configuration has flow accounting off. -/
def hintDisabled : CStr :=
  ascii "flow_acct.enabled is false in cpe_agent.yaml " ++ emDash ++ ascii " set true and restart"

def hintClosed (openErr : CStr) : CStr :=
  ascii "conntrack netlink open failed: " ++ (if openErr ≠ [] then openErr else ascii "unknown") ++
    ascii " (need CAP_NET_ADMIN / root)"

/-- The operations `help` lists. -/
def helpNames : List String :=
  ["ping", "status", "config", "last_sample", "latency", "spool", "emit", "tcp_poll", "tcp_stats",
   "tcp_by_ip", "tcp_by_prefix", "tcp_emit", "tcp_reset", "flow_tick", "flow_stats", "flow_list"]

/-! ## The operations -/

/-- What the handler reads and changes: the agent, and the last sample kept with it. -/
structure IpcState where
  agent : CpeAgent
  last : Option CpePerfSample

/-- Outcomes of the calls a request can make. -/
structure IpcEnv where
  emit : EmitEnv
  tcp : TcpPollEnv
  flow : FlowTickEnv
  /-- the wall clock, where one time stamp is made -/
  clock : Option WallClock
  /-- `mono_ms` -/
  now : UInt64

/-- The `limit` of `flow_list`. -/
def flowLimit (req : CStr) : ℕ :=
  let limit := (jsonGetU32 req "limit").getD 32
  if limit = 0 ∨ 64 < limit then 32 else limit.toNat

namespace IpcState

/-- `flow_list` once the table has been brought up to date. -/
def flowList (a : CpeAgent) (snap : CpeFlowSnapshot) (limit : ℕ) : IpcReply :=
  if !a.cfg.flowAcctEnabled then .fields .flowList (hintMembers hintDisabled)
  else if !snap.openOk then .fields .flowList (hintMembers (hintClosed snap.openErr))
  else .flows ((snap.flows.take limit).map flowRow) snap.flows.length

/-- `latency`, by way of a buffer of 256 bytes. -/
def latency (s : IpcState) : IpcReply :=
  if (object (latencyMembers s.agent.cfg s.last)).length < 256 then
    .fields .latency (latencyMembers s.agent.cfg s.last)
  else .error (ascii "latency") (ascii "latency failed")

/-- `tcp_by_ip` -/
def tcpByIp (a : CpeAgent) (ip : CStr) : IpcReply :=
  if ip ≠ [] then
    match a.tcpRemote ip with
    | none => .value .tcpByIp (ascii "null")
    | some r => .row .tcpByIp (remoteRow r)
  else .rows .tcpByIp ((a.tcp.snap.remotes.take 64).map remoteRow)

/-- `tcp_by_prefix` -/
def tcpByPrefix (a : CpeAgent) (pfx : CStr) : IpcReply :=
  if pfx ≠ [] then
    match a.tcpPrefix pfx with
    | none => .value .tcpByPrefix (ascii "null")
    | some x => .row .tcpByPrefix (prefixRow x)
  else .rows .tcpByPrefix ((a.tcp.snap.prefixes.take 64).map prefixRow)

/-- The answer to an operation that counts something, and fails with a negative count. -/
def counted (verb : IpcVerb) (field : String) (msg : String) (n : ℤ) : IpcReply :=
  if n < 0 then .error (ascii verb.name) (ascii msg) else .fields verb [(field, intText n)]

def serve (env : IpcEnv) (s : IpcState) (req : CStr) : IpcVerb → IpcState × IpcReply
  | .ping => (s, .value .ping (quoted (ascii "pong")))
  | .help => (s, .value .help (array (helpNames.map fun n ↦ quoted (ascii n))))
  | .status => (s, .fields .status (statusMembers s.agent))
  | .config => (s, .fields .config (configMembers s.agent.cfg))
  | .lastSample =>
    match s.last with
    | none => (s, .value .lastSample (ascii "null"))
    | some x => (s, .fields .lastSample (sampleMembers x))
  | .latency => (s, s.latency)
  | .spool =>
    (s, .fields .spool
      [("depth", sizeText s.agent.spoolDepth), ("drops", sizeText s.agent.spoolDrops)])
  | .emit =>
    let (a, lines, _) := s.agent.emitFlush env.emit
    ({ s with agent := a }, counted .emit "lines" "emit_flush failed" lines)
  | .tcpPoll =>
    let (a, pkts) := s.agent.tcpPoll ((jsonGetU32 req "max").getD 64) env.tcp
    ({ s with agent := a }, counted .tcpPoll "pkts" "tcp_poll failed" pkts)
  | .tcpStats => (s, .fields .tcpStats (tcpStatsMembers s.agent.tcp.snap))
  | .flowTick =>
    let (a, work) := s.agent.flowTick env.flow
    ({ s with agent := a }, counted .flowTick "work" "flow_tick failed" work)
  | .flowStats =>
    let (a, _) := s.agent.flowTick env.flow
    ({ s with agent := a }, .fields .flowStats (flowStatsMembers a (a.flowSnapshot env.clock)))
  | .flowList =>
    let (a, _) := s.agent.flowTick env.flow
    ({ s with agent := a }, flowList a (a.flowSnapshot env.clock) (flowLimit req))
  | .tcpByIp => (s, tcpByIp s.agent (requestField req "ip" 48))
  | .tcpByPrefix => (s, tcpByPrefix s.agent (requestField req "prefix" 64))
  | .tcpEmit =>
    let (a, lines) := s.agent.tcpEmit ((jsonGetU32 req "top_n").getD 0) env.clock env.now
    ({ s with agent := a }, counted .tcpEmit "lines" "tcp_emit failed" lines)
  | .tcpReset =>
    ({ s with agent := { s.agent with tcp := cpeAgentTcpReset s.agent.tcp env.clock } },
      .value .tcpReset (ascii "true"))

def answer (env : IpcEnv) (s : IpcState) (req : CStr) : IpcState × IpcReply :=
  if requestOp req = [] then (s, .error (ascii "unknown") (ascii "missing op"))
  else
    match IpcVerb.find (requestOp req) with
    | none => (s, .error (requestOp req) (ascii "unknown op"))
    | some verb => s.serve env req verb

/-- `cpe_ipc_handle_request` with a buffer of `CPE_IPC_LINE_MAX` bytes. -/
def handleRequest (env : IpcEnv) : IpcHandler IpcState := fun s req ↦
  ((s.answer env req).1, (s.answer env req).2.render)

end IpcState

end NetForensics

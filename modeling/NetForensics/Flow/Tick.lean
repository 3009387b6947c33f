import NetForensics.Flow.Liveness

/-!
# One pass over the flow table

`cpe_agent_flow_tick` reads what the event socket holds, asks for a dump if one is due, and prints
samples. `cpe_agent_flow_snapshot` copies the occupied slots for a query. The events decoded from
the two sockets are inputs.
-/

namespace NetForensics

/-- Outcomes of the calls `cpe_agent_flow_tick` makes. -/
structure FlowTickEnv where
  /-- `nfct_netlink_open`, if the socket is not open yet -/
  nfctOpen : OpenResult
  /-- `nfct_netlink_open_dump` -/
  nfctOpenDump : OpenResult
  /-- `mono_ms` -/
  now : UInt64
  /-- the events on the event socket, if the decoder can be created -/
  events : Option (List FlowInput)
  /-- `nfct_netlink_dump_request` -/
  dumpRequest : Bool
  /-- the events of the dump -/
  dumped : Option (List FlowInput)
  /-- the wall clock at the sample of each slot -/
  clock : FlowSlot → Option WallClock

/-- `cpe_flow_snapshot_t`; `flow_count` is the length of `flows`. -/
structure CpeFlowSnapshot where
  eventsIn : UInt64
  destroysEmitted : UInt64
  samplesEmitted : UInt64
  dumps : UInt64
  openOk : Bool
  openErr : CStr
  tsIso : CStr
  flows : List CpeFlowEntry

namespace CpeAgent

/-- `drain_fd`: the number of events that were applied. -/
def drainFd (a : CpeAgent) (events : Option (List FlowInput)) : CpeAgent × ℤ :=
  match events with
  | none => (a, -1)
  | some xs =>
    xs.foldl (fun (res : CpeAgent × ℤ) x ↦
      ((res.1.applyEvent x).1, if 0 ≤ (res.1.applyEvent x).2 then res.2 + 1 else res.2)) (a, 0)

/-- `cpe_agent_flow_poll` -/
def flowPoll (a : CpeAgent) (env : FlowTickEnv) : CpeAgent × ℤ :=
  if !a.flow.enabled then (a, 0)
  else if a.flow.fd.isNone then
    let (st, rc) := cpeAgentFlowOpen a.flow env.nfctOpen env.nfctOpenDump
    if rc ≠ 0 then ({ a with flow := st }, 0) else drainFd { a with flow := st } env.events
  else a.drainFd env.events

/-- `maybe_dump` -/
def maybeDump (a : CpeAgent) (env : FlowTickEnv) : CpeAgent × ℤ :=
  if a.flow.dumpFd.isNone then (a, 0)
  else if a.flow.dumpIntervalMs = 0 then (a, 0)
  else if a.flow.lastDumpMs ≠ 0 ∧ env.now - a.flow.lastDumpMs < a.flow.dumpIntervalMs.toUInt64 then
    (a, 0)
  else if !env.dumpRequest then (a, 0)
  else
    drainFd { a with flow := { a.flow with lastDumpMs := env.now, dumps := a.flow.dumps + 1 } }
      env.dumped

/-- `cpe_agent_flow_tick` once the collector is on. -/
def flowPass (a : CpeAgent) (env : FlowTickEnv) : CpeAgent × ℤ :=
  let a := { a with flow := { a.flow with lastTickMs := env.now } }
  let (a, polled) := a.flowPoll env
  let (a, dumped) := a.maybeDump env
  let (a, sampled) := a.emitTopSamples env.now env.clock
  (a, polled + dumped + sampled)

/-- `cpe_agent_flow_tick` -/
def flowTick (a : CpeAgent) (env : FlowTickEnv) : CpeAgent × ℤ :=
  if a.flow.enabled then a.flowPass env
  else if a.cfg.flowAcctEnabled then
    let (st, rc) := cpeAgentFlowOpen a.flow env.nfctOpen env.nfctOpenDump
    if rc ≠ 0 then ({ a with flow := st }, 0) else flowPass { a with flow := st } env
  else (a, 0)

/-- `cpe_agent_flow_snapshot` -/
def flowSnapshot (a : CpeAgent) (clock : Option WallClock) : CpeFlowSnapshot where
  eventsIn := a.flow.eventsIn
  destroysEmitted := a.flow.destroysEmitted
  samplesEmitted := a.flow.samplesEmitted
  dumps := a.flow.dumps
  openOk := a.flow.openOk
  openErr := copyStr 96 a.flow.openErr
  tsIso := copyStr 40 (isoNow clock)
  flows := ((scanned a.flow.maxFlows).filter fun i ↦ (a.flow.table i).used).map a.flow.table

end CpeAgent

end NetForensics

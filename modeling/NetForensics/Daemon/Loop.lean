import NetForensics.Agent.History
import NetForensics.Agent.Provide
import NetForensics.Ipc.Reach

/-!
# The host loops

`cpe_agent_run_uv` exists twice: as a loop of its own that sleeps in slices, and on top of libuv,
whose timers call back. Both take turns of one kind: a configuration is reloaded if there was a
`SIGHUP`, a sample is taken, what has been spooled is emitted. Between turns they serve the control
socket and the flow table.

Signals come between any two steps and only set flags. Which timer libuv fires next is its own
affair, so any order of callbacks is a run of that loop. What the clients of the control socket ask
in one poll is an input, as are the outcomes of all system calls.
-/

namespace NetForensics

/-! ## The work of a turn -/

/-- Outcomes of the calls `cpe_agent_sample_tick` makes. -/
structure SampleEnv where
  /-- the statistics of the diagnostics library, if it takes the reply -/
  stats : Option NetdiagStats
  /-- the time to the reply, if one came, and whether the socket is a raw one; nothing if the
  request could not be sent -/
  echo : Option (Option ℚ × Bool)
  /-- the wall clock -/
  clock : Option WallClock

namespace IpcState

/-- The sample as a line, and into the spool with it. -/
def spoolSample (s : IpcState) (x : CpePerfSample) : IpcState × ℤ :=
  match cpePerfFormatNdjson s.agent.cfg.routerId x cpeNdjsonLineMax with
  | none => (s, -1)
  | some line =>
    let (a, rc) := s.agent.spoolPushLine line
    ({ s with agent := a }, if rc ≠ 0 then -1 else 0)

/-- `cpe_agent_demo_ping_tick` -/
def demoPingTick (s : IpcState) (env : SampleEnv) : IpcState × ℤ :=
  match env.stats with
  | none => (s, -1)
  | some st =>
    let x := demoPingSample s.agent.cfg env.clock st
    let (s, rc) := spoolSample { s with last := some x } x
    if rc ≠ 0 then (s, -1)
    else ({ s with agent := s.agent.eqPush .sampleReady (ascii "demo ping") 0 0 }, 0)

/-- `cpe_agent_live_ping_tick` -/
def livePingTick (s : IpcState) (env : SampleEnv) : IpcState × ℤ :=
  if s.agent.cfg.demoTarget = [] then (s, -1)
  else if (inetPton4 s.agent.cfg.demoTarget).isNone then (s, -1)
  else
    match env.echo with
    | none => (s, -1)
    | some (rtt, isRaw) =>
      let x := livePingSample s.agent.cfg env.clock rtt isRaw
      spoolSample
        { agent := s.agent.eqPush .sampleReady (ascii "sample") 0 0, last := some x } x

/-- `cpe_agent_sample_tick` -/
def sampleTick (s : IpcState) (env : SampleEnv) : IpcState × ℤ :=
  if s.agent.cfg.demoMode then s.demoPingTick env else s.livePingTick env

/-- The requests that are answered in one `cpe_ipc_server_poll`, in their order. -/
def answerAll (s : IpcState) (reqs : List (IpcEnv × CStr)) : IpcState :=
  reqs.foldl (fun s r ↦ (s.handleRequest r.1 r.2).1) s

end IpcState

/-- The settings `cpe_agent_tcp_tick` takes over; zeros leave what is there. -/
def tcpTickSettings (cfg : CpeAgentConfig) (st : CpeTcpState) : CpeTcpState :=
  let prefixLen := if cfg.tcpPrefixLen ≠ 0 then cfg.tcpPrefixLen else st.prefixLen
  { st with
    enabled := true
    prefixLen := prefixLen
    emitIntervalMs :=
      if cfg.tcpEmitIntervalMs ≠ 0 then cfg.tcpEmitIntervalMs else st.emitIntervalMs
    emitTopN := if cfg.tcpEmitTopN ≠ 0 then cfg.tcpEmitTopN else st.emitTopN
    snap := { st.snap with
      prefixLen := prefixLen
      nflogGroup :=
        if cfg.tcpNflogGroup ≠ 0 then cfg.tcpNflogGroup.toUInt32 else st.snap.nflogGroup } }

/-- `cpe_agent_tcp_tick`; `emitNow` is the time that is kept of an emission. -/
def CpeAgent.tcpTick (a : CpeAgent) (env : TcpPollEnv) (clock : Option WallClock)
    (now emitNow : UInt64) : CpeAgent × ℤ :=
  if !a.cfg.tcpStatsEnabled then (a, 0)
  else
    let (a, _) := tcpPoll { a with tcp := tcpTickSettings a.cfg a.tcp } 128 env
    if a.tcp.lastEmitMs = 0 ∨ a.tcp.emitIntervalMs.toUInt64 ≤ now - a.tcp.lastEmitMs then
      a.tcpEmit a.tcp.emitTopN clock emitNow
    else (a, 0)

def CpeAgentConfig.loopInterval (cfg : CpeAgentConfig) : UInt32 :=
  if cfg.demoIntervalMs ≠ 0 then cfg.demoIntervalMs else 5000

/-- `cpe_agent_run_opts_t`; a string that is not given is empty. -/
structure CpeAgentRunOpts where
  maxTicks : UInt32
  configPath : CStr
  routerIdOverride : CStr

/-- What `cpe_agent_reload_config` finds at the path, `none` for a file that does not load. -/
def CpeAgentRunOpts.found (opts : CpeAgentRunOpts) (file : Option CpeAgentConfig) : LoadedConfig :=
  if opts.configPath ≠ [] then
    match file with
    | none => .failed
    | some cfg => .loaded cfg
  else .noPath

/-- Outcomes of the calls that the steps of a loop make. Every step has its own. -/
structure LoopEnv where
  file : Option CpeAgentConfig
  apply : ApplyEnv
  sample : SampleEnv
  emit : EmitEnv
  tcp : TcpPollEnv
  flow : FlowTickEnv
  clock : Option WallClock
  now : UInt64
  emitNow : UInt64
  /-- the requests of the clients, if the control socket is open -/
  requests : List (IpcEnv × CStr)

/-- What is seen of a loop: the signals that reach it, and what it does. -/
inductive LoopEvent where
  | hup
  | stop
  | reload (file : LoadedConfig) (rc : ℤ)
  | sample (intervalMs : UInt32)
  | slice
  | slept (ms : UInt32)

/-- What the two loops have in common: `g_hup`, `g_stop`, and the number of samples. -/
structure LoopState where
  host : IpcState
  hup : Bool
  stop : Bool
  ticks : UInt32

/-- Where a turn stands. -/
inductive TurnPc where
  /-- the test of `g_hup` in `cpe_agent_hup_take` -/
  | check
  /-- `g_hup = 0` -/
  | take
  | reload
  | sample
  | tcp
  | poll
  | drain
  deriving DecidableEq

namespace LoopState

/-- `drain_events` -/
def drained (s : IpcState) : IpcState := { s with agent := s.agent.drainEvents s.agent.eq.cnt }

/-- `cpe_agent_emit_flush`, whose result only ends up in a message. -/
def flushed (s : IpcState) (env : EmitEnv) : IpcState :=
  { s with agent := (s.agent.emitFlush env).1 }

/-- One step of a turn, and the next one, if there is one. Only one of the two loops serves the
control socket in its turns. -/
def turnStep (opts : CpeAgentRunOpts) (serves : Bool) (env : LoopEnv) (s : LoopState) :
    TurnPc → LoopState × Option TurnPc × Option LoopEvent
  | .check => (s, some (if s.hup then .take else .sample), none)
  | .take => ({ s with hup := false }, some .reload, none)
  | .reload =>
    let file := opts.found env.file
    let (a, rc) := s.host.agent.reloadConfig file opts.routerIdOverride env.apply
    ({ s with host := drained { s.host with agent := a } }, some .sample, some (.reload file rc))
  | .sample =>
    let (host, rc) := s.host.sampleTick env.sample
    ({ s with host := if rc = 0 then flushed host env.emit else host }, some .tcp,
      some (.sample s.host.agent.cfg.loopInterval))
  | .tcp =>
    if s.host.agent.cfg.tcpStatsEnabled then
      let (a, lines) := s.host.agent.tcpTick env.tcp env.clock env.now env.emitNow
      let host := { s.host with agent := a }
      ({ s with host := if 0 < lines then flushed host env.emit else host }, some .poll, none)
    else (s, some .poll, none)
  | .poll => ({ s with host := if serves then s.host.answerAll env.requests else s.host },
      some .drain, none)
  | .drain => ({ s with host := drained s.host, ticks := s.ticks + 1 }, none, none)

/-- What is done between turns: the control socket, and the flow table if it is kept. -/
def sliceStep (env : LoopEnv) (s : LoopState) : LoopState :=
  let host := s.host.answerAll env.requests
  if host.agent.cfg.flowAcctEnabled then
    let (a, work) := host.agent.flowTick env.flow
    let host := { host with agent := a }
    { s with host := if 0 < work then flushed host env.emit else host }
  else { s with host := host }

/-- The limit on the number of samples is reached. -/
def Finished (opts : CpeAgentRunOpts) (s : LoopState) : Prop :=
  0 < opts.maxTicks ∧ opts.maxTicks ≤ s.ticks

instance (opts : CpeAgentRunOpts) (s : LoopState) : Decidable (s.Finished opts) :=
  inferInstanceAs (Decidable (_ ∧ _))

def start (host : IpcState) : LoopState := ⟨host, false, false, 0⟩

end LoopState

/-! ## The loop that sleeps -/

/-- Where `cpe_agent_run_uv` of `agent_loop_poll.c` stands. In `sleep` and `slice` the argument is
`left`, of which the time of this slice has not been taken yet. -/
inductive PollPc where
  | first
  | top
  | turn (t : TurnPc)
  | wait (left : UInt32)
  | sleep (left : UInt32)
  | slice (left : UInt32)
  | done
  deriving DecidableEq

/-- The loop and its local variables. -/
structure PollLoop extends LoopState where
  pc : PollPc
  interval : UInt32

/-- What can happen to the loop next. -/
inductive PollInput where
  | hup
  | stop
  | step (env : LoopEnv)

/-- `step` of the slice loop. -/
def sliceOf (left : UInt32) : UInt32 := if 200 < left then 200 else left

namespace PollLoop

/-- `msleep` comes back early when there is a signal to stop, and sleeps on after any other. -/
def interrupted : PollPc → PollPc
  | .first => .top
  | .sleep left => .slice left
  | pc => pc

/-- Where a turn leaves the loop, by its next step. -/
def afterTurn (opts : CpeAgentRunOpts) (l : LoopState) (interval : UInt32) : Option TurnPc → PollPc
  | some t => .turn t
  | none => if l.Finished opts then .done else .wait interval

def step (opts : CpeAgentRunOpts) (s : PollLoop) : PollInput → PollLoop × Option LoopEvent
  | .hup => ({ s with hup := true }, some .hup)
  | .stop => ({ s with stop := true, pc := interrupted s.pc }, some .stop)
  | .step env =>
    match s.pc with
    | .first => ({ s with pc := .top }, some (.slept 10))
    | .top => ({ s with pc := if s.stop then .done else .turn .check }, none)
    | .turn t =>
      let interval := if t = .sample then s.host.agent.cfg.loopInterval else s.interval
      let (l, next, e) := s.toLoopState.turnStep opts true env t
      (⟨l, afterTurn opts l interval next, interval⟩, e)
    | .wait left => ({ s with pc := if 0 < left ∧ s.stop = false then .sleep left else .top }, none)
    | .sleep left => ({ s with pc := .slice left }, some (.slept (sliceOf left)))
    | .slice left => (⟨s.toLoopState.sliceStep env, .wait (left - sliceOf left), s.interval⟩,
        some .slice)
    | .done => (s, none)

end PollLoop

/-! ## The loop on timers -/

/-- Where the loop of `agent_loop.c` stands; `idle` is inside of `uv_run`. -/
inductive UvPc where
  | idle
  | turn (t : TurnPc)
  | slice
  | done
  deriving DecidableEq

/-- `cpe_uv_ctx_t`, and whether `uv_stop` has been called. -/
structure UvLoop extends LoopState where
  pc : UvPc
  lastIntervalMs : UInt32
  stopping : Bool

/-- What can happen to the loop next: a signal, a callback of one of the timers, the end of an
iteration, or a step of the callback. -/
inductive UvInput where
  | hup
  | stop
  | onTimer
  | onIpcTimer
  | iterated
  | step (env : LoopEnv)

namespace UvLoop

/-- `rearm_timer`, after a reload that returned zero. -/
def rearmed (s : LoopState) (lastIntervalMs : UInt32) : Option LoopEvent → UInt32
  | some (.reload _ rc) => if rc ≠ 0 then lastIntervalMs else s.host.agent.cfg.loopInterval
  | _ => lastIntervalMs

/-- One step. A callback that is running is not interrupted by another. -/
def step (opts : CpeAgentRunOpts) (s : UvLoop) : UvInput → UvLoop × Option LoopEvent
  | .hup => ({ s with hup := true }, some .hup)
  | .stop => ({ s with stop := true }, some .stop)
  | .onTimer =>
    if s.pc ≠ .idle then (s, none)
    else if s.stop then ({ s with stopping := true }, none)
    else ({ s with pc := .turn .check }, none)
  | .onIpcTimer =>
    if s.pc ≠ .idle then (s, none)
    else if s.stop then ({ s with stopping := true }, none)
    else ({ s with pc := .slice }, none)
  | .iterated =>
    if s.pc = .idle ∧ s.stopping = true then ({ s with pc := .done }, none) else (s, none)
  | .step env =>
    match s.pc with
    | .turn t =>
      let (l, next, e) := s.toLoopState.turnStep opts false env t
      (⟨l, (next.map .turn).getD .idle, rearmed l s.lastIntervalMs e,
        s.stopping || next.isNone && decide (l.Finished opts)⟩, e)
    | .slice => ({ s with toLoopState := s.toLoopState.sliceStep env, pc := .idle }, some .slice)
    | .idle => (s, none)
    | .done => (s, none)

end UvLoop

end NetForensics

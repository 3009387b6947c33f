import NetForensics.Daemon.Settings

/-!
# The loops as schedules

Reloading, sampling, reading a socket, answering a request, flushing the spool: both loops do the
same things to the host, in an order of their own. Here these are the operations of one machine
(`IpcState.daemonStep`) that knows nothing of signals, timers and slices, and that shows the lines
it hands to its transport. A run of either loop is a run of this machine (`PollLoop.run_host`,
`UvLoop.run_host`), so what every operation keeps, both loops keep.
-/

namespace NetForensics

/-! ## Schedules in general -/

section Schedule

variable {σ ι β ω : Type}

/-- The operations of a run, if every step comes with some. -/
def schedule (step : σ → ι → σ) (ops : σ → ι → List ω) (s : σ) (is : List ι) : List ω :=
  (is.foldl (fun r i ↦ (step r.1 i, r.2 ++ ops r.1 i)) (s, [])).2

variable {step : σ → ι → σ} {ops : σ → ι → List ω}

theorem foldl_schedule_fst (step : σ → ι → σ) (ops : σ → ι → List ω) (s : σ) (is : List ι) :
    (is.foldl (fun r i ↦ (step r.1 i, r.2 ++ ops r.1 i)) (s, [])).1 = is.foldl step s := by
  induction is using List.reverseRecOn with
  | nil => rfl
  | append_singleton is i ih => rw [List.foldl_concat, List.foldl_concat, ih]

theorem schedule_concat (s : σ) (is : List ι) (i : ι) :
    schedule step ops s (is ++ [i]) = schedule step ops s is ++ ops (is.foldl step s) i := by
  rw [schedule, List.foldl_concat, foldl_schedule_fst]
  rfl

/-- A machine does to part of its state what the operations of its steps do. -/
theorem foldl_schedule {exec : β → ω → β} {f : σ → β}
    (h : ∀ s i, f (step s i) = (ops s i).foldl exec (f s)) (s : σ) (is : List ι) :
    f (is.foldl step s) = (schedule step ops s is).foldl exec (f s) := by
  induction is using List.reverseRecOn with
  | nil => rfl
  | append_singleton is i ih =>
    rw [List.foldl_concat, schedule_concat, List.foldl_append, ← ih, h]

theorem forall_mem_schedule {P : ω → Prop} {is : List ι} (h : ∀ s, ∀ i ∈ is, ∀ op ∈ ops s i, P op)
    (s : σ) : ∀ op ∈ schedule step ops s is, P op := by
  induction is using List.reverseRecOn with
  | nil => exact List.forall_mem_nil _
  | append_singleton is i ih =>
    have hinit := ih fun s j hj ↦ h s j (List.mem_append_left _ hj)
    intro op hop
    rw [schedule_concat] at hop
    rcases List.mem_append.mp hop with hmem | hmem
    · exact hinit op hmem
    · exact h _ i (List.mem_append_right _ (List.mem_singleton_self i)) op hmem

end Schedule

/-! ## The operations -/

/-- What a loop does to the host, with the outcomes of the calls it makes. -/
inductive DaemonOp where
  | reload (file : Option CpeAgentConfig) (env : ApplyEnv)
  | drain
  | sample (env : SampleEnv)
  | tcp (env : TcpPollEnv) (clock : Option WallClock) (now emitNow : UInt64)
  | flow (env : FlowTickEnv)
  | request (env : IpcEnv) (req : CStr)
  | flush (env : EmitEnv)

namespace IpcState

/-- The lines that are handed on while a request is answered. -/
def requestHands (s : IpcState) (env : IpcEnv) (req : CStr) : List CStr :=
  if IpcVerb.find (requestOp req) = some .emit then (s.agent.emitFlush env.emit).2.2 else []

/-- One operation, with the lines that are handed on. -/
def daemonStep (opts : CpeAgentRunOpts) (s : IpcState) : DaemonOp → IpcState × List CStr
  | .reload file env =>
    ({ s with agent := (s.agent.reloadConfig (opts.found file) opts.routerIdOverride env).1 }, [])
  | .drain => (LoopState.drained s, [])
  | .sample env => ((s.sampleTick env).1, [])
  | .tcp env clock now emitNow =>
    ({ s with agent := (s.agent.tcpTick env clock now emitNow).1 }, [])
  | .flow env => ({ s with agent := (s.agent.flowTick env).1 }, [])
  | .request env req => ((s.handleRequest env req).1, s.requestHands env req)
  | .flush env => (LoopState.flushed s env, (s.agent.emitFlush env).2.2)

def daemonRun (opts : CpeAgentRunOpts) (s : IpcState) (ops : List DaemonOp) :
    IpcState × List CStr :=
  ops.foldl (fun r op ↦ ((r.1.daemonStep opts op).1, r.2 ++ (r.1.daemonStep opts op).2)) (s, [])

theorem daemonRun_concat (opts : CpeAgentRunOpts) (s : IpcState) (ops : List DaemonOp)
    (op : DaemonOp) : s.daemonRun opts (ops ++ [op]) =
      (((s.daemonRun opts ops).1.daemonStep opts op).1,
        (s.daemonRun opts ops).2 ++ ((s.daemonRun opts ops).1.daemonStep opts op).2) := by
  rw [daemonRun, List.foldl_concat]
  rfl

theorem daemonRun_fst (opts : CpeAgentRunOpts) (s : IpcState) (ops : List DaemonOp) :
    (s.daemonRun opts ops).1 = ops.foldl (fun s op ↦ (s.daemonStep opts op).1) s := by
  induction ops using List.reverseRecOn with
  | nil => rfl
  | append_singleton ops op ih => rw [daemonRun_concat, List.foldl_concat, ih]

end IpcState

/-! ## The operations of a step -/

namespace LoopState

def turnOps (serves : Bool) (env : LoopEnv) (s : LoopState) : TurnPc → List DaemonOp
  | .check | .take => []
  | .reload => [.reload env.file env.apply, .drain]
  | .sample =>
    .sample env.sample :: if (s.host.sampleTick env.sample).2 = 0 then [.flush env.emit] else []
  | .tcp =>
    if s.host.agent.cfg.tcpStatsEnabled then
      .tcp env.tcp env.clock env.now env.emitNow ::
        if 0 < (s.host.agent.tcpTick env.tcp env.clock env.now env.emitNow).2 then
          [.flush env.emit] else []
    else []
  | .poll => if serves then env.requests.map fun r ↦ .request r.1 r.2 else []
  | .drain => [.drain]

def sliceOps (env : LoopEnv) (s : LoopState) : List DaemonOp :=
  let host := s.host.answerAll env.requests
  env.requests.map (fun r ↦ .request r.1 r.2) ++
    if host.agent.cfg.flowAcctEnabled then
      .flow env.flow :: if 0 < (host.agent.flowTick env.flow).2 then [.flush env.emit] else []
    else []

section

variable (opts : CpeAgentRunOpts)

theorem foldl_requests (s : IpcState) (reqs : List (IpcEnv × CStr)) :
    (reqs.map fun r ↦ DaemonOp.request r.1 r.2).foldl (fun s op ↦ (s.daemonStep opts op).1) s
      = s.answerAll reqs := by
  rw [List.foldl_map]
  rfl

theorem turnStep_ops (serves : Bool) (env : LoopEnv) (s : LoopState) (t : TurnPc) :
    (s.turnStep opts serves env t).1.host
      = (s.turnOps serves env t).foldl (fun s op ↦ (s.daemonStep opts op).1) s.host := by
  cases t with
  | check | take | reload | drain => rfl
  | sample =>
    rw [turnStep, turnOps]
    dsimp only
    split <;> rfl
  | tcp =>
    rw [turnStep, turnOps]
    split
    · dsimp only
      split <;> rfl
    · rfl
  | poll =>
    rw [turnStep, turnOps]
    dsimp only
    split
    · exact (foldl_requests opts s.host env.requests).symm
    · rfl

theorem sliceStep_ops (env : LoopEnv) (s : LoopState) :
    (s.sliceStep env).host
      = (s.sliceOps env).foldl (fun s op ↦ (s.daemonStep opts op).1) s.host := by
  rw [sliceStep, sliceOps]
  dsimp only
  rw [List.foldl_append, foldl_requests]
  split
  · dsimp only
    split <;> rfl
  · rfl

end

end LoopState

namespace PollLoop

def stepOps (s : PollLoop) : PollInput → List DaemonOp
  | .hup | .stop => []
  | .step env =>
    match s.pc with
    | .turn t => s.turnOps true env t
    | .slice _ => s.sliceOps env
    | .first | .top | .wait _ | .sleep _ | .done => []

def ops (opts : CpeAgentRunOpts) (host : IpcState) (inputs : List PollInput) : List DaemonOp :=
  schedule (fun s i ↦ (step opts s i).1) stepOps (.start host) inputs

theorem step_ops (opts : CpeAgentRunOpts) (s : PollLoop) (i : PollInput) :
    (step opts s i).1.host
      = (s.stepOps i).foldl (fun s op ↦ (s.daemonStep opts op).1) s.host := by
  cases i with
  | hup | stop => rfl
  | step env =>
    rw [step, stepOps]
    cases s.pc with
    | first | top | wait left | sleep left | done => rfl
    | turn t => exact s.turnStep_ops opts true env t
    | slice left => exact s.sliceStep_ops opts env

theorem run_host (opts : CpeAgentRunOpts) (host : IpcState) (inputs : List PollInput) :
    (run opts host inputs).1.host = (host.daemonRun opts (ops opts host inputs)).1 := by
  have hfst : (run opts host inputs).1
      = inputs.foldl (fun s i ↦ (step opts s i).1) (.start host) :=
    foldl_schedule_fst (fun s i ↦ (step opts s i).1) (fun s i ↦ (step opts s i).2.toList) _ inputs
  rw [hfst, IpcState.daemonRun_fst]
  exact foldl_schedule (f := fun s : PollLoop ↦ s.host) (step_ops opts) (.start host) inputs

end PollLoop

namespace UvLoop

def stepOps (s : UvLoop) : UvInput → List DaemonOp
  | .hup | .stop | .onTimer | .onIpcTimer | .iterated => []
  | .step env =>
    match s.pc with
    | .turn t => s.turnOps false env t
    | .slice => s.sliceOps env
    | .idle | .done => []

def ops (opts : CpeAgentRunOpts) (host : IpcState) (inputs : List UvInput) : List DaemonOp :=
  schedule (fun s i ↦ (step opts s i).1) stepOps (.start host) inputs

theorem step_ops (opts : CpeAgentRunOpts) (s : UvLoop) (i : UvInput) :
    (step opts s i).1.host
      = (s.stepOps i).foldl (fun s op ↦ (s.daemonStep opts op).1) s.host := by
  cases i with
  | hup | stop => rfl
  | onTimer | onIpcTimer =>
    rw [step, stepOps]
    split_ifs <;> rfl
  | iterated =>
    rw [step, stepOps]
    split <;> rfl
  | step env =>
    rw [step, stepOps]
    cases s.pc with
    | idle | done => rfl
    | turn t => exact s.turnStep_ops opts false env t
    | slice => exact s.sliceStep_ops opts env

theorem run_host (opts : CpeAgentRunOpts) (host : IpcState) (inputs : List UvInput) :
    (run opts host inputs).1.host = (host.daemonRun opts (ops opts host inputs)).1 := by
  have hfst : (run opts host inputs).1
      = inputs.foldl (fun s i ↦ (step opts s i).1) (.start host) :=
    foldl_schedule_fst (fun s i ↦ (step opts s i).1) (fun s i ↦ (step opts s i).2.toList) _ inputs
  rw [hfst, IpcState.daemonRun_fst]
  exact foldl_schedule (f := fun s : UvLoop ↦ s.host) (step_ops opts) (.start host) inputs

end UvLoop

end NetForensics

import NetForensics.Daemon.Signals

/-!
# The settings of a running daemon

A loop samples, reads sockets and answers requests. None of this changes the configuration: it is
the one the daemon was started with, or that of the last reload that succeeded, whatever happens in
between (`CpeAgentRunOpts.settle`). With `--router-id` it has that router id all the time, and the
timer of the libuv loop always has the period that is configured.
-/

namespace NetForensics

/-! ## What does not change the configuration -/

namespace CpeAgent

theorem tcpStable_true : TcpStable fun _ ↦ True :=
  ⟨fun _ _ _ _ ↦ trivial, fun _ _ ↦ trivial, fun _ _ _ _ ↦ trivial, fun _ _ ↦ trivial⟩

theorem tcpPoll_cfg (a : CpeAgent) (maxMsgs : UInt32) (env : TcpPollEnv) :
    (a.tcpPoll maxMsgs env).1.cfg = a.cfg := by
  obtain ⟨st, heq, -⟩ := stable_tcpPoll tcpStable_true (a := a) trivial maxMsgs env
  rw [heq]

theorem tcpEmit_cfg (a : CpeAgent) (topN : UInt32) (clock : Option WallClock) (nowMs : UInt64) :
    (a.tcpEmit topN clock nowMs).1.cfg = a.cfg := by
  obtain ⟨st, -, halike⟩ := stable_tcpEmit tcpStable_true (a := a) trivial topN clock nowMs
  exact halike.cfg

theorem emitFlush_cfg (a : CpeAgent) (env : EmitEnv) : (a.emitFlush env).1.cfg = a.cfg :=
  (alike_emitFlush a env).cfg

theorem tcpTick_cfg (a : CpeAgent) (env : TcpPollEnv) (clock : Option WallClock)
    (now emitNow : UInt64) : (a.tcpTick env clock now emitNow).1.cfg = a.cfg := by
  rw [tcpTick]
  split
  · rfl
  · dsimp only
    split
    · rw [tcpEmit_cfg, tcpPoll_cfg]
    · rw [tcpPoll_cfg]

theorem drainEvents_cfg (a : CpeAgent) (n : ℕ) : (a.drainEvents n).cfg = a.cfg := by
  induction n generalizing a with
  | zero => rfl
  | succ n ih =>
    rw [drainEvents, ih, nextEvent]
    split <;> rfl

end CpeAgent

namespace IpcState

theorem serve_cfg (env : IpcEnv) (s : IpcState) (req : CStr) (verb : IpcVerb) :
    (s.serve env req verb).1.agent.cfg = s.agent.cfg := by
  cases verb with
  | emit => exact s.agent.emitFlush_cfg _
  | tcpPoll => exact s.agent.tcpPoll_cfg _ _
  | flowTick | flowStats | flowList => exact s.agent.flowTick_cfg _
  | tcpEmit => exact s.agent.tcpEmit_cfg _ _ _
  | lastSample =>
    rw [serve]
    split <;> rfl
  | tcpReset | ping | help | status | config | latency | spool | tcpStats | tcpByIp | tcpByPrefix =>
    rfl

theorem handleRequest_cfg (env : IpcEnv) (s : IpcState) (req : CStr) :
    (s.handleRequest env req).1.agent.cfg = s.agent.cfg := by
  rw [handleRequest]
  dsimp only
  rw [answer]
  split
  · rfl
  · split
    · rfl
    · exact serve_cfg env s req _

theorem answerAll_cfg (s : IpcState) (reqs : List (IpcEnv × CStr)) :
    (s.answerAll reqs).agent.cfg = s.agent.cfg := by
  refine foldl_invariant (P := fun t : IpcState ↦ t.agent.cfg = s.agent.cfg) ?_ rfl reqs
  exact fun t r ht ↦ (handleRequest_cfg r.1 t r.2).trans ht

theorem spoolSample_cfg (s : IpcState) (x : CpePerfSample) :
    (s.spoolSample x).1.agent.cfg = s.agent.cfg := by
  rw [spoolSample]
  split
  · rfl
  · exact CpeAgent.spoolPushLine_cfg _ _

theorem sampleTick_cfg (s : IpcState) (env : SampleEnv) :
    (s.sampleTick env).1.agent.cfg = s.agent.cfg := by
  rw [sampleTick]
  split
  · rw [demoPingTick]
    split
    · rfl
    · dsimp only
      split
      · exact spoolSample_cfg _ _
      · rw [CpeAgent.eqPush_cfg, spoolSample_cfg]
  · rw [livePingTick]
    split_ifs
    · rfl
    · rfl
    · split
      · rfl
      · rw [spoolSample_cfg, CpeAgent.eqPush_cfg]

end IpcState

namespace LoopState

theorem flushed_cfg (s : IpcState) (env : EmitEnv) : (flushed s env).agent.cfg = s.agent.cfg :=
  s.agent.emitFlush_cfg env

theorem drained_cfg (s : IpcState) : (drained s).agent.cfg = s.agent.cfg :=
  s.agent.drainEvents_cfg _

theorem sliceStep_cfg (env : LoopEnv) (s : LoopState) :
    (s.sliceStep env).host.agent.cfg = s.host.agent.cfg := by
  have hanswer := s.host.answerAll_cfg env.requests
  rw [sliceStep]
  dsimp only
  split
  · dsimp only
    split
    · rw [flushed_cfg, CpeAgent.flowTick_cfg, hanswer]
    · rw [CpeAgent.flowTick_cfg, hanswer]
  · exact hanswer

theorem turnStep_cfg (opts : CpeAgentRunOpts) (serves : Bool) (env : LoopEnv) (s : LoopState)
    {t : TurnPc} (ht : t ≠ .reload) :
    (s.turnStep opts serves env t).1.host.agent.cfg = s.host.agent.cfg := by
  cases t with
  | check | take => rfl
  | reload => exact absurd rfl ht
  | sample =>
    have hsample := s.host.sampleTick_cfg env.sample
    rw [turnStep]
    dsimp only
    split
    · rw [flushed_cfg, hsample]
    · exact hsample
  | tcp =>
    rw [turnStep]
    split
    · dsimp only
      split
      · rw [flushed_cfg, CpeAgent.tcpTick_cfg]
      · rw [CpeAgent.tcpTick_cfg]
    · rfl
  | poll =>
    rw [turnStep]
    dsimp only
    split
    · exact s.host.answerAll_cfg env.requests
    · rfl
  | drain => exact drained_cfg s.host

end LoopState

/-! ## What does -/

theorem CpeAgentConfig.Accepted.setGeneration {c : CpeAgentConfig} (h : c.Accepted)
    (generation : UInt64) : Accepted { c with generation := generation } :=
  ⟨h.valid, h.spoolMaxLines, h.sampleIntervalMs, h.demoIntervalMs, h.probeTimeoutMs⟩

namespace CpeAgentRunOpts

/-- What a reload is to install: what it has found, under the router id that is given. -/
def wanted (opts : CpeAgentRunOpts) (cfg : CpeAgentConfig) (file : LoadedConfig) : CpeAgentConfig :=
  let found := match file with
    | .loaded found => found
    | .noPath | .failed => cfg
  if opts.routerIdOverride = [] then found else { found with routerId := opts.routerIdOverride }

/-- The settings after an event: only a reload that succeeds changes them. -/
def settle (opts : CpeAgentRunOpts) (cfg : CpeAgentConfig) : LoopEvent → CpeAgentConfig
  | .reload file rc =>
    if rc ≠ 0 then cfg
    else { normalizeConfig (opts.wanted cfg file) with generation := cfg.generation + 1 }
  | _ => cfg

/-- The settings are fit to run with, and the router id that is given is in force. -/
structure Fits (opts : CpeAgentRunOpts) (cfg : CpeAgentConfig) : Prop where
  accepted : cfg.Accepted
  routerId : opts.routerIdOverride ≠ [] → cfg.routerId = opts.routerIdOverride

theorem normalizeConfig_candidate {opts : CpeAgentRunOpts} {a : CpeAgent} {file : LoadedConfig}
    {cfg : CpeAgentConfig} (h : a.reloadCandidate file opts.routerIdOverride = some cfg)
    (generation : UInt64) :
    { normalizeConfig cfg with generation := generation }
      = { normalizeConfig (opts.wanted a.cfg file) with generation := generation } := by
  unfold CpeAgent.reloadCandidate at h
  unfold wanted
  by_cases hrid : opts.routerIdOverride = []
  · rw [if_pos hrid] at h ⊢
    cases file with
    | noPath =>
      obtain rfl := Option.some_inj.mp h
      rfl
    | failed => exact absurd h (by simp)
    | loaded found =>
      obtain rfl := Option.some_inj.mp h
      rfl
  · rw [if_neg hrid] at h ⊢
    obtain ⟨-, h⟩ := Option.ite_none_left_eq_some.mp h
    cases file with
    | noPath =>
      obtain rfl := Option.some_inj.mp h
      rfl
    | failed => exact absurd h (by simp)
    | loaded found =>
      obtain rfl := Option.some_inj.mp h
      rfl

end CpeAgentRunOpts

namespace CpeAgent

variable (opts : CpeAgentRunOpts) (a : CpeAgent) (file : LoadedConfig) (env : ApplyEnv)

theorem reloadConfig_settle :
    (a.reloadConfig file opts.routerIdOverride env).1.cfg = opts.settle a.cfg
      (.reload file (a.reloadConfig file opts.routerIdOverride env).2) := by
  rw [reloadConfig]
  cases hcand : a.reloadCandidate file opts.routerIdOverride with
  | none => rfl
  | some cfg =>
    dsimp only
    rcases a.applyConfig_cfg cfg env with ⟨hret, hcfg⟩ | ⟨hret, -, hcfg⟩
    · rw [hret, hcfg]
      rfl
    · rw [hret, hcfg, CpeAgentRunOpts.normalizeConfig_candidate hcand]
      rfl

/-- A reload that succeeds leaves fit settings, whatever there was before. -/
theorem fits_of_reloaded (hret : (a.reloadConfig file opts.routerIdOverride env).2 = 0) :
    opts.Fits (a.reloadConfig file opts.routerIdOverride env).1.cfg := by
  refine ⟨?_, fun hne ↦ routerId_reloadConfig a file hne env hret⟩
  rcases a.configCall_cfg (.reload file opts.routerIdOverride env) with
    ⟨hfail, -⟩ | ⟨-, cfg, hacc, hcfg⟩
  · exact absurd (hfail.symm.trans hret) (by decide)
  · rw [configCall] at hcfg
    rw [hcfg]
    exact hacc.setGeneration _

theorem fits_reloadConfig (h : opts.Fits a.cfg) :
    opts.Fits (a.reloadConfig file opts.routerIdOverride env).1.cfg := by
  rcases a.configCall_cfg (.reload file opts.routerIdOverride env) with ⟨-, hcfg⟩ | ⟨hret, -⟩
  · rw [configCall] at hcfg
    rw [hcfg]
    exact h
  · exact a.fits_of_reloaded opts file env hret

end CpeAgent

/-! ## The loops -/

namespace LoopState

variable (opts : CpeAgentRunOpts) (serves : Bool) (env : LoopEnv) (s : LoopState) (t : TurnPc)

theorem turnStep_settle :
    (s.turnStep opts serves env t).1.host.agent.cfg
      = (s.turnStep opts serves env t).2.2.toList.foldl opts.settle s.host.agent.cfg := by
  by_cases ht : t = .reload
  · subst ht
    exact (drained_cfg _).trans (s.host.agent.reloadConfig_settle opts _ _)
  · rw [turnStep_cfg opts serves env s ht]
    cases t with
    | reload => exact absurd rfl ht
    | tcp =>
      rw [turnStep]
      split <;> rfl
    | check | take | sample | poll | drain => rfl

theorem fits_turnStep (h : opts.Fits s.host.agent.cfg) :
    opts.Fits (s.turnStep opts serves env t).1.host.agent.cfg := by
  by_cases ht : t = .reload
  · subst ht
    rw [turnStep]
    dsimp only
    rw [drained_cfg]
    exact s.host.agent.fits_reloadConfig opts _ _ h
  · rw [turnStep_cfg opts serves env s ht]
    exact h

end LoopState

namespace PollLoop

theorem step_host (opts : CpeAgentRunOpts) (s : PollLoop) (i : PollInput) :
    (step opts s i).1.host.agent.cfg
        = (step opts s i).2.toList.foldl opts.settle s.host.agent.cfg ∧
      (opts.Fits s.host.agent.cfg → opts.Fits (step opts s i).1.host.agent.cfg) := by
  cases i with
  | hup | stop => exact ⟨rfl, id⟩
  | step env =>
    rw [step]
    cases s.pc with
    | first | top | wait left | sleep left | done => exact ⟨rfl, id⟩
    | turn t =>
      exact ⟨s.toLoopState.turnStep_settle opts true env t,
        s.toLoopState.fits_turnStep opts true env t⟩
    | slice left =>
      have hcfg := s.toLoopState.sliceStep_cfg env
      exact ⟨hcfg, fun h ↦ hcfg.symm ▸ h⟩

end PollLoop

namespace UvLoop

def Timed (s : UvLoop) : Prop := s.lastIntervalMs = s.host.agent.cfg.loopInterval

theorem step_host (opts : CpeAgentRunOpts) (s : UvLoop) (i : UvInput) :
    (step opts s i).1.host.agent.cfg
        = (step opts s i).2.toList.foldl opts.settle s.host.agent.cfg ∧
      (opts.Fits s.host.agent.cfg → opts.Fits (step opts s i).1.host.agent.cfg) := by
  cases i with
  | hup | stop => exact ⟨rfl, id⟩
  | onTimer | onIpcTimer =>
    rw [step]
    split_ifs <;> exact ⟨rfl, id⟩
  | iterated =>
    rw [step]
    split <;> exact ⟨rfl, id⟩
  | step env =>
    rw [step]
    cases s.pc with
    | idle | done => exact ⟨rfl, id⟩
    | turn t =>
      exact ⟨s.toLoopState.turnStep_settle opts false env t,
        s.toLoopState.fits_turnStep opts false env t⟩
    | slice =>
      have hcfg := s.toLoopState.sliceStep_cfg env
      exact ⟨hcfg, fun h ↦ hcfg.symm ▸ h⟩

end UvLoop

namespace UvLoop

/-- A reload that installs another period starts the timer with it. -/
theorem rearmed_turnStep (opts : CpeAgentRunOpts) (env : LoopEnv) (s : LoopState) (t : TurnPc) :
    rearmed (s.turnStep opts false env t).1 s.host.agent.cfg.loopInterval
        (s.turnStep opts false env t).2.2
      = (s.turnStep opts false env t).1.host.agent.cfg.loopInterval := by
  have hsettle := s.turnStep_settle opts false env t
  generalize s.turnStep opts false env t = res at hsettle ⊢
  obtain ⟨l, t', e⟩ := res
  cases e with
  | none => exact congrArg CpeAgentConfig.loopInterval hsettle.symm
  | some e =>
    cases e with
    | reload file rc =>
      rw [rearmed]
      by_cases hrc : rc ≠ 0
      · rw [if_pos hrc]
        have hkept : opts.settle s.host.agent.cfg (.reload file rc) = s.host.agent.cfg := if_pos hrc
        exact congrArg CpeAgentConfig.loopInterval (hsettle.trans hkept).symm
      · rw [if_neg hrc]
    | hup | stop | sample | slice | slept =>
      exact congrArg CpeAgentConfig.loopInterval hsettle.symm

theorem Timed.step {opts : CpeAgentRunOpts} {s : UvLoop} (h : s.Timed) (i : UvInput) :
    (UvLoop.step opts s i).1.Timed := by
  cases i with
  | hup | stop => exact h
  | onTimer | onIpcTimer =>
    rw [UvLoop.step]
    split_ifs <;> exact h
  | iterated =>
    rw [UvLoop.step]
    split <;> exact h
  | step env =>
    rw [UvLoop.step]
    cases s.pc with
    | idle | done => exact h
    | turn t =>
      have hrearmed := rearmed_turnStep opts env s.toLoopState t
      rw [← h] at hrearmed
      exact hrearmed
    | slice =>
      exact h.trans (congrArg CpeAgentConfig.loopInterval (s.toLoopState.sliceStep_cfg env).symm)

end UvLoop

/-! ## The process -/

/-- `main` of `cpe_agent` up to the loop: the agent, if it is to run. -/
def cpeAgentMain (opts : CpeAgentRunOpts) (forceDemo : Bool) (file : Option CpeAgentConfig)
    (load force : ApplyEnv) : Option IpcState :=
  let (a, rc) := CpeAgent.create.reloadConfig (opts.found file) opts.routerIdOverride load
  if rc ≠ 0 then none
  else if forceDemo then
    let (a, rc) := a.applyConfig { a.cfg with demoMode := true } force
    if rc ≠ 0 then none else some (LoopState.drained ⟨a, none⟩)
  else some (LoopState.drained ⟨a, none⟩)

theorem fits_cpeAgentMain {opts : CpeAgentRunOpts} {forceDemo : Bool} {file : Option CpeAgentConfig}
    {load force : ApplyEnv} {host : IpcState}
    (h : cpeAgentMain opts forceDemo file load force = some host) :
    opts.Fits host.agent.cfg := by
  have hload := CpeAgent.fits_of_reloaded opts .create (opts.found file) load
  unfold cpeAgentMain at h
  generalize CpeAgent.create.reloadConfig (opts.found file) opts.routerIdOverride load = res
    at hload h
  obtain ⟨a, rc⟩ := res
  dsimp only at hload h
  obtain ⟨hrc, h⟩ := Option.ite_none_left_eq_some.mp h
  have hfits := hload (not_not.mp hrc)
  split at h
  · obtain ⟨hforced, h⟩ := Option.ite_none_left_eq_some.mp h
    obtain rfl := Option.some_inj.mp h
    rw [LoopState.drained_cfg]
    rcases a.applyConfig_cfg { a.cfg with demoMode := true } force with
      ⟨hret, -⟩ | ⟨-, hacc, hcfg⟩
    · rw [hret] at hforced
      exact absurd (by decide) hforced
    · dsimp only
      rw [hcfg]
      exact ⟨hacc.setGeneration _, hfits.routerId⟩
  · obtain rfl := Option.some_inj.mp h
    rw [LoopState.drained_cfg]
    exact hfits

/-- Whatever a running daemon does: its settings are those of the last reload that succeeded, or the
ones it was started with; they are fit to run with; the router id it was given is in force; and with
libuv, the timer has the period that is configured. -/
theorem loops_settle {opts : CpeAgentRunOpts} {forceDemo : Bool} {file : Option CpeAgentConfig}
    {load force : ApplyEnv} {host : IpcState}
    (h : cpeAgentMain opts forceDemo file load force = some host) :
    (∀ inputs, let r := PollLoop.run opts host inputs
      r.1.host.agent.cfg = r.2.foldl opts.settle host.agent.cfg ∧ opts.Fits r.1.host.agent.cfg) ∧
    ∀ inputs, let r := UvLoop.run opts host inputs
      r.1.host.agent.cfg = r.2.foldl opts.settle host.agent.cfg ∧ opts.Fits r.1.host.agent.cfg ∧
        r.1.lastIntervalMs = r.1.host.agent.cfg.demoIntervalMs := by
  have hfits := fits_cpeAgentMain h
  refine ⟨fun inputs ↦ ⟨?_, ?_⟩, fun inputs ↦ ⟨?_, ?_, ?_⟩⟩
  · exact foldl_trace (f := fun s : PollLoop ↦ s.host.agent.cfg)
      (fun s i ↦ (PollLoop.step_host opts s i).1) (.start host) inputs
  · exact tracedRun_invariant (P := fun s : PollLoop ↦ opts.Fits s.host.agent.cfg)
      (fun s i ↦ (PollLoop.step_host opts s i).2) hfits inputs
  · exact foldl_trace (f := fun s : UvLoop ↦ s.host.agent.cfg)
      (fun s i ↦ (UvLoop.step_host opts s i).1) (.start host) inputs
  · exact tracedRun_invariant (P := fun s : UvLoop ↦ opts.Fits s.host.agent.cfg)
      (fun s i ↦ (UvLoop.step_host opts s i).2) hfits inputs
  · have htimed : (UvLoop.run opts host inputs).1.Timed :=
      tracedRun_invariant (P := UvLoop.Timed) (fun s i h ↦ h.step i) (s := .start host) rfl inputs
    have haccepted : opts.Fits (UvLoop.run opts host inputs).1.host.agent.cfg :=
      tracedRun_invariant (P := fun s : UvLoop ↦ opts.Fits s.host.agent.cfg)
        (fun s i ↦ (UvLoop.step_host opts s i).2) hfits inputs
    exact htimed.trans (if_pos haccepted.accepted.demoIntervalMs)

/-- A daemon with a router id of its own and no configuration file. -/
def namedOpts : CpeAgentRunOpts := ⟨0, [], ascii "cpe-7"⟩

def bareApply : ApplyEnv := ⟨true, .error [], .error [], .error []⟩

/-- It keeps the name. -/
theorem loops_settle_named : ∃ host,
    cpeAgentMain namedOpts true none bareApply bareApply = some host ∧
      ∀ inputs, (PollLoop.run namedOpts host inputs).1.host.agent.cfg.routerId = ascii "cpe-7" := by
  obtain ⟨host, hhost⟩ := Option.isSome_iff_exists.mp
    (by decide : (cpeAgentMain namedOpts true none bareApply bareApply).isSome = true)
  exact ⟨host, hhost, fun inputs ↦ ((loops_settle hhost).1 inputs).2.routerId (by decide)⟩

end NetForensics

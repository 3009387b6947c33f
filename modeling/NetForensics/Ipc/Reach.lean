import NetForensics.Agent.Reach
import NetForensics.Ipc.Handler

/-!
# Runs of the agent behind its socket

Between requests an agent is configured, fed and ticked, and its probes leave samples. A request can
do most of this itself: it flushes the spool, reads the sockets of both collectors or resets one.
Whatever the order, the strings of the collectors stay words, and every string stays shorter than
the field it is kept in (`IpcState.Sane`).

Sizes of fields are part of the types of the program, and so are the ranges of its numbers. They
come with the inputs: a configuration that could not be written down cannot be applied.
-/

namespace NetForensics

open Json

/-! ## Inputs within their types -/

/-- Every string of the configuration fits its field. -/
structure CpeAgentConfig.Sized (c : CpeAgentConfig) : Prop where
  routerId : c.routerId.length < 64
  emitMode : c.emitMode.length < 16
  spoolPath : c.spoolPath.length < 256
  demoTarget : c.demoTarget.length < 64
  arpingIf : c.arpingIf.length < 32
  wifiIf : c.wifiIf.length < 32
  httpsUrl : c.httpsUrl.length < 256
  egressUser : c.egressUser.length < 64
  egressPassword : c.egressPassword.length < 128
  tlsCaFile : c.tlsCaFile.length < 256
  tlsCertFile : c.tlsCertFile.length < 256
  tlsKeyFile : c.tlsKeyFile.length < 256
  ipcSocket : c.ipcSocket.length < 256
  openaiProxyUrl : c.openaiProxyUrl.length < 256
  postgresProxyUrl : c.postgresProxyUrl.length < 256

abbrev SizedConfig := { c : CpeAgentConfig // c.Sized }

def CpePerfSample.Finite (x : CpePerfSample) : Prop := x.rttMs < 2 ^ 1024 ∧ x.loss < 2 ^ 1024

/-- A run of a probe whose samples can be in memory. -/
abbrev FiniteProbe := { p : Probe // ∀ cfg clock, ∀ x ∈ p.samples cfg clock, x.Finite }

/-- What can happen to the agent. -/
inductive HostOp where
  | configure (cfg : SizedConfig) (env : ApplyEnv)
  | flow (x : FlowInput)
  | tcp (op : TcpOp)
  | tick (env : FlowTickEnv)
  | probe (p : FiniteProbe) (clock : Option WallClock)
  | request (env : IpcEnv) (req : CStr)

namespace IpcState

def create : IpcState := ⟨CpeAgent.create, none⟩

/-- A probe: the first sample is kept, and all of them are spooled. -/
def runProbe (s : IpcState) (p : Probe) (clock : Option WallClock) : IpcState :=
  let samples := p.samples s.agent.cfg clock
  let lines := samples.map fun x ↦ cpePerfFormatNdjson s.agent.cfg.routerId x cpeNdjsonLineMax
  { agent := (s.agent.pushRows lines).1
    last := samples.head?.or s.last }

def hostStep (s : IpcState) : HostOp → IpcState
  | .configure cfg env => { s with agent := s.agent.agentStep (.configure cfg.1 env) }
  | .flow x => { s with agent := s.agent.agentStep (.flow x) }
  | .tcp op => { s with agent := s.agent.agentStep (.tcp op) }
  | .tick env => { s with agent := (s.agent.flowTick env).1 }
  | .probe p clock => s.runProbe p.1 clock
  | .request env req => (s.handleRequest env req).1

def hostRun (s : IpcState) (ops : List HostOp) : IpcState := ops.foldl hostStep s

end IpcState

/-! ## The agent -/

namespace CpeAgent

/-- The agent's configuration fits its fields, and it is `Worded`. -/
structure Sane (a : CpeAgent) : Prop extends a.Worded where
  sized : a.cfg.Sized

/-- What `Sane` is about is the same. -/
structure Alike (a b : CpeAgent) : Prop where
  cfg : b.cfg = a.cfg
  snap : b.tcp.snap = a.tcp.snap
  table : b.flow.table = a.flow.table

theorem Alike.trans {a b c : CpeAgent} (h : a.Alike b) (h' : b.Alike c) : a.Alike c :=
  ⟨h'.cfg.trans h.cfg, h'.snap.trans h.snap, h'.table.trans h.table⟩

theorem Sane.alike {a b : CpeAgent} (h : a.Sane) (hab : a.Alike b) : b.Sane where
  cfg := hab.cfg ▸ h.cfg
  tcp := hab.snap ▸ h.tcp
  flow := by
    rw [CpeFlowState.Worded, hab.table]
    exact h.flow
  sized := hab.cfg ▸ h.sized

theorem alike_spoolPushLine (a : CpeAgent) (line : CStr) : a.Alike (a.spoolPushLine line).1 :=
  ⟨spoolPushLine_cfg a line, by rw [spoolPushLine_tcp], by rw [spoolPushLine_flow]⟩

theorem alike_pushRows (a : CpeAgent) (lines : List (Option CStr)) :
    a.Alike (a.pushRows lines).1 := by
  rw [pushRows]
  refine foldl_invariant (P := fun res : CpeAgent × ℤ ↦ a.Alike res.1) ?_ ⟨rfl, rfl, rfl⟩ lines
  intro res line h
  cases line with
  | none => exact h
  | some line => exact h.trans (alike_spoolPushLine res.1 line)

theorem alike_spoolFlush (a : CpeAgent) (sink : Sink) : a.Alike (a.spoolFlush sink).1 := by
  unfold spoolFlush
  split
  · exact ⟨rfl, rfl, rfl⟩
  · dsimp only
    split
    · exact ⟨rfl, rfl, rfl⟩
    · split <;> exact ⟨rfl, rfl, rfl⟩

theorem alike_emitFlush (a : CpeAgent) (env : EmitEnv) : a.Alike (a.emitFlush env).1 := by
  unfold emitFlush
  split
  · unfold emitHttp
    split
    · exact ⟨rfl, rfl, rfl⟩
    · dsimp only
      split
      · exact ⟨rfl, rfl, rfl⟩
      · split <;> exact ⟨rfl, rfl, rfl⟩
  · split
    · unfold emitFile
      split
      · exact ⟨rfl, rfl, rfl⟩
      · split
        · exact ⟨rfl, rfl, rfl⟩
        · dsimp only
          split <;> exact alike_spoolFlush a env.sink
    · exact alike_spoolFlush a env.sink

theorem sane_create : create.Sane where
  toWorded := worded_create
  sized := by constructor <;> decide

/-! ## The flow table -/

theorem flowOpen_table (st : CpeFlowState) (res dump : OpenResult) :
    (cpeAgentFlowOpen st res dump).1.table = st.table := by
  unfold cpeAgentFlowOpen
  split
  · rfl
  · split <;> rfl

theorem Sane.applyEvent {a : CpeAgent} (h : a.Sane) (x : FlowInput) : (a.applyEvent x).1.Sane where
  toWorded := h.toWorded.agentStep (.flow x)
  sized := (keepsRest_applyEvent a x).1 ▸ h.sized

/-- A property that conntrack events keep, and that looks at nothing else of the flow state than the
table. -/
structure FlowStable (P : CpeAgent → Prop) : Prop where
  alike : ∀ {a b : CpeAgent}, a.Alike b → P a → P b
  event : ∀ {a : CpeAgent} (x : FlowInput), P a → P (a.applyEvent x).1

theorem flowStable_sane : FlowStable Sane :=
  ⟨fun hab h ↦ h.alike hab, fun x h ↦ h.applyEvent x⟩

theorem flowStable_cfg (cfg : CpeAgentConfig) : FlowStable fun a ↦ a.cfg = cfg :=
  ⟨fun hab h ↦ hab.cfg.trans h, fun x h ↦ (keepsRest_applyEvent _ x).1.trans h⟩

theorem flowStable_snap (P : CpeTcpSnapshot → Prop) : FlowStable fun a ↦ P a.tcp.snap where
  alike := fun hab h ↦ hab.snap ▸ h
  event := by
    intro a x h
    rw [(keepsRest_applyEvent a x).2]
    exact h

theorem alike_emitSample (a : CpeAgent) (clock : Option WallClock) (i : FlowSlot) :
    a.Alike (a.emitSample clock i).1 := by
  unfold emitSample
  split
  · exact ⟨rfl, rfl, rfl⟩
  · rename_i line _
    dsimp only
    split
    · exact (alike_spoolPushLine a line).trans ⟨rfl, rfl, rfl⟩
    · exact alike_spoolPushLine a line

theorem alike_emitTopSamples (a : CpeAgent) (now : UInt64) (clock : FlowSlot → Option WallClock) :
    a.Alike (a.emitTopSamples now clock).1 := by
  unfold emitTopSamples
  split
  · have hstart : a.Alike { a with flow := { a.flow with lastSampleMs := now } } := ⟨rfl, rfl, rfl⟩
    refine foldl_invariant (P := fun res : CpeAgent × ℤ ↦ a.Alike res.1) ?_ hstart _
    exact fun res i h ↦ h.trans (alike_emitSample res.1 (clock i) i)
  · exact ⟨rfl, rfl, rfl⟩

section Stable

variable {P : CpeAgent → Prop} (hP : FlowStable P) {a : CpeAgent} (h : P a)

include hP h

theorem stable_setFlow {st : CpeFlowState} (hst : st.table = a.flow.table) :
    P { a with flow := st } := by
  have halike : a.Alike { a with flow := st } := ⟨rfl, rfl, hst⟩
  exact hP.alike halike h

theorem stable_drainFd (events : Option (List FlowInput)) : P (a.drainFd events).1 := by
  cases events with
  | none => exact h
  | some xs =>
    rw [drainFd]
    refine foldl_invariant (P := fun res : CpeAgent × ℤ ↦ P res.1) ?_ h xs
    exact fun res x hres ↦ hP.event x hres

theorem stable_flowPoll (env : FlowTickEnv) : P (a.flowPoll env).1 := by
  have hopen := stable_setFlow hP h (flowOpen_table a.flow env.nfctOpen env.nfctOpenDump)
  unfold flowPoll
  split
  · exact h
  · split
    · dsimp only
      split
      · exact hopen
      · exact stable_drainFd hP hopen _
    · exact stable_drainFd hP h _

theorem stable_maybeDump (env : FlowTickEnv) : P (a.maybeDump env).1 := by
  have hmark : P { a with flow := { a.flow with
      lastDumpMs := env.now, dumps := a.flow.dumps + 1 } } := stable_setFlow hP h rfl
  unfold maybeDump
  split
  · exact h
  · split
    · exact h
    · split
      · exact h
      · split
        · exact h
        · exact stable_drainFd hP hmark _

theorem stable_flowPass (env : FlowTickEnv) : P (a.flowPass env).1 := by
  have hstart : P { a with flow := { a.flow with lastTickMs := env.now } } :=
    stable_setFlow hP h rfl
  exact hP.alike (alike_emitTopSamples _ _ _)
    (stable_maybeDump hP (stable_flowPoll hP hstart env) env)

theorem stable_flowTick (env : FlowTickEnv) : P (a.flowTick env).1 := by
  have hopen := stable_setFlow hP h (flowOpen_table a.flow env.nfctOpen env.nfctOpenDump)
  unfold flowTick
  split
  · exact stable_flowPass hP h env
  · split
    · dsimp only
      split
      · exact hopen
      · exact stable_flowPass hP hopen env
    · exact h

end Stable

theorem Sane.flowTick {a : CpeAgent} (h : a.Sane) (env : FlowTickEnv) : (a.flowTick env).1.Sane :=
  stable_flowTick flowStable_sane h env

theorem flowTick_cfg (a : CpeAgent) (env : FlowTickEnv) : (a.flowTick env).1.cfg = a.cfg :=
  stable_flowTick (flowStable_cfg a.cfg) rfl env

/-! ## The TCP collector -/

theorem Sane.setTcp {a : CpeAgent} (h : a.Sane) {st : CpeTcpState} (hst : st.snap.Worded) :
    Sane { a with tcp := st } :=
  ⟨⟨h.cfg, hst, h.flow⟩, h.sized⟩

section TcpStable

variable {P : CpeTcpSnapshot → Prop} (hP : TcpStable P)

include hP

theorem stable_tcpOpen {st : CpeTcpState} (h : P st.snap) (cfg : CpeAgentConfig)
    (res : OpenResult) : P (cpeAgentTcpOpen cfg st res).1.snap := by
  unfold cpeAgentTcpOpen
  split
  · exact h
  · dsimp only
    split
    · exact hP.numbers h rfl rfl rfl
    · split <;> exact hP.numbers h rfl rfl rfl

theorem stable_readDatagrams {a : CpeAgent} (h : P a.tcp.snap)
    (ds : List (List NflogPayload × ℤ)) :
    ∃ st, (a.readDatagrams ds).1 = { a with tcp := st } ∧ P st.snap := by
  rw [readDatagrams]
  refine foldl_invariant
    (P := fun res : CpeAgent × ℤ ↦ ∃ st, res.1 = { a with tcp := st } ∧ P st.snap) ?_
    ⟨a.tcp, rfl, h⟩ ds
  rintro ⟨b, n⟩ d ⟨st, rfl, hst⟩
  refine ⟨_, rfl, ?_⟩
  exact foldl_invariant (P := fun st : CpeTcpState ↦ P st.snap)
    (fun st p hst ↦ hP.tcpStep hst (.nflog p.bytes p.nowMs p.clock)) hst d.1

theorem stable_tcpPoll {a : CpeAgent} (h : P a.tcp.snap) (maxMsgs : UInt32) (env : TcpPollEnv) :
    ∃ st, (a.tcpPoll maxMsgs env).1 = { a with tcp := st } ∧ P st.snap := by
  unfold tcpPoll
  split
  · exact ⟨a.tcp, rfl, h⟩
  · have hst : P (if a.tcp.fd.isNone = true then cpeAgentTcpOpen a.cfg a.tcp env.nflogOpen
        else (a.tcp, 0)).1.snap := by
      split
      · exact stable_tcpOpen hP h a.cfg env.nflogOpen
      · exact h
    generalize (if a.tcp.fd.isNone = true then cpeAgentTcpOpen a.cfg a.tcp env.nflogOpen
      else (a.tcp, 0)) = res at hst ⊢
    dsimp only
    split
    · exact ⟨_, rfl, hst⟩
    · split
      · exact ⟨_, rfl, hst⟩
      · exact stable_readDatagrams hP (a := { a with tcp := res.1 }) hst _

/-- What is left of an emission, but for the lines that are spooled: a new time stamp. -/
theorem stable_tcpEmit {a : CpeAgent} (h : P a.tcp.snap) (topN : UInt32)
    (clock : Option WallClock) (nowMs : UInt64) :
    ∃ st, P st.snap ∧ Alike { a with tcp := st } (a.tcpEmit topN clock nowMs).1 := by
  refine ⟨{ a.tcp with snap := { a.tcp.snap with tsIso := copyStr 40 (isoNow clock) } },
    hP.stamp clock h, ?_⟩
  unfold tcpEmit
  dsimp only
  split
  · exact ⟨rfl, rfl, rfl⟩
  · -- three batches of lines, and the time of the emission
    have hlast : ∀ b : CpeAgent, b.Alike { b with tcp := { b.tcp with lastEmitMs := nowMs } } :=
      fun b ↦ ⟨rfl, rfl, rfl⟩
    exact (((alike_pushRows _ _).trans (alike_pushRows _ _)).trans (alike_pushRows _ _)).trans
      (hlast _)

end TcpStable

theorem Sane.tcpPoll {a : CpeAgent} (h : a.Sane) (maxMsgs : UInt32) (env : TcpPollEnv) :
    (a.tcpPoll maxMsgs env).1.Sane := by
  obtain ⟨st, heq, hst⟩ := stable_tcpPoll tcpStable_worded h.tcp maxMsgs env
  rw [heq]
  exact h.setTcp hst

theorem Sane.tcpEmit {a : CpeAgent} (h : a.Sane) (topN : UInt32) (clock : Option WallClock)
    (nowMs : UInt64) : (a.tcpEmit topN clock nowMs).1.Sane := by
  obtain ⟨st, hst, halike⟩ := stable_tcpEmit tcpStable_worded h.tcp topN clock nowMs
  exact (h.setTcp hst).alike halike

theorem Sane.configure {a : CpeAgent} (h : a.Sane) (cfg : SizedConfig) (env : ApplyEnv) :
    (a.agentStep (.configure cfg.1 env)).Sane := by
  refine ⟨h.toWorded.agentStep _, ?_⟩
  have hnorm : (normalizeConfig cfg.1).Sized := { cfg.2 with }
  have hinstall : ∀ b : CpeAgent, (b.installConfig (normalizeConfig cfg.1) env).cfg.Sized := by
    intro b
    rw [installConfig, eqPush_cfg]
    exact { hnorm with }
  rw [agentStep]
  rcases a.applyConfig_cases cfg.1 env with ⟨err, -, hres⟩ | ⟨-, -, -, bytes, hres⟩ |
    ⟨-, -, hres⟩ | ⟨-, -, -, cap, slots, hres⟩
  · rw [hres, eqPush_cfg]
    exact h.sized
  · rw [hres, eqPush_cfg, eqPush_cfg]
    exact h.sized
  · rw [hres]
    exact hinstall _
  · rw [hres]
    exact hinstall _

end CpeAgent

/-! ## The samples -/

/-- A sample as it is kept: made of a fixed word, a time stamp and texts cut to size. -/
structure CpePerfSample.Sane (x : CpePerfSample) : Prop where
  probe : Word x.probe
  probe_lt : x.probe.length < 32
  target_lt : x.target.length < 64
  tsIso : Word x.tsIso
  tsIso_lt : x.tsIso.length < 40
  metaText_lt : x.metaText.length < 128
  finite : x.Finite

theorem CpePerfSample.Sane.of_copied {x : CpePerfSample} (word : String) (hword : Word (ascii word))
    (hlen : (ascii word).length < 32) (hprobe : x.probe = ascii word) {target ts text : CStr}
    (htarget : x.target = copyStr cpePerfTargetMax target) (hts : Word ts)
    (hstamp : x.tsIso = copyStr cpePerfTsMax ts) (hmeta : x.metaText = copyStr cpePerfMetaMax text)
    (hfinite : x.Finite) : x.Sane where
  probe := hprobe ▸ hword
  probe_lt := hprobe ▸ hlen
  target_lt := htarget ▸ length_copyStr_lt (by decide) _
  tsIso := hstamp ▸ hts.copyStr _
  tsIso_lt := hstamp ▸ length_copyStr_lt (by decide) _
  metaText_lt := hmeta ▸ length_copyStr_lt (by decide) _
  finite := hfinite

theorem traceLoop_keeps (target : CStr) (reply : ℕ → ℕ → TraceReply) (ttl left : ℕ)
    (tr : CpeTraceResult) :
    (traceLoop target reply ttl left tr).tsIso = tr.tsIso ∧
      (traceLoop target reply ttl left tr).method = tr.method := by
  induction left generalizing ttl tr with
  | zero => exact ⟨rfl, rfl⟩
  | succ left ih =>
    have hprobe : ∀ (th : CpeTraceResult × CpeTraceHop) (p : ℕ),
        th.1.tsIso = tr.tsIso ∧ th.1.method = tr.method →
        (traceProbe target th (reply ttl p)).1.tsIso = tr.tsIso ∧
          (traceProbe target th (reply ttl p)).1.method = tr.method := by
      rintro ⟨tr', h⟩ p hth
      cases reply ttl p <;> exact hth
    have hfold := foldl_invariant (P := fun th : CpeTraceResult × CpeTraceHop ↦
      th.1.tsIso = tr.tsIso ∧ th.1.method = tr.method) hprobe (s := (tr, { hop := ttl }))
      ⟨rfl, rfl⟩ (List.range tr.probesPerHop)
    rw [traceLoop]
    generalize (List.range tr.probesPerHop).foldl
      (fun th p ↦ traceProbe target th (reply ttl p)) (tr, { hop := ttl }) = th at hfold ⊢
    obtain ⟨tr', h⟩ := th
    dsimp only at hfold ⊢
    split
    · exact hfold
    · obtain ⟨hts, hmethod⟩ := ih (ttl + 1) { tr' with hops := tr'.hops ++ [h] }
      exact ⟨hts.trans hfold.1, hmethod.trans hfold.2⟩

theorem Probe.sane_head {p : Probe} {cfg : CpeAgentConfig} {clock : Option WallClock}
    (hfinite : ∀ x ∈ p.samples cfg clock, x.Finite) {x : CpePerfSample}
    (hx : (p.samples cfg clock).head? = some x) : x.Sane := by
  have hfin := hfinite x (List.mem_of_head? hx)
  have hts := word_isoNow clock
  cases p with
  | demoPing st =>
    obtain rfl := Option.some_inj.mp hx
    exact .of_copied "ping" (by decide) (by decide) rfl rfl hts rfl rfl hfin
  | livePing rtt isRaw =>
    rw [Probe.samples] at hx
    split at hx
    · exact absurd hx (by simp)
    · obtain rfl := Option.some_inj.mp hx
      exact .of_copied "ping" (by decide) (by decide) rfl rfl hts rfl rfl hfin
  | demoArping ipv4Opt avg =>
    rw [Probe.samples] at hx
    split at hx
    · exact absurd hx (by simp)
    · obtain rfl := Option.some_inj.mp hx
      exact .of_copied "arping" (by decide) (by decide) rfl rfl hts rfl rfl hfin
  | arping ipv4Opt ifnameOpt picked reply =>
    rw [Probe.samples] at hx
    split at hx
    · exact absurd hx (by simp)
    · obtain rfl := Option.some_inj.mp hx
      exact .of_copied "arping" (by decide) (by decide) rfl rfl hts rfl rfl hfin
  | trace mtr targetOpt maxTtl probesPerHop udp reply =>
    rw [Probe.samples] at hx
    split at hx
    · exact absurd hx (by simp)
    · obtain rfl := Option.some_inj.mp hx
      have hname : Word (ascii (if mtr then "mtr" else "traceroute")) ∧
          (ascii (if mtr then "mtr" else "traceroute")).length < 32 := by
        cases mtr <;> decide
      refine .of_copied _ hname.1 hname.2 rfl rfl ?_ rfl rfl hfin
      rw [runTrace, (traceLoop_keeps _ _ _ _ _).1]
      exact hts.copyStr _
  | demoTraceroute targetOpt maxTtl =>
    obtain rfl := Option.some_inj.mp hx
    exact .of_copied "traceroute" (by decide) (by decide) rfl rfl hts rfl rfl hfin

/-! ## Runs -/

namespace IpcState

/-- The agent is sane, and so is the sample it keeps. -/
structure Sane (s : IpcState) : Prop where
  agent : s.agent.Sane
  last : ∀ x ∈ s.last, x.Sane

theorem sane_create : create.Sane :=
  ⟨CpeAgent.sane_create, fun _ hx ↦ absurd hx (by simp [create])⟩

theorem Sane.serve {s : IpcState} (h : s.Sane) (env : IpcEnv) (req : CStr) (verb : IpcVerb) :
    (s.serve env req verb).1.Sane := by
  cases verb with
  | emit => exact ⟨h.agent.alike (CpeAgent.alike_emitFlush _ _), h.last⟩
  | tcpPoll => exact ⟨h.agent.tcpPoll _ _, h.last⟩
  | flowTick | flowStats | flowList => exact ⟨h.agent.flowTick _, h.last⟩
  | tcpEmit =>
    rw [IpcState.serve]
    dsimp only
    exact ⟨h.agent.tcpEmit _ _ _, h.last⟩
  | tcpReset => exact ⟨h.agent.setTcp (tcpStable_worded.reset _ env.clock), h.last⟩
  | lastSample =>
    rw [IpcState.serve]
    split <;> exact h
  | ping | help | status | config | latency | spool | tcpStats | tcpByIp | tcpByPrefix => exact h

theorem Sane.answer {s : IpcState} (h : s.Sane) (env : IpcEnv) (req : CStr) :
    (s.answer env req).1.Sane := by
  unfold IpcState.answer
  split
  · exact h
  · split
    · exact h
    · exact h.serve env req _

theorem Sane.hostStep {s : IpcState} (h : s.Sane) (op : HostOp) : (s.hostStep op).Sane := by
  cases op with
  | configure cfg env => exact ⟨h.agent.configure cfg env, h.last⟩
  | flow x => exact ⟨h.agent.applyEvent x, h.last⟩
  | tcp op => exact ⟨⟨h.agent.toWorded.agentStep (.tcp op), h.agent.sized⟩, h.last⟩
  | tick env => exact ⟨h.agent.flowTick env, h.last⟩
  | probe p clock =>
    refine ⟨h.agent.alike (CpeAgent.alike_pushRows _ _), fun x hx ↦ ?_⟩
    rcases Option.or_eq_some_iff.mp hx with hhead | ⟨-, hlast⟩
    · exact Probe.sane_head (p.2 _ _) hhead
    · exact h.last x hlast
  | request env req => exact h.answer env req

theorem sane_hostRun (ops : List HostOp) : (create.hostRun ops).Sane :=
  foldl_invariant (fun _ op h ↦ h.hostStep op) sane_create ops

/-! ## The TCP snapshot -/

section TcpStable

variable {P : CpeTcpSnapshot → Prop} (hP : TcpStable P)

include hP

theorem stable_serve {s : IpcState} (h : P s.agent.tcp.snap) (env : IpcEnv) (req : CStr)
    (verb : IpcVerb) : P (s.serve env req verb).1.agent.tcp.snap := by
  cases verb with
  | emit => exact (CpeAgent.alike_emitFlush s.agent env.emit).snap ▸ h
  | tcpPoll =>
    obtain ⟨st, heq, hst⟩ := CpeAgent.stable_tcpPoll hP h ((jsonGetU32 req "max").getD 64) env.tcp
    rw [serve]
    dsimp only
    rw [heq]
    exact hst
  | flowTick | flowStats | flowList =>
    exact CpeAgent.stable_flowTick (CpeAgent.flowStable_snap P) h env.flow
  | tcpEmit =>
    obtain ⟨st, hst, halike⟩ :=
      CpeAgent.stable_tcpEmit hP h ((jsonGetU32 req "top_n").getD 0) env.clock env.now
    rw [serve]
    dsimp only
    exact halike.snap ▸ hst
  | tcpReset => exact hP.reset _ env.clock
  | lastSample =>
    rw [serve]
    split <;> exact h
  | ping | help | status | config | latency | spool | tcpStats | tcpByIp | tcpByPrefix => exact h

theorem stable_hostStep {s : IpcState} (h : P s.agent.tcp.snap) (op : HostOp) :
    P (s.hostStep op).agent.tcp.snap := by
  cases op with
  | configure cfg env => exact hP.applyConfig h cfg.1 env
  | flow x => exact (CpeAgent.flowStable_snap P).event x h
  | tcp op => exact hP.tcpStep h op
  | tick env => exact CpeAgent.stable_flowTick (CpeAgent.flowStable_snap P) h env
  | probe p clock => exact (CpeAgent.alike_pushRows s.agent _).snap ▸ h
  | request env req =>
    rw [hostStep, handleRequest]
    dsimp only
    unfold answer
    split
    · exact h
    · split
      · exact h
      · exact stable_serve hP h env req _

theorem stable_hostRun (h : P create.agent.tcp.snap) (ops : List HostOp) :
    P (create.hostRun ops).agent.tcp.snap :=
  foldl_invariant (P := fun s : IpcState ↦ P s.agent.tcp.snap)
    (fun _ op hs ↦ stable_hostStep hP hs op) h ops

end TcpStable

theorem filed_hostRun (ops : List HostOp) : (create.hostRun ops).agent.tcp.snap.Filed :=
  stable_hostRun tcpStable_filed ⟨Nat.zero_le _, Nat.zero_le _, by decide, List.forall_mem_nil _,
    List.forall_mem_nil _, List.nodup_nil, List.nodup_nil⟩ ops

end IpcState

end NetForensics

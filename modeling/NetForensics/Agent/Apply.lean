import NetForensics.Agent.Spool

/-!
# Applying a configuration

`cpe_agent_apply_config` works on a private copy: it fills in defaults, validates, resizes the ring
of spooled lines, and only then installs the copy and rebinds the collectors. It can fail at two
points, when validation rejects the copy and when the new ring cannot be allocated.
-/

namespace NetForensics

/-- Opening a netlink socket: a descriptor, or the text of the error. -/
abbrev OpenResult := Except CStr ℕ

/-- Outcomes of the calls `cpe_agent_apply_config` makes. -/
structure ApplyEnv where
  /-- `cpe_host_alloc` -/
  alloc : Bool
  /-- `nflog_netlink_open` -/
  nflogOpen : OpenResult
  /-- `nfct_netlink_open` -/
  nfctOpen : OpenResult
  /-- `nfct_netlink_open_dump` -/
  nfctOpenDump : OpenResult

/-- What `cpe_agent_reload_config` finds: no path, a file that does not load, or a configuration. -/
inductive LoadedConfig where
  | noPath
  | failed
  | loaded (cfg : CpeAgentConfig)

/-! ## Collectors -/

/-- `cpe_agent_tcp_close` -/
def cpeAgentTcpClose (st : CpeTcpState) : CpeTcpState := { st with fd := none, openOk := false }

/-- The settings `cpe_agent_tcp_open` takes over before it opens the socket. -/
def tcpSettings (cfg : CpeAgentConfig) (st : CpeTcpState) : CpeTcpState :=
  let group := if cfg.tcpNflogGroup ≠ 0 then cfg.tcpNflogGroup else 5
  let prefixLen := if cfg.tcpPrefixLen ≠ 0 then cfg.tcpPrefixLen else 24
  { st with
    group := group
    copyRange := if cfg.tcpNflogSize ≠ 0 then cfg.tcpNflogSize else 60
    prefixLen := prefixLen
    emitIntervalMs := if cfg.tcpEmitIntervalMs ≠ 0 then cfg.tcpEmitIntervalMs else 10000
    emitTopN := if cfg.tcpEmitTopN ≠ 0 then cfg.tcpEmitTopN else 20
    enabled := cfg.tcpStatsEnabled
    snap := { st.snap with nflogGroup := group.toUInt32, prefixLen := prefixLen } }

/-- `cpe_agent_tcp_open` -/
def cpeAgentTcpOpen (cfg : CpeAgentConfig) (st : CpeTcpState) (res : OpenResult) :
    CpeTcpState × ℤ :=
  if st.fd.isSome then (st, 0)
  else
    let st := tcpSettings cfg st
    if !st.enabled then (st, 0)
    else
      match res with
      | .error err =>
        ({ st with
          openErr := if err ≠ [] then copyStr 96 err else ascii "nflog open failed"
          openOk := false }, -1)
      | .ok fd => ({ st with fd := some fd, openOk := true, openErr := [] }, 0)

/-- `cpe_agent_flow_close` -/
def cpeAgentFlowClose (st : CpeFlowState) : CpeFlowState :=
  { st with fd := none, dumpFd := none, enabled := false }

/-- `cpe_agent_flow_open` -/
def cpeAgentFlowOpen (st : CpeFlowState) (res dump : OpenResult) : CpeFlowState × ℤ :=
  if st.fd.isSome then (st, 0)
  else
    match res with
    | .error err =>
      ({ st with
        fd := none
        openOk := false
        openErr := copyStr 96 (if err ≠ [] then err else ascii "nfct open failed") }, -1)
    | .ok fd =>
      ({ st with
        fd := some fd
        dumpFd := match dump with
          | .ok d => some d
          | .error _ => none
        openOk := true
        openErr := []
        enabled := true }, 0)

/-- The TCP part of `cpe_agent_apply_config`. -/
def rebindTcp (old cfg : CpeAgentConfig) (st : CpeTcpState) (res : OpenResult) : CpeTcpState :=
  if cfg.tcpStatsEnabled then
    if !old.tcpStatsEnabled || old.tcpNflogGroup != cfg.tcpNflogGroup || st.fd.isNone then
      (cpeAgentTcpOpen cfg (cpeAgentTcpClose st) res).1
    else
      let prefixLen := if cfg.tcpPrefixLen ≠ 0 then cfg.tcpPrefixLen else 24
      { st with
        enabled := true
        prefixLen := prefixLen
        emitIntervalMs := if cfg.tcpEmitIntervalMs ≠ 0 then cfg.tcpEmitIntervalMs else 10000
        emitTopN := if cfg.tcpEmitTopN ≠ 0 then cfg.tcpEmitTopN else 20
        snap := { st.snap with
          prefixLen := prefixLen
          nflogGroup := if cfg.tcpNflogGroup ≠ 0 then cfg.tcpNflogGroup.toUInt32 else 5 } }
  else if old.tcpStatsEnabled then { cpeAgentTcpClose st with enabled := false }
  else st

/-- The flow settings `cpe_agent_apply_config` installs. -/
def flowSettings (cfg : CpeAgentConfig) (st : CpeFlowState) : CpeFlowState :=
  let maxFlows := if cfg.flowMaxFlows ≠ 0 then cfg.flowMaxFlows else UInt32.ofNat cpeFlowMax
  { st with
    pollIntervalMs := if cfg.flowPollIntervalMs ≠ 0 then cfg.flowPollIntervalMs else 200
    dumpIntervalMs := if cfg.flowDumpIntervalMs ≠ 0 then cfg.flowDumpIntervalMs else 200
    sampleEmitMs := if cfg.flowSampleEmitMs ≠ 0 then cfg.flowSampleEmitMs else 2000
    sampleTopN := if cfg.flowSampleTopN ≠ 0 then cfg.flowSampleTopN else 32
    maxFlows := if UInt32.ofNat cpeFlowMax < maxFlows then UInt32.ofNat cpeFlowMax else maxFlows
    joinUpdate := cfg.flowJoinUpdate
    emitDestroy := cfg.flowEmitDestroy
    emitNew := cfg.flowEmitNew }

/-- The conntrack part of `cpe_agent_apply_config`. -/
def rebindFlow (old cfg : CpeAgentConfig) (st : CpeFlowState) (res dump : OpenResult) :
    CpeFlowState :=
  let st := flowSettings cfg st
  if cfg.flowAcctEnabled then
    if !old.flowAcctEnabled || st.fd.isNone then
      (cpeAgentFlowOpen (cpeAgentFlowClose st) res dump).1
    else { st with enabled := true }
  else if old.flowAcctEnabled then { cpeAgentFlowClose st with enabled := false }
  else st

namespace CpeAgent

/-! ## The operation -/

/-- The part of `cpe_agent_apply_config` after the last point where it can fail. -/
def installConfig (a : CpeAgent) (cfg : CpeAgentConfig) (env : ApplyEnv) : CpeAgent :=
  eqPush
    { a with
      cfg := { cfg with generation := a.cfg.generation + 1 }
      tcp := rebindTcp a.cfg cfg a.tcp env.nflogOpen
      flow := rebindFlow a.cfg cfg a.flow env.nfctOpen env.nfctOpenDump }
    .configApplied (ascii "ok") 0 0

/-- `cpe_agent_apply_config` -/
def applyConfig (a : CpeAgent) (cfg : CpeAgentConfig) (env : ApplyEnv) : CpeAgent × ℤ :=
  let shadow := normalizeConfig cfg
  match cpeAgentConfigValidate shadow with
  | some err => (a.eqPush .configRejected (copyStr 128 err) 0 0, -1)
  | none =>
    if shadow.spoolMaxLines ≠ a.spool.ring.cap then
      let (a, ok) := a.ensureSpool shadow.spoolMaxLines env.alloc
      if !ok then (a.eqPush .configRejected (ascii "spool alloc") 0 0, -1)
      else (a.installConfig shadow env, 0)
    else (a.installConfig shadow env, 0)

/-- How a configuration can be applied: refused by validation, refused for want of memory with the
old ring released, or installed, with the old ring or with an empty one. -/
theorem applyConfig_cases (a : CpeAgent) (cfg : CpeAgentConfig) (env : ApplyEnv) :
    (∃ err, cpeAgentConfigValidate (normalizeConfig cfg) = some err ∧
      a.applyConfig cfg env = (a.eqPush .configRejected (copyStr 128 err) 0 0, -1)) ∨
    (cpeAgentConfigValidate (normalizeConfig cfg) = none ∧
      (normalizeConfig cfg).spoolMaxLines ≠ a.spool.ring.cap ∧ env.alloc = false ∧
      ∃ bytes, a.applyConfig cfg env
        = ((a.freeSpool.eqPush .needAlloc (ascii "spool") bytes 0).eqPush .configRejected
            (ascii "spool alloc") 0 0, -1)) ∨
    (cpeAgentConfigValidate (normalizeConfig cfg) = none ∧
      (normalizeConfig cfg).spoolMaxLines = a.spool.ring.cap ∧
      a.applyConfig cfg env = (a.installConfig (normalizeConfig cfg) env, 0)) ∨
    (cpeAgentConfigValidate (normalizeConfig cfg) = none ∧
      (normalizeConfig cfg).spoolMaxLines ≠ a.spool.ring.cap ∧ env.alloc = true ∧
      ∃ cap slots, a.applyConfig cfg env
        = (installConfig { a with spool := ⟨true, Ring.blank [] cap, a.spool.drops⟩,
                                  slots := slots } (normalizeConfig cfg) env, 0)) := by
  rw [applyConfig]
  cases hv : cpeAgentConfigValidate (normalizeConfig cfg) with
  | some err => exact Or.inl ⟨err, rfl, rfl⟩
  | none =>
    refine Or.inr ?_
    dsimp only
    by_cases hne : (normalizeConfig cfg).spoolMaxLines = a.spool.ring.cap
    · rw [if_neg (not_not.mpr hne)]
      exact Or.inr (Or.inl ⟨rfl, hne, rfl⟩)
    · obtain ⟨hfail, slots, hok⟩ :=
        ensureSpool_of_ne (spoolMaxLines_of_validate hv).1.ne' hne
      rw [if_pos hne]
      cases env.alloc with
      | false =>
        rw [hfail]
        exact Or.inl ⟨rfl, hne, rfl, _, rfl⟩
      | true =>
        rw [hok]
        exact Or.inr (Or.inr ⟨rfl, hne, rfl, _, slots, rfl⟩)

/-- The candidate `cpe_agent_reload_config` applies; an empty override leaves the router id alone,
and one that does not fit its field ends the reload. -/
def reloadCandidate (a : CpeAgent) (file : LoadedConfig) (routerIdOverride : CStr) :
    Option CpeAgentConfig :=
  let base := match file with
    | .noPath => some { a.cfg with generation := 0 }
    | .failed => none
    | .loaded cfg => some cfg
  if routerIdOverride = [] then base
  else if 64 ≤ routerIdOverride.length then none
  else base.map fun cfg ↦ { cfg with routerId := routerIdOverride }

/-- `cpe_agent_reload_config` -/
def reloadConfig (a : CpeAgent) (file : LoadedConfig) (routerIdOverride : CStr) (env : ApplyEnv) :
    CpeAgent × ℤ :=
  match a.reloadCandidate file routerIdOverride with
  | none => (a, -1)
  | some cfg => a.applyConfig cfg env

end CpeAgent

end NetForensics

import NetForensics.Agent.Apply
import NetForensics.Util.Run

/-!
# The sockets behind the collectors

Each collector reads from one netlink socket, and the parameters of the socket are fixed by the call
that opens it. `cpe_agent_apply_config` installs the new configuration first and then decides
whether to open again, for NFLOG by comparing the groups and for conntrack not by any parameter. A
kept socket therefore goes on with the copy range, or the choice of multicast groups, of the
configuration it was opened under.

The calls are carried along as ghost state: `Bound` is an agent with the last open call of each
kind that was made for it.
-/

namespace NetForensics

/-! ## The calls that open sockets -/

/-- The arguments of `nflog_netlink_open`, if `cpe_agent_tcp_open` gets as far as calling it. -/
def nflogArgs (cfg : CpeAgentConfig) (st : CpeTcpState) : Option (UInt16 × UInt32) :=
  if st.fd.isSome then none
  else
    let st := tcpSettings cfg st
    if st.enabled then some (st.group, st.copyRange) else none

/-- The arguments of `nflog_netlink_open`, if the TCP part of `cpe_agent_apply_config` calls it. -/
def rebindTcpArgs (old cfg : CpeAgentConfig) (st : CpeTcpState) : Option (UInt16 × UInt32) :=
  if cfg.tcpStatsEnabled then
    if !old.tcpStatsEnabled || old.tcpNflogGroup != cfg.tcpNflogGroup || st.fd.isNone then
      nflogArgs cfg (cpeAgentTcpClose st)
    else none
  else none

/-- The argument of `nfct_netlink_open`, if `cpe_agent_flow_open` calls it. -/
def nfctArgs (st : CpeFlowState) : Option Bool :=
  if st.fd.isSome then none else some st.joinUpdate

/-- The argument of `nfct_netlink_open`, if the conntrack part of `cpe_agent_apply_config` calls
it. -/
def rebindFlowArgs (old cfg : CpeAgentConfig) (st : CpeFlowState) : Option Bool :=
  let st := flowSettings cfg st
  if cfg.flowAcctEnabled then
    if !old.flowAcctEnabled || st.fd.isNone then nfctArgs (cpeAgentFlowClose st) else none
  else none

theorem rebindTcp_of_no_call {old cfg : CpeAgentConfig} {st : CpeTcpState}
    (h : rebindTcpArgs old cfg st = none) (res res' : OpenResult) :
    rebindTcp old cfg st res = rebindTcp old cfg st res' := by
  rw [rebindTcpArgs] at h
  rw [rebindTcp, rebindTcp]
  split at h
  · rename_i hon
    rw [if_pos hon, if_pos hon]
    split at h
    · -- reached only after a close, so the socket would be opened
      have henabled : (tcpSettings cfg (cpeAgentTcpClose st)).enabled = true := hon
      rw [nflogArgs, if_neg (by simp [cpeAgentTcpClose])] at h
      simp only [henabled, if_true] at h
      exact absurd h (by simp)
    · rename_i hkeep
      rw [if_neg hkeep, if_neg hkeep]
  · rename_i hoff
    rw [if_neg hoff, if_neg hoff]

theorem rebindFlow_of_no_call {old cfg : CpeAgentConfig} {st : CpeFlowState}
    (h : rebindFlowArgs old cfg st = none) (res res' dump dump' : OpenResult) :
    rebindFlow old cfg st res dump = rebindFlow old cfg st res' dump' := by
  rw [rebindFlowArgs] at h
  rw [rebindFlow, rebindFlow]
  dsimp only at h ⊢
  split at h
  · rename_i hon
    rw [if_pos hon, if_pos hon]
    split at h
    · exact absurd h (by simp [nfctArgs, cpeAgentFlowClose])
    · rename_i hkeep
      rw [if_neg hkeep, if_neg hkeep]
  · rename_i hoff
    rw [if_neg hoff, if_neg hoff]

/-- The last call of a kind, after a call with these arguments, if any, has returned `fd`. -/
def lastCall {α : Type*} (args : Option α) (fd : ℕ) (last : Option (ℕ × α)) : Option (ℕ × α) :=
  match args with
  | some x => some (fd, x)
  | none => last

/-! ## What it means for a socket to match -/

/-- `tcp_nflog_group`, with zero standing for the default. -/
def CpeAgentConfig.nflogGroup (cfg : CpeAgentConfig) : UInt16 :=
  if cfg.tcpNflogGroup ≠ 0 then cfg.tcpNflogGroup else 5

/-- `tcp_nflog_size`, with zero standing for the default. -/
def CpeAgentConfig.copyRange (cfg : CpeAgentConfig) : UInt32 :=
  if cfg.tcpNflogSize ≠ 0 then cfg.tcpNflogSize else 60

/-- The NFLOG socket was opened for this configuration, or there is none and none is wanted. -/
def TcpMatches (cfg : CpeAgentConfig) (st : CpeTcpState)
    (call : Option (ℕ × UInt16 × UInt32)) : Prop :=
  (cfg.tcpStatsEnabled = true →
    ∃ fd, st.fd = some fd ∧ call = some (fd, cfg.nflogGroup, cfg.copyRange)) ∧
  (cfg.tcpStatsEnabled = false → st.fd = none)

/-- The conntrack event socket was opened for this configuration, or there is none, nor one for
dumps, and none is wanted. -/
def FlowMatches (cfg : CpeAgentConfig) (st : CpeFlowState) (call : Option (ℕ × Bool)) : Prop :=
  (cfg.flowAcctEnabled = true →
    ∃ fd, st.fd = some fd ∧ call = some (fd, cfg.flowJoinUpdate)) ∧
  (cfg.flowAcctEnabled = false → st.fd = none ∧ st.dumpFd = none)

section Rebind

variable {old cfg : CpeAgentConfig}

/-- A matching NFLOG socket still matches after a rebind unless it is kept under another copy
range. -/
theorem tcpMatches_rebind_iff {st : CpeTcpState} {call : Option (ℕ × UInt16 × UInt32)}
    (h : TcpMatches old st call) (fd : ℕ) :
    TcpMatches cfg (rebindTcp old cfg st (.ok fd)) (lastCall (rebindTcpArgs old cfg st) fd call) ↔
      (cfg.tcpStatsEnabled = true → old.tcpStatsEnabled = true →
        old.tcpNflogGroup = cfg.tcpNflogGroup → old.copyRange = cfg.copyRange) := by
  rw [TcpMatches, rebindTcp, rebindTcpArgs]
  by_cases hon : cfg.tcpStatsEnabled = true
  · rw [if_pos hon, if_pos hon]
    by_cases hkeep : old.tcpStatsEnabled = true ∧ old.tcpNflogGroup = cfg.tcpNflogGroup
    · obtain ⟨fd₀, hfd, hcall⟩ := h.1 hkeep.1
      have hcond : ¬ (!old.tcpStatsEnabled || old.tcpNflogGroup != cfg.tcpNflogGroup ||
          st.fd.isNone) = true := by
        rw [hkeep.1, hkeep.2, hfd]
        simp
      have hgroup : old.nflogGroup = cfg.nflogGroup := by
        rw [CpeAgentConfig.nflogGroup, CpeAgentConfig.nflogGroup, hkeep.2]
      rw [if_neg hcond, if_neg hcond, lastCall, hcall, hgroup]
      constructor
      · rintro ⟨hmatch, -⟩ - - -
        obtain ⟨fd₁, -, hargs⟩ := hmatch hon
        rw [Option.some_inj, Prod.mk.injEq, Prod.mk.injEq] at hargs
        exact hargs.2.2
      · intro hsame
        refine ⟨fun _ ↦ ⟨fd₀, hfd, ?_⟩, fun hoff ↦ absurd hon (by rw [hoff]; decide)⟩
        rw [hsame hon hkeep.1 hkeep.2]
    · have hcond : (!old.tcpStatsEnabled || old.tcpNflogGroup != cfg.tcpNflogGroup ||
          st.fd.isNone) = true := by
        by_cases hwas : old.tcpStatsEnabled = true
        · have hne : (old.tcpNflogGroup != cfg.tcpNflogGroup) = true :=
            bne_iff_ne.mpr fun heq ↦ hkeep ⟨hwas, heq⟩
          rw [hne, Bool.or_true, Bool.true_or]
        · rw [Bool.not_eq_true] at hwas
          rw [hwas, Bool.not_false, Bool.true_or, Bool.true_or]
      have hargs : nflogArgs cfg (cpeAgentTcpClose st) = some (cfg.nflogGroup, cfg.copyRange) := by
        simp only [nflogArgs, cpeAgentTcpClose, tcpSettings, hon, CpeAgentConfig.nflogGroup,
          CpeAgentConfig.copyRange, Option.isSome_none, Bool.false_eq_true, if_false, if_true]
      have hopen : (cpeAgentTcpOpen cfg (cpeAgentTcpClose st) (.ok fd)).1.fd = some fd := by
        simp only [cpeAgentTcpOpen, cpeAgentTcpClose, tcpSettings, hon, Option.isSome_none,
          Bool.false_eq_true, if_false, Bool.not_true]
      rw [if_pos hcond, if_pos hcond, hargs, lastCall]
      exact iff_of_true
        ⟨fun _ ↦ ⟨fd, hopen, rfl⟩, fun hoff ↦ absurd hon (by rw [hoff]; decide)⟩
        fun _ hwas heq ↦ absurd ⟨hwas, heq⟩ hkeep
  · rw [if_neg hon]
    refine iff_of_true ⟨fun h ↦ absurd h hon, fun _ ↦ ?_⟩ fun h ↦ absurd h hon
    by_cases hwas : old.tcpStatsEnabled = true
    · rw [if_pos hwas]
      rfl
    · rw [if_neg hwas]
      exact h.2 (Bool.not_eq_true _ ▸ hwas)

/-- A matching conntrack socket still matches after a rebind unless it is kept under another choice
of multicast groups. -/
theorem flowMatches_rebind_iff {st : CpeFlowState} {call : Option (ℕ × Bool)}
    (h : FlowMatches old st call) (fd dumpFd : ℕ) :
    FlowMatches cfg (rebindFlow old cfg st (.ok fd) (.ok dumpFd))
        (lastCall (rebindFlowArgs old cfg st) fd call) ↔
      (cfg.flowAcctEnabled = true → old.flowAcctEnabled = true →
        old.flowJoinUpdate = cfg.flowJoinUpdate) := by
  rw [FlowMatches, rebindFlow, rebindFlowArgs]
  dsimp only
  by_cases hon : cfg.flowAcctEnabled = true
  · rw [if_pos hon, if_pos hon]
    by_cases hwas : old.flowAcctEnabled = true
    · obtain ⟨fd₀, hfd, hcall⟩ := h.1 hwas
      have hfd' : (flowSettings cfg st).fd = some fd₀ := hfd
      have hcond : ¬ (!old.flowAcctEnabled || (flowSettings cfg st).fd.isNone) = true := by
        rw [hwas, hfd']
        simp
      rw [if_neg hcond, if_neg hcond, lastCall, hcall]
      constructor
      · rintro ⟨hmatch, -⟩ - -
        obtain ⟨fd₁, -, hargs⟩ := hmatch hon
        rw [Option.some_inj, Prod.mk.injEq] at hargs
        exact hargs.2
      · intro hsame
        refine ⟨fun _ ↦ ⟨fd₀, hfd', ?_⟩, fun hoff ↦ absurd hon (by rw [hoff]; decide)⟩
        rw [hsame hon hwas]
    · have hcond : (!old.flowAcctEnabled || (flowSettings cfg st).fd.isNone) = true := by
        rw [Bool.not_eq_true] at hwas
        rw [hwas, Bool.not_false, Bool.true_or]
      rw [if_pos hcond, if_pos hcond]
      exact iff_of_true
        ⟨fun _ ↦ ⟨fd, rfl, rfl⟩, fun hoff ↦ absurd hon (by rw [hoff]; decide)⟩
        fun _ h ↦ absurd h hwas
  · rw [if_neg hon]
    refine iff_of_true ⟨fun h ↦ absurd h hon, fun _ ↦ ?_⟩ fun h ↦ absurd h hon
    by_cases hwas : old.flowAcctEnabled = true
    · rw [if_pos hwas]
      exact ⟨rfl, rfl⟩
    · rw [if_neg hwas]
      exact h.2 (Bool.not_eq_true _ ▸ hwas)

end Rebind

/-! ## Runs -/

/-- One call of `cpe_agent_apply_config` for which every netlink open succeeds, with the descriptors
the opens return if they are made. -/
structure ApplyCall where
  cfg : CpeAgentConfig
  /-- `cpe_host_alloc` -/
  alloc : Bool
  nflogFd : ℕ
  nfctFd : ℕ
  dumpFd : ℕ

def ApplyCall.env (c : ApplyCall) : ApplyEnv :=
  ⟨c.alloc, .ok c.nflogFd, .ok c.nfctFd, .ok c.dumpFd⟩

namespace CpeAgent

/-- The candidate passes validation, and the ring it asks for is there or can be had. -/
def Accepts (a : CpeAgent) (c : ApplyCall) : Prop :=
  cpeAgentConfigValidate (normalizeConfig c.cfg) = none ∧
    ((normalizeConfig c.cfg).spoolMaxLines = a.spool.ring.cap ∨ c.alloc = true)

/-- What an accepted call does to the configuration and the collectors. -/
theorem applyConfig_of_accepts {a : CpeAgent} {c : ApplyCall} (h : a.Accepts c) :
    (a.applyConfig c.cfg c.env).2 = 0 ∧
      (a.applyConfig c.cfg c.env).1.cfg
        = { normalizeConfig c.cfg with generation := a.cfg.generation + 1 } ∧
      (a.applyConfig c.cfg c.env).1.tcp
        = rebindTcp a.cfg (normalizeConfig c.cfg) a.tcp (.ok c.nflogFd) ∧
      (a.applyConfig c.cfg c.env).1.flow
        = rebindFlow a.cfg (normalizeConfig c.cfg) a.flow (.ok c.nfctFd) (.ok c.dumpFd) := by
  obtain ⟨hvalid, hring⟩ := h
  rcases a.applyConfig_cases c.cfg c.env with ⟨err, hv, -⟩ | ⟨-, hne, halloc, -⟩ |
    ⟨-, -, hres⟩ | ⟨-, -, -, cap, slots, hres⟩
  · rw [hv] at hvalid
    exact absurd hvalid (by simp)
  · rcases hring with hcap | hok
    · exact absurd hcap hne
    · have hoff : c.alloc = false := halloc
      rw [hoff] at hok
      exact absurd hok Bool.false_ne_true
  · rw [hres, installConfig, eqPush_cfg, eqPush_tcp, eqPush_flow]
    exact ⟨rfl, rfl, rfl, rfl⟩
  · rw [hres, installConfig, eqPush_cfg, eqPush_tcp, eqPush_flow]
    exact ⟨rfl, rfl, rfl, rfl⟩

/-- A refused call leaves the configuration and the collectors alone. -/
theorem applyConfig_of_not_accepts {a : CpeAgent} {c : ApplyCall} (h : ¬ a.Accepts c) :
    (a.applyConfig c.cfg c.env).2 = -1 ∧ (a.applyConfig c.cfg c.env).1.cfg = a.cfg ∧
      (a.applyConfig c.cfg c.env).1.tcp = a.tcp ∧ (a.applyConfig c.cfg c.env).1.flow = a.flow := by
  rcases a.applyConfig_cases c.cfg c.env with ⟨err, -, hres⟩ | ⟨-, -, -, bytes, hres⟩ |
    ⟨hv, hcap, -⟩ | ⟨hv, -, halloc, -⟩
  · rw [hres, eqPush_cfg, eqPush_tcp, eqPush_flow]
    exact ⟨rfl, rfl, rfl, rfl⟩
  · rw [hres, eqPush_cfg, eqPush_cfg, eqPush_tcp, eqPush_tcp, eqPush_flow, eqPush_flow]
    exact ⟨rfl, rfl, rfl, rfl⟩
  · exact absurd ⟨hv, Or.inl hcap⟩ h
  · exact absurd ⟨hv, Or.inr halloc⟩ h

end CpeAgent

/-- An agent with the last `nflog_netlink_open` and the last `nfct_netlink_open` made for it: the
descriptor returned and the arguments. -/
structure Bound where
  agent : CpeAgent
  nflog : Option (ℕ × UInt16 × UInt32)
  nfct : Option (ℕ × Bool)

namespace Bound

def init : Bound := ⟨CpeAgent.create, none, none⟩

/-- `cpe_agent_apply_config`, recording the open calls it makes. -/
def step (b : Bound) (c : ApplyCall) : Bound :=
  let (agent, ret) := b.agent.applyConfig c.cfg c.env
  if ret = 0 then
    let shadow := normalizeConfig c.cfg
    { agent := agent
      nflog := lastCall (rebindTcpArgs b.agent.cfg shadow b.agent.tcp) c.nflogFd b.nflog
      nfct := lastCall (rebindFlowArgs b.agent.cfg shadow b.agent.flow) c.nfctFd b.nfct }
  else { b with agent := agent }

/-- Both collectors match the configuration in force. -/
def Matches (b : Bound) : Prop :=
  TcpMatches b.agent.cfg b.agent.tcp b.nflog ∧ FlowMatches b.agent.cfg b.agent.flow b.nfct

/-- If the call will be accepted, a socket it keeps is wanted with the parameters it has: the NFLOG
socket, kept while the group stays, with the same copy range, and the conntrack socket, kept while
flow accounting stays on, with the same choice of multicast groups. -/
def KeepsParams (b : Bound) (c : ApplyCall) : Prop :=
  b.agent.Accepts c →
    (c.cfg.tcpStatsEnabled = true → b.agent.cfg.tcpStatsEnabled = true →
      b.agent.cfg.tcpNflogGroup = c.cfg.tcpNflogGroup →
        b.agent.cfg.copyRange = c.cfg.copyRange) ∧
    (c.cfg.flowAcctEnabled = true → b.agent.cfg.flowAcctEnabled = true →
      b.agent.cfg.flowJoinUpdate = c.cfg.flowJoinUpdate)

theorem matches_init : init.Matches :=
  ⟨⟨fun h ↦ absurd h Bool.false_ne_true, fun _ ↦ rfl⟩,
    ⟨fun h ↦ absurd h Bool.false_ne_true, fun _ ↦ ⟨rfl, rfl⟩⟩⟩

/-- One call keeps the match exactly when the sockets it keeps are wanted as they are. -/
theorem matches_step_iff (b : Bound) (h : b.Matches) (c : ApplyCall) :
    (b.step c).Matches ↔ b.KeepsParams c := by
  by_cases hacc : b.agent.Accepts c
  · obtain ⟨hret, hcfg, htcp, hflow⟩ := CpeAgent.applyConfig_of_accepts hacc
    rw [step]
    dsimp only
    rw [if_pos hret, Matches, KeepsParams]
    dsimp only
    rw [hcfg, htcp, hflow]
    -- the generation counter is not among the parameters
    exact (and_congr (tcpMatches_rebind_iff h.1 c.nflogFd)
      (flowMatches_rebind_iff h.2 c.nfctFd c.dumpFd)).trans ⟨fun hk _ ↦ hk, fun hk ↦ hk hacc⟩
  · obtain ⟨hret, hcfg, htcp, hflow⟩ := CpeAgent.applyConfig_of_not_accepts hacc
    have hne : ¬ (b.agent.applyConfig c.cfg c.env).2 = 0 := by
      rw [hret]
      decide
    rw [step]
    dsimp only
    rw [if_neg hne, Matches]
    dsimp only
    rw [hcfg, htcp, hflow]
    exact iff_of_true h fun hc ↦ absurd hc hacc

/-- Over every sequence of configurations, the collectors match the configuration in force after
every call if and only if no call keeps a socket under parameters other than those it was opened
with. -/
theorem matches_run_iff (cs : List ApplyCall) :
    AllStates step Matches init cs ↔ AllSteps step KeepsParams init cs :=
  allStates_iff_allSteps matches_step_iff matches_init cs

/-- TCP statistics are switched on, and then the copy range is raised. -/
def raiseCopyRange : List ApplyCall :=
  [⟨{ cpeAgentConfigDefaults with tcpStatsEnabled := true }, true, 3, 4, 5⟩,
    ⟨{ cpeAgentConfigDefaults with tcpStatsEnabled := true, tcpNflogSize := 128 }, true, 6, 7, 8⟩]

/-- The socket opened for 60 bytes stays when 128 are asked for. -/
theorem not_matches_raiseCopyRange : ¬ AllStates step Matches init raiseCopyRange := by
  intro h
  obtain ⟨fd, -, hcall⟩ := h.2.2.1.1 (by decide +kernel)
  have hrange : ∀ call ∈ ((init.step raiseCopyRange[0]).step raiseCopyRange[1]).nflog,
      call.2.2 ≠ ((init.step raiseCopyRange[0]).step raiseCopyRange[1]).agent.cfg.copyRange := by
    decide +kernel
  exact hrange _ hcall rfl

end Bound

end NetForensics

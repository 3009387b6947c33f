import NetForensics.Flow.DestroyLine
import NetForensics.Tcp.Line

/-!
# Runs of the whole agent

An agent is created and then takes configurations, conntrack events, packets and resets, in any
order. Of every state it reaches, the strings of the two collectors can stand between quotes: they
are addresses, identifiers and fixed words (`CpeAgent.Legible`). The strings of the configuration
are whatever was accepted.
-/

namespace NetForensics

open Json

/-- A call that changes the collectors or the configuration. -/
inductive AgentOp where
  | configure (cfg : CpeAgentConfig) (env : ApplyEnv)
  | flow (x : FlowInput)
  | tcp (op : TcpOp)

namespace CpeAgent

def agentStep (a : CpeAgent) : AgentOp → CpeAgent
  | .configure cfg env => (a.applyConfig cfg env).1
  | .flow x => (a.applyEvent x).1
  | .tcp op => { a with tcp := a.tcp.tcpStep op }

def agentRun (a : CpeAgent) (ops : List AgentOp) : CpeAgent := ops.foldl agentStep a

end CpeAgent

/-! ## The flow table -/

/-- The strings of a record, its state included. -/
structure CpeFlowEntry.Legible (e : CpeFlowEntry) : Prop extends e.Printable where
  state : Safe e.state

/-- The strings of a record are words. -/
structure CpeFlowEntry.Worded (e : CpeFlowEntry) : Prop extends e.Printable where
  state : Word e.state

theorem CpeFlowEntry.Worded.legible {e : CpeFlowEntry} (h : e.Worded) : e.Legible :=
  ⟨h.toPrintable, h.state.safe⟩

theorem word_eventName (t : NfctEventType) : Word (eventName t) := by
  cases t <;> decide

theorem word_state_entryFromEvent (ev : NfctEvent) (nowMs : UInt64) :
    Word (entryFromEvent ev nowMs).state := by
  unfold entryFromEvent
  dsimp only
  split <;> exact (word_eventName ev.type).copyStr 24

theorem state_ensureFlowId (e : CpeFlowEntry) : e.ensureFlowId.state = e.state := by
  unfold CpeFlowEntry.ensureFlowId
  split <;> rfl

theorem word_state_storeEvent (slot : CpeFlowEntry) (ev : NfctEvent) (nowMs : UInt64) :
    Word (storeEvent slot ev nowMs).state := by
  rw [storeEvent]
  split
  · rw [mergeSlot, state_ensureFlowId]
    exact (word_state_entryFromEvent ev nowMs).copyStr 24
  · exact word_state_entryFromEvent ev nowMs

theorem word_state_settle (st : CpeFlowState) (slot : CpeFlowEntry) (ev : NfctEvent)
    (nowMs : UInt64) : Word (st.settle slot ev nowMs).state := by
  rw [CpeFlowState.settle]
  split
  · exact Word.copyStr (by decide) 24
  · exact word_state_storeEvent slot ev nowMs

/-- Every occupied slot is legible. -/
def CpeFlowState.Legible (st : CpeFlowState) : Prop :=
  ∀ i, (st.table i).used = true → (st.table i).Legible

def CpeFlowState.Worded (st : CpeFlowState) : Prop :=
  ∀ i, (st.table i).used = true → (st.table i).Worded

theorem CpeFlowState.Worded.applyEvent {a : CpeAgent} (h : a.flow.Worded) (x : FlowInput) :
    (a.applyEvent x).1.flow.Worded := by
  intro i hi
  by_cases htarget : a.flow.target x.ev x.nowMs = some i
  · rw [applyEvent_slot htarget]
    exact ⟨printable_settle (fun hused ↦ (h i hused).toPrintable) x.ev x.nowMs,
      word_state_settle _ _ _ _⟩
  · rw [applyEvent_slot_of_ne htarget] at hi ⊢
    exact h i hi

/-! ## The TCP snapshot -/

/-- A configuration changes two numbers of the snapshot at most. -/
theorem rebindTcp_snap (old cfg : CpeAgentConfig) (st : CpeTcpState) (res : OpenResult) :
    ∃ group len, (rebindTcp old cfg st res).snap
      = { st.snap with nflogGroup := group, prefixLen := len } := by
  unfold rebindTcp
  split
  · split
    · unfold cpeAgentTcpOpen
      rw [cpeAgentTcpClose]
      dsimp only [Option.isSome_none]
      rw [if_neg Bool.false_ne_true]
      split
      · exact ⟨_, _, rfl⟩
      · split <;> exact ⟨_, _, rfl⟩
    · exact ⟨_, _, rfl⟩
  · split <;> exact ⟨_, _, rfl⟩

theorem TcpStable.rebindTcp {P : CpeTcpSnapshot → Prop} (hP : TcpStable P) {st : CpeTcpState}
    (h : P st.snap) (old cfg : CpeAgentConfig) (res : OpenResult) :
    P (rebindTcp old cfg st res).snap := by
  obtain ⟨group, len, heq⟩ := rebindTcp_snap old cfg st res
  rw [heq]
  exact hP.numbers h rfl rfl rfl

theorem TcpStable.applyConfig {P : CpeTcpSnapshot → Prop} (hP : TcpStable P) {a : CpeAgent}
    (h : P a.tcp.snap) (cfg : CpeAgentConfig) (env : ApplyEnv) :
    P (a.applyConfig cfg env).1.tcp.snap := by
  rcases a.applyConfig_cases cfg env with ⟨err, -, hres⟩ | ⟨-, -, -, bytes, hres⟩ |
    ⟨-, -, hres⟩ | ⟨-, -, -, cap, slots, hres⟩
  · rw [hres, CpeAgent.eqPush_tcp]
    exact h
  · rw [hres, CpeAgent.eqPush_tcp, CpeAgent.eqPush_tcp]
    exact h
  · rw [hres, CpeAgent.installConfig, CpeAgent.eqPush_tcp]
    exact hP.rebindTcp h _ _ _
  · rw [hres, CpeAgent.installConfig, CpeAgent.eqPush_tcp]
    exact hP.rebindTcp h _ _ _

namespace CpeAgent

/-- The configuration and the TCP collector are the same. -/
def KeepsRest (a b : CpeAgent) : Prop := b.cfg = a.cfg ∧ b.tcp = a.tcp

theorem KeepsRest.trans {a b c : CpeAgent} (h : a.KeepsRest b) (h' : b.KeepsRest c) :
    a.KeepsRest c :=
  ⟨h'.1.trans h.1, h'.2.trans h.2⟩

theorem keepsRest_spoolPushLine (a : CpeAgent) (line : CStr) :
    a.KeepsRest (a.spoolPushLine line).1 :=
  ⟨spoolPushLine_cfg a line, spoolPushLine_tcp a line⟩

theorem keepsRest_warnNoAcct (a : CpeAgent) (ev : NfctEvent) : a.KeepsRest (a.warnNoAcct ev) := by
  unfold warnNoAcct
  split <;> exact ⟨rfl, rfl⟩

theorem keepsRest_storeInSlot (a : CpeAgent) (i : FlowSlot) (x : FlowInput) :
    a.KeepsRest (a.storeInSlot i x) :=
  ⟨rfl, rfl⟩

theorem keepsRest_emitNewLine (a : CpeAgent) (clock : Option WallClock) (e : CpeFlowEntry) :
    a.KeepsRest (a.emitNewLine clock e) := by
  unfold emitNewLine
  split
  · exact ⟨rfl, rfl⟩
  · exact keepsRest_spoolPushLine a _

theorem keepsRest_emitDestroyLine (a : CpeAgent) (clock : Option WallClock) (e : CpeFlowEntry) :
    a.KeepsRest (a.emitDestroyLine clock e) := by
  unfold emitDestroyLine
  split
  · exact ⟨rfl, rfl⟩
  · dsimp only
    split <;> exact keepsRest_spoolPushLine a _

theorem keepsRest_teardown (a : CpeAgent) (i : FlowSlot) (clock : Option WallClock) :
    a.KeepsRest (a.teardown i clock) := by
  have hset : a.KeepsRest (a.setSlot i (a.flow.table i).destroyed) := ⟨rfl, rfl⟩
  have hrelease : ∀ b : CpeAgent, b.KeepsRest (b.releaseSlot i) := fun _ ↦ ⟨rfl, rfl⟩
  rw [teardown]
  exact (hset.trans (keepsRest_emitDestroyLine _ _ _)).trans (hrelease _)

theorem keepsRest_applyEvent (a : CpeAgent) (x : FlowInput) : a.KeepsRest (a.applyEvent x).1 := by
  have hwarn := keepsRest_warnNoAcct a x.ev
  unfold applyEvent
  split
  · exact ⟨rfl, rfl⟩
  · dsimp only
    split
    · exact hwarn
    · rename_i i _
      have hstore := hwarn.trans (keepsRest_storeInSlot _ i x)
      split
      · exact hstore.trans (keepsRest_teardown _ _ _)
      · split
        · exact hstore.trans (keepsRest_emitNewLine _ _ _)
        · exact hstore

/-! ## The agent -/

/-- The configuration has been accepted, and the strings of both collectors can stand between
quotes. -/
structure Legible (a : CpeAgent) : Prop where
  cfg : cpeAgentConfigValidate a.cfg = none
  tcp : a.tcp.snap.Legible
  flow : a.flow.Legible

/-- The configuration has been accepted, and the strings of both collectors are words. -/
structure Worded (a : CpeAgent) : Prop where
  cfg : cpeAgentConfigValidate a.cfg = none
  tcp : a.tcp.snap.Worded
  flow : a.flow.Worded

theorem Worded.legible {a : CpeAgent} (h : a.Worded) : a.Legible :=
  ⟨h.cfg, h.tcp.legible, fun i hused ↦ (h.flow i hused).legible⟩

theorem validate_applyConfig {a : CpeAgent} (h : cpeAgentConfigValidate a.cfg = none)
    (cfg : CpeAgentConfig) (env : ApplyEnv) :
    cpeAgentConfigValidate (a.applyConfig cfg env).1.cfg = none := by
  rcases a.applyConfig_cases cfg env with ⟨err, -, hres⟩ | ⟨-, -, -, bytes, hres⟩ |
    ⟨hvalid, -, hres⟩ | ⟨hvalid, -, -, cap, slots, hres⟩
  · rw [hres, eqPush_cfg]
    exact h
  · rw [hres, eqPush_cfg, eqPush_cfg]
    exact h
  · rw [hres, installConfig, eqPush_cfg]
    exact hvalid
  · rw [hres, installConfig, eqPush_cfg]
    exact hvalid

theorem worded_create : create.Worded where
  cfg := cpeAgentConfigValidate_defaults
  tcp := ⟨word_nil, List.forall_mem_nil _, List.forall_mem_nil _⟩
  flow := fun _ hused ↦ Bool.noConfusion hused

theorem Worded.agentStep {a : CpeAgent} (h : a.Worded) (op : AgentOp) :
    (a.agentStep op).Worded := by
  cases op with
  | configure cfg env =>
    refine ⟨validate_applyConfig h.cfg cfg env, tcpStable_worded.applyConfig h.tcp cfg env, ?_⟩
    rw [CpeAgent.agentStep, CpeFlowState.Worded, applyConfig_table]
    exact h.flow
  | flow x =>
    obtain ⟨hcfg, htcp⟩ := keepsRest_applyEvent a x
    exact ⟨hcfg ▸ h.cfg, htcp ▸ h.tcp, h.flow.applyEvent x⟩
  | tcp op => exact ⟨h.cfg, tcpStable_worded.tcpStep h.tcp op, h.flow⟩

theorem worded_agentRun {a : CpeAgent} (h : a.Worded) (ops : List AgentOp) :
    (a.agentRun ops).Worded :=
  foldl_invariant (fun _ op h ↦ h.agentStep op) h ops

end CpeAgent

end NetForensics

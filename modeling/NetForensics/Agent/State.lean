import NetForensics.Agent.Config
import NetForensics.Flow.Table
import NetForensics.Tcp.Stats
import NetForensics.Util.Ring

/-!
# The agent

`struct cpe_agent`: the configuration in force, the queue of events for the host, the ring of
spooled lines, and the states of the two collectors. The last samples kept for queries are left
out; nothing here reads them.

Outcomes of the environment (allocation, sockets, files, the HTTP peer) are inputs of the
operations that depend on them.
-/

namespace NetForensics

/-- `CPE_EVENT_Q` -/
def cpeEventQ : ℕ := 16

/-- `CPE_NDJSON_LINE_MAX`, which is also the size `CPE_SPOOL_LINE` of a ring cell. -/
def cpeNdjsonLineMax : ℕ := 768

/-- `cpe_agent_event_type_t` -/
inductive CpeAgentEventType where
  | none | configApplied | configRejected | needAlloc | sampleReady | spoolDrop
  deriving DecidableEq

/-- `cpe_agent_event_t` -/
structure CpeAgentEvent where
  type : CpeAgentEventType
  reason : CStr
  needBytes : ℕ
  slot : ℕ
  deriving DecidableEq

/-- `cpe_buf_slot_t`; of the pointer only whether it is set. -/
structure CpeBufSlot where
  used : Bool
  ptr : Bool
  len : ℕ
  need : ℕ
  waiting : Bool
  deriving DecidableEq

/-- The `spool` fields of `struct cpe_agent`. The counter of dropped lines is not bounded here. -/
structure Spool where
  /-- `spool != NULL` -/
  mem : Bool
  /-- `spool_cap`, `spool_head`, `spool_tail`, `spool_cnt` and the lines -/
  ring : Ring CStr
  /-- `spool_drops` -/
  drops : ℕ

/-- `struct cpe_agent` -/
structure CpeAgent where
  cfg : CpeAgentConfig
  eq : Ring CpeAgentEvent
  spool : Spool
  slots : Fin 4 → CpeBufSlot
  tcp : CpeTcpState
  flow : CpeFlowState

namespace CpeAgent

/-! ## The event queue -/

/-- `eq_push`: a full queue swallows the event. -/
def eqPush (a : CpeAgent) (type : CpeAgentEventType) (reason : CStr) (needBytes slot : ℕ) :
    CpeAgent :=
  if cpeEventQ ≤ a.eq.cnt then a
  else { a with eq := a.eq.put ⟨type, copyStr 128 reason, needBytes, slot⟩ }

@[simp] theorem eqPush_cfg (a : CpeAgent) (t : CpeAgentEventType) (r : CStr) (n s : ℕ) :
    (a.eqPush t r n s).cfg = a.cfg := by
  unfold eqPush
  split <;> rfl

@[simp] theorem eqPush_spool (a : CpeAgent) (t : CpeAgentEventType) (r : CStr) (n s : ℕ) :
    (a.eqPush t r n s).spool = a.spool := by
  unfold eqPush
  split <;> rfl

@[simp] theorem eqPush_tcp (a : CpeAgent) (t : CpeAgentEventType) (r : CStr) (n s : ℕ) :
    (a.eqPush t r n s).tcp = a.tcp := by
  unfold eqPush
  split <;> rfl

@[simp] theorem eqPush_flow (a : CpeAgent) (t : CpeAgentEventType) (r : CStr) (n s : ℕ) :
    (a.eqPush t r n s).flow = a.flow := by
  unfold eqPush
  split <;> rfl

/-! ## The memory of the ring -/

/-- `free_spool` -/
def freeSpool (a : CpeAgent) : CpeAgent :=
  { a with spool := { a.spool with mem := false, ring := Ring.blank [] 0 } }

/-- `ensure_spool`: whether the ring now has the wanted capacity. The old ring is released before
the new one is requested; `alloc` is the outcome of `cpe_host_alloc`. -/
def ensureSpool (a : CpeAgent) (cap : ℕ) (alloc : Bool) : CpeAgent × Bool :=
  let cap := if cap = 0 then cpeCfgSpoolDefault else cap
  if a.spool.mem && a.spool.ring.cap == cap then (a, true)
  else
    let a := a.freeSpool
    if !alloc then (a.eqPush .needAlloc (ascii "spool") (cap * cpeNdjsonLineMax) 0, false)
    else
      let slot := { a.slots 0 with
        used := true, ptr := true, len := cap * cpeNdjsonLineMax, waiting := false }
      ({ a with
        spool := { a.spool with mem := true, ring := Ring.blank [] cap }
        slots := Function.update a.slots 0 slot }, true)

/-- The two ways of changing the capacity: either way the old ring is gone. -/
theorem ensureSpool_of_ne {a : CpeAgent} {cap : ℕ} (hpos : cap ≠ 0) (hne : cap ≠ a.spool.ring.cap) :
    (a.ensureSpool cap false
        = (a.freeSpool.eqPush .needAlloc (ascii "spool") (cap * cpeNdjsonLineMax) 0, false)) ∧
      ∃ slots, a.ensureSpool cap true
        = ({ a with spool := ⟨true, Ring.blank [] cap, a.spool.drops⟩, slots := slots }, true) := by
  have hcap : (a.spool.ring.cap == cap) = false := beq_eq_false_iff_ne.mpr hne.symm
  constructor
  · rw [ensureSpool]
    simp only [if_neg hpos, hcap, Bool.and_false, Bool.false_eq_true, if_false, Bool.not_false,
      if_true]
  · rw [ensureSpool]
    simp only [if_neg hpos, hcap, Bool.and_false, Bool.false_eq_true, if_false, Bool.not_true]
    exact ⟨_, rfl⟩

/-- `cpe_agent_create`, when its allocations succeed. -/
def create : CpeAgent :=
  (ensureSpool
    { cfg := cpeAgentConfigDefaults
      eq := Ring.blank ⟨.none, [], 0, 0⟩ cpeEventQ
      spool := ⟨false, Ring.blank [] 0, 0⟩
      slots := fun _ ↦ ⟨false, false, 0, 0, false⟩
      tcp := cpeTcpStateInit
      flow := cpeFlowStateInit } cpeAgentConfigDefaults.spoolMaxLines true).1

end CpeAgent

end NetForensics

import NetForensics.Agent.Atomicity
import NetForensics.Agent.Reach
import NetForensics.Spool.Accounting

/-!
# Buffers provided by the host

When the ring cannot be allocated the agent asks its host for the memory, with an event, and
`cpe_agent_provide_buffer` is how the host hands it over. The function takes a buffer only for a
slot that is marked as waiting. The request does not mark the slot, and nothing else does: no slot
ever waits, whatever the agent has been through, and every buffer is refused.
-/

namespace NetForensics

namespace CpeAgent

/-- `cpe_agent_next_event` -/
def nextEvent (a : CpeAgent) : CpeAgent × Option CpeAgentEvent :=
  if a.eq.cnt = 0 then (a, none)
  else ({ a with eq := a.eq.advance 1 }, some (a.eq.cells a.eq.head))

/-- The host takes a number of events off the queue. -/
def drainEvents (a : CpeAgent) : ℕ → CpeAgent
  | 0 => a
  | n + 1 => a.nextEvent.1.drainEvents n

/-- `cpe_agent_provide_buffer`. A null pointer is `none`; otherwise the argument is what the memory
holds, read as lines. -/
def provideBuffer (a : CpeAgent) (slot : ℕ) (ptr : Option (ℕ → CStr)) (len : ℕ) : CpeAgent × ℤ :=
  match ptr with
  | none => (a, -1)
  | some mem =>
    if h : slot < 4 then
      if len = 0 then (a, -1)
      else if !(a.slots ⟨slot, h⟩).waiting then (a, -1)
      else
        let a := { a with
          slots := Function.update a.slots ⟨slot, h⟩
            { a.slots ⟨slot, h⟩ with ptr := true, len := len, used := true, waiting := false } }
        if slot = 0 then
          let a := { a with spool := { a.spool with
            mem := true
            ring := { a.spool.ring with cells := mem, cap := len / cpeNdjsonLineMax } } }
          if len / cpeNdjsonLineMax = 0 then (a, -1) else (a, 0)
        else (a, 0)
    else (a, -1)

/-! ## Slots that wait -/

def Idle (a : CpeAgent) : Prop := ∀ i, (a.slots i).waiting = false

theorem Idle.of_slots_eq {a b : CpeAgent} (h : a.Idle) (heq : b.slots = a.slots) : b.Idle := by
  intro i
  rw [heq]
  exact h i

@[simp] theorem eqPush_slots (a : CpeAgent) (t : CpeAgentEventType) (r : CStr) (n s : ℕ) :
    (a.eqPush t r n s).slots = a.slots := by
  unfold eqPush
  split <;> rfl

theorem spoolPushLine_slots (a : CpeAgent) (line : CStr) :
    (a.spoolPushLine line).1.slots = a.slots := by
  unfold spoolPushLine
  split
  · rfl
  · dsimp only
    split
    · exact eqPush_slots _ _ _ _ _
    · rfl

theorem spoolFlush_slots (a : CpeAgent) (sink : Sink) : (a.spoolFlush sink).1.slots = a.slots := by
  unfold spoolFlush
  split
  · rfl
  · dsimp only
    split
    · rfl
    · split <;> rfl

theorem emitFlush_slots (a : CpeAgent) (env : EmitEnv) : (a.emitFlush env).1.slots = a.slots := by
  unfold emitFlush
  split
  · unfold emitHttp
    split
    · rfl
    · dsimp only
      split
      · rfl
      · split <;> rfl
  · split
    · unfold emitFile
      split
      · rfl
      · split
        · rfl
        · dsimp only
          split <;> exact spoolFlush_slots a env.sink
    · exact spoolFlush_slots a env.sink

theorem warnNoAcct_slots (a : CpeAgent) (ev : NfctEvent) : (a.warnNoAcct ev).slots = a.slots := by
  unfold warnNoAcct
  split <;> rfl

theorem storeInSlot_slots (a : CpeAgent) (i : FlowSlot) (x : FlowInput) :
    (a.storeInSlot i x).slots = a.slots := rfl

theorem emitNewLine_slots (a : CpeAgent) (clock : Option WallClock) (e : CpeFlowEntry) :
    (a.emitNewLine clock e).slots = a.slots := by
  unfold emitNewLine
  split
  · rfl
  · exact spoolPushLine_slots a _

theorem emitDestroyLine_slots (a : CpeAgent) (clock : Option WallClock) (e : CpeFlowEntry) :
    (a.emitDestroyLine clock e).slots = a.slots := by
  unfold emitDestroyLine
  split
  · rfl
  · dsimp only
    split <;> exact spoolPushLine_slots a _

theorem teardown_slots (a : CpeAgent) (i : FlowSlot) (clock : Option WallClock) :
    (a.teardown i clock).slots = a.slots := by
  have hrelease : ∀ b : CpeAgent, (b.releaseSlot i).slots = b.slots := fun _ ↦ rfl
  rw [teardown, hrelease, emitDestroyLine_slots]
  rfl

theorem applyEvent_slots (a : CpeAgent) (x : FlowInput) : (a.applyEvent x).1.slots = a.slots := by
  unfold applyEvent
  split
  · rfl
  · dsimp only
    split
    · exact warnNoAcct_slots a x.ev
    · split
      · rw [teardown_slots, storeInSlot_slots, warnNoAcct_slots]
      · split
        · rw [emitNewLine_slots, storeInSlot_slots, warnNoAcct_slots]
        · rw [storeInSlot_slots, warnNoAcct_slots]

/-- Getting memory clears the mark of slot 0; not getting it leaves every mark alone. -/
theorem Idle.ensureSpool {a : CpeAgent} (h : a.Idle) (cap : ℕ) (alloc : Bool) :
    (a.ensureSpool cap alloc).1.Idle := by
  unfold CpeAgent.ensureSpool
  generalize (if cap = 0 then cpeCfgSpoolDefault else cap) = n
  dsimp only
  split
  · exact h
  · split
    · exact h.of_slots_eq (eqPush_slots _ _ _ _ _)
    · intro i
      dsimp only
      by_cases hi : i = 0
      · subst hi
        rw [Function.update_self]
      · rw [Function.update_of_ne hi]
        exact h i

theorem Idle.applyConfig {a : CpeAgent} (h : a.Idle) (cfg : CpeAgentConfig) (env : ApplyEnv) :
    (a.applyConfig cfg env).1.Idle := by
  have hinstall : ∀ b : CpeAgent, b.Idle → ∀ c, (b.installConfig c env).Idle :=
    fun b hb c ↦ hb.of_slots_eq (eqPush_slots _ _ _ _ _)
  unfold CpeAgent.applyConfig
  dsimp only
  split
  · exact h.of_slots_eq (eqPush_slots _ _ _ _ _)
  · split
    · split
      · exact (h.ensureSpool _ _).of_slots_eq (eqPush_slots _ _ _ _ _)
      · exact hinstall _ (h.ensureSpool _ _) _
    · exact hinstall _ h _

theorem Idle.reloadConfig {a : CpeAgent} (h : a.Idle) (file : LoadedConfig)
    (routerIdOverride : CStr) (env : ApplyEnv) :
    (a.reloadConfig file routerIdOverride env).1.Idle := by
  unfold CpeAgent.reloadConfig
  split
  · exact h
  · exact h.applyConfig _ _

theorem nextEvent_slots (a : CpeAgent) : a.nextEvent.1.slots = a.slots := by
  unfold nextEvent
  split <;> rfl

theorem provideBuffer_of_idle {a : CpeAgent} (h : a.Idle) (slot : ℕ) (ptr : Option (ℕ → CStr))
    (len : ℕ) : a.provideBuffer slot ptr len = (a, -1) := by
  unfold provideBuffer
  split
  · rfl
  · split
    · split
      · rfl
      · rw [h, Bool.not_false, if_pos rfl]
    · rfl

/-! ## Runs -/

/-- Any call of the agent, with the outcomes of the calls it makes itself. -/
inductive HostCall where
  | line (op : LineOp)
  | agent (op : AgentOp)
  | nextEvent
  | provide (slot : ℕ) (ptr : Option (ℕ → CStr)) (len : ℕ)

def hostCall (a : CpeAgent) : HostCall → CpeAgent
  | .line op => (Tally.step ⟨a, 0, 0⟩ op).agent
  | .agent op => a.agentStep op
  | .nextEvent => a.nextEvent.1
  | .provide slot ptr len => (a.provideBuffer slot ptr len).1

def hostCalls (a : CpeAgent) (calls : List HostCall) : CpeAgent := calls.foldl hostCall a

theorem idle_create : create.Idle := fun i ↦ by
  fin_cases i <;> rfl

theorem Idle.hostCall {a : CpeAgent} (h : a.Idle) (call : HostCall) : (a.hostCall call).Idle := by
  cases call with
  | line op =>
    cases op with
    | push line => exact h.of_slots_eq (spoolPushLine_slots a line)
    | flush sink => exact h.of_slots_eq (spoolFlush_slots a sink)
    | emit env => exact h.of_slots_eq (emitFlush_slots a env)
    | apply cfg env => exact h.applyConfig cfg env
    | reload file routerIdOverride env => exact h.reloadConfig file routerIdOverride env
  | agent op =>
    cases op with
    | configure cfg env => exact h.applyConfig cfg env
    | flow x => exact h.of_slots_eq (applyEvent_slots a x)
    | tcp op => exact h
  | nextEvent => exact h.of_slots_eq (nextEvent_slots a)
  | provide slot ptr len =>
    rw [CpeAgent.hostCall, provideBuffer_of_idle h]
    exact h

theorem idle_hostCalls (calls : List HostCall) : (create.hostCalls calls).Idle :=
  foldl_invariant (fun _ call h ↦ h.hostCall call) idle_create calls

/-! ## The buffer -/

/-- The agent has an empty ring of the given capacity: its indices agree, every push succeeds, and
the last lines pushed come out in order. -/
structure Usable (a : CpeAgent) (cap : ℕ) : Prop where
  represents : a.Represents cap ⟨[], a.spool.drops⟩
  push_succeeds : ∀ lines line, ((a.pushLines lines).spoolPushLine line).2 = 0
  contents_eq : ∀ lines, (a.pushLines lines).spool.ring.contents
    = (lines.map fun line ↦ line.take 767).drop (lines.length - cap)

theorem Represents.pushLines {a : CpeAgent} {cap : ℕ} {q : DropQueue CStr} (h : a.Represents cap q)
    (lines : List CStr) : (a.pushLines lines).Represents cap
      ((lines.map fun line ↦ line.take 767).foldl (DropQueue.push cap) q) := by
  induction lines generalizing a q with
  | nil => exact h
  | cons line lines ih => exact ih (h.push line)

theorem usable_of_represents {a : CpeAgent} {cap : ℕ} (hcap : 0 < cap)
    (h : a.Represents cap ⟨[], a.spool.drops⟩) : a.Usable cap where
  represents := h
  push_succeeds lines line := by
    have hrep := h.pushLines lines
    rw [spoolPushLine_ret, hrep.cap_eq]
    exact ⟨hrep.mem, hcap.ne'⟩
  contents_eq lines := by
    rw [(h.pushLines lines).holds.contents_eq, DropQueue.items_foldl_push hcap (Nat.zero_le _),
      List.length_map, List.length_nil, Nat.zero_add, List.nil_append]

/-- A failed allocation leaves no ring, and the slots as they were. -/
theorem ensureSpool_of_failed {a : CpeAgent} {cap : ℕ} (h : (a.ensureSpool cap false).2 = false) :
    (a.ensureSpool cap false).1.spool = ⟨false, Ring.blank [] 0, a.spool.drops⟩ ∧
      (a.ensureSpool cap false).1.slots = a.slots := by
  revert h
  unfold ensureSpool
  generalize (if cap = 0 then cpeCfgSpoolDefault else cap) = n
  dsimp only
  split
  · exact fun h ↦ Bool.noConfusion h
  · rw [Bool.not_false, if_pos rfl]
    exact fun _ ↦ ⟨eqPush_spool _ _ _ _ _, eqPush_slots _ _ _ _ _⟩

theorem drainEvents_eq (a : CpeAgent) (n : ℕ) :
    (a.drainEvents n).spool = a.spool ∧ (a.drainEvents n).slots = a.slots := by
  induction n generalizing a with
  | zero => exact ⟨rfl, rfl⟩
  | succ n ih =>
    obtain ⟨hspool, hslots⟩ := ih a.nextEvent.1
    have hnext : a.nextEvent.1.spool = a.spool := by
      unfold nextEvent
      split <;> rfl
    exact ⟨hspool.trans hnext, hslots.trans (nextEvent_slots a)⟩

/-- A buffer for the ring of an agent without one: it is refused, or it becomes the ring, according
to the mark of slot 0. -/
theorem provideBuffer_usable_iff_waiting {a : CpeAgent} {drops len : ℕ}
    (hspool : a.spool = ⟨false, Ring.blank [] 0, drops⟩) (hlen : cpeNdjsonLineMax ≤ len)
    (mem : ℕ → CStr) :
    ((a.provideBuffer 0 (some mem) len).2 = 0 ∧
        (a.provideBuffer 0 (some mem) len).1.Usable (len / cpeNdjsonLineMax)) ↔
      (a.slots 0).waiting = true := by
  have hlines : 0 < len / cpeNdjsonLineMax := Nat.div_pos hlen (by decide)
  have hpos : len ≠ 0 := by
    rintro rfl
    exact absurd hlines (by decide)
  unfold provideBuffer
  dsimp only
  rw [dif_pos (by decide), if_neg hpos, Fin.zero_eta]
  cases (a.slots 0).waiting with
  | false =>
    rw [Bool.not_false, if_pos rfl]
    have hret : (-1 : ℤ) ≠ 0 := by decide
    exact iff_of_false (fun h ↦ hret h.1) Bool.false_ne_true
  | true =>
    rw [Bool.not_true, if_neg Bool.false_ne_true, if_pos rfl, if_neg hlines.ne', hspool]
    exact iff_of_true ⟨rfl, usable_of_represents hlines
      ⟨rfl, rfl, Ring.holds_nil mem hlines, rfl⟩⟩ rfl

/-- The host answers a request for a ring of `cap` lines with `len` bytes of memory, after it has
taken `n` events off the queue: the call succeeds and the agent has a ring of that memory. -/
def TakesBuffer (a : CpeAgent) (cap n : ℕ) (mem : ℕ → CStr) (len : ℕ) : Prop :=
  let b := (a.ensureSpool cap false).1.drainEvents n
  (b.provideBuffer 0 (some mem) len).2 = 0 ∧
    (b.provideBuffer 0 (some mem) len).1.Usable (len / cpeNdjsonLineMax)

theorem takesBuffer_iff {a : CpeAgent} {cap len : ℕ} (hcap : 1 ≤ cap)
    (hfail : (a.ensureSpool cap false).2 = false) (n : ℕ) (mem : ℕ → CStr)
    (hlen : cap * cpeNdjsonLineMax ≤ len) :
    a.TakesBuffer cap n mem len ↔ (a.slots 0).waiting = true := by
  obtain ⟨hspool, hslots⟩ := ensureSpool_of_failed hfail
  obtain ⟨hspool', hslots'⟩ := drainEvents_eq (a.ensureSpool cap false).1 n
  have hline : cpeNdjsonLineMax ≤ len := le_trans (Nat.le_mul_of_pos_left _ hcap) hlen
  rw [TakesBuffer, provideBuffer_usable_iff_waiting (hspool'.trans hspool) hline, hslots', hslots]

/-- A buffer large enough for the request becomes the ring if and only if slot 0 was marked as
waiting before the request. In no state the agent gets into it is. -/
theorem provideBuffer_answers_iff (a : CpeAgent) (cap n : ℕ) (mem : ℕ → CStr) (len : ℕ)
    (hcap : 1 ≤ cap ∧ cap ≤ 1024) (hfail : (a.ensureSpool cap false).2 = false)
    (hev : ∃ ev ∈ (a.ensureSpool cap false).1.eq.contents,
      ev.type = .needAlloc ∧ ev.slot = 0 ∧ ev.needBytes = cap * cpeNdjsonLineMax)
    (hlen : cap * cpeNdjsonLineMax ≤ len) :
    (a.TakesBuffer cap n mem len ↔ (a.slots 0).waiting = true) ∧
      ∀ calls, a = create.hostCalls calls → ¬ a.TakesBuffer cap n mem len := by
  refine ⟨takesBuffer_iff hcap.1 hfail n mem hlen, ?_⟩
  rintro calls rfl htakes
  have hwaiting := (takesBuffer_iff hcap.1 hfail n mem hlen).mp htakes
  rw [idle_hostCalls calls 0] at hwaiting
  exact Bool.false_ne_true hwaiting

/-- A new agent asks for a ring of eight lines, and cannot be given one. -/
theorem provideBuffer_answers_create :
    ¬ create.TakesBuffer 8 0 (fun _ ↦ []) (8 * cpeNdjsonLineMax) :=
  (provideBuffer_answers_iff create 8 0 (fun _ ↦ []) (8 * cpeNdjsonLineMax) (by decide) (by decide)
    ⟨_, List.mem_singleton_self _, rfl, rfl, rfl⟩ le_rfl).2 [] rfl

/-- The buffer is refused although the agent has just asked for it. -/
theorem provideBuffer_refuses_answer :
    ¬ ∀ (a : CpeAgent) (cap : ℕ) (mem : ℕ → CStr) (len : ℕ), 1 ≤ cap ∧ cap ≤ 1024 →
      (a.ensureSpool cap false).2 = false →
      (∃ ev ∈ (a.ensureSpool cap false).1.eq.contents,
        ev.type = .needAlloc ∧ ev.slot = 0 ∧ ev.needBytes = cap * cpeNdjsonLineMax) →
      cap * cpeNdjsonLineMax ≤ len → a.TakesBuffer cap 0 mem len := by
  intro h
  have htakes := h create 8 (fun _ ↦ []) (8 * cpeNdjsonLineMax) (by decide) (by decide)
    ⟨_, List.mem_singleton_self _, rfl, rfl, rfl⟩ le_rfl
  exact absurd htakes.1 (by decide)

end CpeAgent

end NetForensics

import NetForensics.Flow.Identity

/-!
# Liveness

`alive` should tell whether the last event of a flow was a teardown, and the periodic samples go by
it. It is set when a slot is filled and cleared when a teardown is printed; an event merged into an
occupied slot leaves it alone. So it goes stale when teardown lines are switched off: a known flow
that is torn down stays alive, and a flow that was filled in by its teardown stays dead when it is
opened again. With teardown lines on, what is left alive is the second slot of a flow that has come
to have two (`Lively.allStepsFollow_iff`).
-/

namespace NetForensics

/-! ## Samples -/

/-- The inner loop of the selection: the position in the list of the best rate above `bestR`, the
first of its kind; `k` counts positions and `best` is the one found so far. -/
def bestPos {ι : Type*} (rate : ι → ℚ) : List ι → ℕ → ℚ → Option ℕ → Option ℕ
  | [], _, _, best => best
  | i :: is, k, bestR, best =>
    if bestR < rate i then bestPos rate is (k + 1) (rate i) (some k)
    else bestPos rate is (k + 1) bestR best

/-- Selection sort by descending rate, for the first `n` positions: the best of the rest changes
places with the element at hand. -/
def topSlots {ι : Type*} (rate : ι → ℚ) : ℕ → List ι → List ι
  | 0, l => l
  | _ + 1, [] => []
  | n + 1, i :: is =>
    match (bestPos rate is 0 (rate i) none).bind fun k ↦ is[k]?.map fun j ↦ (k, j) with
    | none => i :: topSlots rate n is
    | some (k, j) => j :: topSlots rate n (is.set k i)

/-- The rate samples are ranked by; the sum is not rounded. -/
def CpeFlowEntry.combinedRate (e : CpeFlowEntry) : ℚ := e.rateUpBps + e.rateDownBps

def CpeFlowEntry.idle (e : CpeFlowEntry) : Bool :=
  decide (e.combinedRate < 1) && e.bytesUpDelta + e.bytesDownDelta == 0

namespace CpeFlowState

def topN (st : CpeFlowState) : ℕ := if st.sampleTopN ≠ 0 then st.sampleTopN.toNat else 32

/-- The slots `emit_top_samples` prints a line for, in order. -/
def sampleSlots (st : CpeFlowState) : List FlowSlot :=
  let live := (scanned st.maxFlows).filter fun i ↦ (st.table i).used && (st.table i).alive
  ((topSlots (fun i ↦ (st.table i).combinedRate) st.topN live).take st.topN).filter
    fun i ↦ !(st.table i).idle

def sampleDue (st : CpeFlowState) (now : UInt64) : Bool :=
  st.sampleEmitMs != 0 &&
    !(st.lastSampleMs != 0 && decide (now - st.lastSampleMs < st.sampleEmitMs.toUInt64))

end CpeFlowState

namespace CpeAgent

/-- The `sample` line of a slot: formatted, pushed, and counted when the push succeeds. -/
def emitSample (a : CpeAgent) (clock : Option WallClock) (i : FlowSlot) : CpeAgent × ℤ :=
  match a.flowLine clock "sample" (a.flow.table i) with
  | none => (a, 0)
  | some line =>
    let (a, rc) := a.spoolPushLine line
    if rc = 0 then
      ({ a with flow := { a.flow with samplesEmitted := a.flow.samplesEmitted + 1 } }, 1)
    else (a, 0)

/-- `emit_top_samples`; `clock` is the reading at each line. -/
def emitTopSamples (a : CpeAgent) (now : UInt64) (clock : FlowSlot → Option WallClock) :
    CpeAgent × ℤ :=
  if a.flow.sampleDue now then
    a.flow.sampleSlots.foldl
      (fun res i ↦ ((res.1.emitSample (clock i) i).1, res.2 + (res.1.emitSample (clock i) i).2))
      ({ a with flow := { a.flow with lastSampleMs := now } }, 0)
  else (a, 0)

end CpeAgent

theorem mem_topSlots {ι : Type*} {rate : ι → ℚ} {n : ℕ} {l : List ι} {j : ι}
    (h : j ∈ topSlots rate n l) : j ∈ l := by
  induction n generalizing l with
  | zero =>
    rw [topSlots] at h
    exact h
  | succ n ih =>
    cases l with
    | nil =>
      rw [topSlots] at h
      exact h
    | cons i is =>
      rw [topSlots] at h
      split at h
      · rcases List.mem_cons.mp h with rfl | hrest
        · exact List.mem_cons_self
        · exact List.mem_cons_of_mem i (ih hrest)
      · rename_i k best hbest
        obtain ⟨m, -, hm⟩ := Option.bind_eq_some_iff.mp hbest
        obtain ⟨b, hb, heq⟩ := Option.map_eq_some_iff.mp hm
        cases heq
        rcases List.mem_cons.mp h with rfl | hrest
        · exact List.mem_cons_of_mem i (List.mem_of_getElem? hb)
        · rcases List.mem_or_eq_of_mem_set (ih hrest) with hmem | rfl
          · exact List.mem_cons_of_mem i hmem
          · exact List.mem_cons_self

theorem CpeFlowState.alive_of_mem_sampleSlots {st : CpeFlowState} {i : FlowSlot}
    (h : i ∈ st.sampleSlots) : (st.table i).used = true ∧ (st.table i).alive = true := by
  have htop := List.mem_of_mem_take (List.mem_of_mem_filter h)
  have hlive := List.of_mem_filter (mem_topSlots htop)
  rwa [Bool.and_eq_true] at hlive

/-! ## Following the events -/

/-- The slot holds the flow of an event that is not stored in it: it is occupied, and `find_slot`
would take it for the flow's own. -/
def CpeFlowState.AlsoHolds (st : CpeFlowState) (x : FlowInput) (j : FlowSlot) : Prop :=
  (st.table j).used = true ∧ (st.table j).answers (entryFromEvent x.ev x.nowMs) = true ∧
    st.target x.ev x.nowMs ≠ some j

/-- The flag already says what an event of this type calls for. -/
def CpeFlowEntry.Suits (e : CpeFlowEntry) (type : NfctEventType) : Prop :=
  type = .other ∨ e.alive = decide (type ≠ .destroy)

instance (st : CpeFlowState) (x : FlowInput) (j : FlowSlot) : Decidable (st.AlsoHolds x j) :=
  instDecidableAnd

instance (e : CpeFlowEntry) (type : NfctEventType) : Decidable (e.Suits type) := instDecidableOr

/-- An agent, and for every slot the type of the last event of its flow: the last one that was
stored in it, or that it answers although it was stored elsewhere or dropped. -/
structure Watched where
  agent : CpeAgent
  last : FlowSlot → NfctEventType

namespace Watched

def step (w : Watched) : FlowOp → Watched
  | .event x =>
    { agent := (w.agent.applyEvent x).1
      last := fun j ↦
        if w.agent.flow.target x.ev x.nowMs = some j ∨ w.agent.flow.AlsoHolds x j then x.ev.type
        else w.last j }
  | .configure cfg env => { w with agent := (w.agent.applyConfig cfg env).1 }

/-- A flow whose last event is a teardown is absent, or not alive and never sampled; one whose last
event opens or updates it is alive. -/
def Follows (w : Watched) : Prop :=
  ∀ i, (w.last i = .destroy →
      ((w.agent.flow.table i).used = false ∨ (w.agent.flow.table i).alive = false) ∧
        i ∉ w.agent.flow.sampleSlots) ∧
    ((w.agent.flow.table i).used = true → w.last i = .new ∨ w.last i = .update →
      (w.agent.flow.table i).alive = true)

/-- The condition on a step. The slot `find_slot` picks for the event is released again or was
free, or its flag suits the event; and so does the flag of every other slot with the same flow. -/
def StepFollows (w : Watched) : FlowOp → Prop
  | .event x =>
    (∀ i, w.agent.flow.target x.ev x.nowMs = some i →
      w.agent.flow.releases x.ev = true ∨ (w.agent.flow.table i).used = false ∨
        (w.agent.flow.table i).Suits x.ev.type) ∧
      ∀ j, w.agent.flow.AlsoHolds x j → (w.agent.flow.table j).Suits x.ev.type
  | .configure _ _ => True

instance (w : Watched) : (op : FlowOp) → Decidable (w.StepFollows op)
  | .event _ => instDecidableAnd
  | .configure _ _ => inferInstanceAs (Decidable True)

def FollowsAt (last : NfctEventType) (e : CpeFlowEntry) : Prop :=
  e.used = true → (last = .destroy → e.alive = false) ∧
    (last = .new ∨ last = .update → e.alive = true)

theorem follows_iff (w : Watched) :
    w.Follows ↔ ∀ i, FollowsAt (w.last i) (w.agent.flow.table i) := by
  constructor
  · intro h i hused
    refine ⟨fun hlast ↦ ?_, fun hlast ↦ (h i).2 hused hlast⟩
    rcases ((h i).1 hlast).1 with hfree | hdead
    · exact absurd hused (by simp [hfree])
    · exact hdead
  · intro h i
    refine ⟨fun hlast ↦ ?_, fun hused hlast ↦ (h i hused).2 hlast⟩
    have hgone : (w.agent.flow.table i).used = false ∨ (w.agent.flow.table i).alive = false := by
      cases hused : (w.agent.flow.table i).used with
      | false => exact Or.inl rfl
      | true => exact Or.inr ((h i hused).1 hlast)
    refine ⟨hgone, fun hmem ↦ ?_⟩
    obtain ⟨hused, halive⟩ := CpeFlowState.alive_of_mem_sampleSlots hmem
    rcases hgone with hfree | hdead
    · exact absurd hused (by simp [hfree])
    · exact absurd halive (by simp [hdead])

theorem followsAt_iff_suits {e : CpeFlowEntry} (hused : e.used = true) (type : NfctEventType) :
    FollowsAt type e ↔ e.Suits type := by
  rw [FollowsAt, CpeFlowEntry.Suits]
  cases type <;> simp [hused]

theorem followsAt_settle_iff (st : CpeFlowState) (slot : CpeFlowEntry) (x : FlowInput) :
    FollowsAt x.ev.type (st.settle slot x.ev x.nowMs) ↔
      st.releases x.ev = true ∨ slot.used = false ∨ slot.Suits x.ev.type := by
  cases hrel : st.releases x.ev with
  | true =>
    refine iff_of_true (fun hused ↦ ?_) (Or.inl rfl)
    rw [CpeFlowState.settle_used_of_releases hrel] at hused
    exact absurd hused Bool.false_ne_true
  | false =>
    have hused := storeEvent_used slot x.ev x.nowMs
    rw [CpeFlowState.settle_of_not_releases hrel, followsAt_iff_suits hused,
      or_iff_right Bool.false_ne_true]
    cases hslot : slot.used with
    | false =>
      refine iff_of_true (Or.inr ?_) (Or.inl rfl)
      rw [storeEvent_of_unused hslot, entryFromEvent_alive]
    | true =>
      rw [or_iff_right (Bool.false_ne_true ∘ Eq.symm), CpeFlowEntry.Suits,
        (merged_storeEvent hslot x.ev x.nowMs).alive_eq, CpeFlowEntry.Suits]

theorem step_event_last {w : Watched} {x : FlowInput} {j : FlowSlot}
    (h : w.agent.flow.target x.ev x.nowMs = some j ∨ w.agent.flow.AlsoHolds x j) :
    (w.step (.event x)).last j = x.ev.type := if_pos h

theorem step_event_of_not {w : Watched} {x : FlowInput} {j : FlowSlot}
    (htarget : w.agent.flow.target x.ev x.nowMs ≠ some j) (h : ¬ w.agent.flow.AlsoHolds x j) :
    (w.step (.event x)).last j = w.last j := if_neg (not_or.mpr ⟨htarget, h⟩)

/-- The law survives a step if and only if the step meets the condition. -/
theorem follows_step_iff {w : Watched} (h : w.Follows) (op : FlowOp) :
    (w.step op).Follows ↔ w.StepFollows op := by
  rw [follows_iff] at h ⊢
  cases op with
  | configure cfg env =>
    refine iff_of_true (fun i ↦ ?_) trivial
    rw [step, CpeAgent.applyConfig_table]
    exact h i
  | event x =>
    -- the slot of the event, the other slots of its flow, and the rest
    have htarget : ∀ i, w.agent.flow.target x.ev x.nowMs = some i →
        (FollowsAt ((w.step (.event x)).last i) ((w.step (.event x)).agent.flow.table i) ↔
          w.agent.flow.releases x.ev = true ∨ (w.agent.flow.table i).used = false ∨
            (w.agent.flow.table i).Suits x.ev.type) := by
      intro i hi
      have hslot : (w.step (.event x)).agent.flow.table i = _ := CpeFlowState.applyEvent_slot hi
      rw [step_event_last (Or.inl hi), hslot, followsAt_settle_iff]
    have hother : ∀ j, w.agent.flow.AlsoHolds x j →
        (FollowsAt ((w.step (.event x)).last j) ((w.step (.event x)).agent.flow.table j) ↔
          (w.agent.flow.table j).Suits x.ev.type) := by
      intro j hj
      have hslot : (w.step (.event x)).agent.flow.table j = _ :=
        CpeFlowState.applyEvent_slot_of_ne hj.2.2
      rw [step_event_last (Or.inr hj), hslot, followsAt_iff_suits hj.1]
    constructor
    · exact fun hnew ↦ ⟨fun i hi ↦ (htarget i hi).mp (hnew i), fun j hj ↦ (hother j hj).mp (hnew j)⟩
    · rintro ⟨hstored, hheld⟩ j
      by_cases hj : w.agent.flow.target x.ev x.nowMs = some j
      · exact (htarget j hj).mpr (hstored j hj)
      by_cases hholds : w.agent.flow.AlsoHolds x j
      · exact (hother j hholds).mpr (hheld j hholds)
      · have hslot : (w.step (.event x)).agent.flow.table j = _ :=
          CpeFlowState.applyEvent_slot_of_ne hj
        rw [step_event_of_not hj hholds, hslot]
        exact h j

/-! ## With teardown lines on -/

/-- Teardowns are printed, and every occupied slot is alive. -/
structure Lively (w : Watched) : Prop where
  emitDestroy : w.agent.flow.emitDestroy = true
  alive : ∀ i, (w.agent.flow.table i).used = true → (w.agent.flow.table i).alive = true

theorem Lively.releases_eq {w : Watched} (h : w.Lively) (ev : NfctEvent) :
    w.agent.flow.releases ev = decide (ev.type = .destroy) := by
  rw [CpeFlowState.releases, h.emitDestroy, Bool.and_true]

def SoleTeardown (w : Watched) (x : FlowInput) : Prop :=
  x.ev.type = .destroy → ∀ j, ¬ w.agent.flow.AlsoHolds x j

theorem Lively.stepFollows_iff {w : Watched} (h : w.Lively) (x : FlowInput) :
    w.StepFollows (.event x) ↔ w.SoleTeardown x := by
  constructor
  · intro hstep hd j hj
    rcases hstep.2 j hj with hother | halive
    · exact absurd (hd.symm.trans hother) (by decide)
    · rw [h.alive j hj.1, hd] at halive
      exact absurd halive (by decide)
  · intro hsole
    by_cases hd : x.ev.type = .destroy
    · refine ⟨fun i _ ↦ Or.inl ?_, fun j hj ↦ absurd hj (hsole hd j)⟩
      rw [h.releases_eq]
      exact decide_eq_true hd
    · have hsuits : ∀ j, (w.agent.flow.table j).used = true →
          (w.agent.flow.table j).Suits x.ev.type :=
        fun j hj ↦ Or.inr (by rw [h.alive j hj, decide_eq_true hd])
      refine ⟨fun i _ ↦ Or.inr ?_, fun j hj ↦ hsuits j hj.1⟩
      cases hused : (w.agent.flow.table i).used with
      | false => exact Or.inl rfl
      | true => exact Or.inr (hsuits i hused)

theorem Lively.step {w : Watched} (h : w.Lively) (x : FlowInput) :
    (w.step (.event x)).Lively where
  emitDestroy := (w.agent.retabled_applyEvent x).emitDestroy_eq.trans h.emitDestroy
  alive j hj := by
    by_cases htarget : w.agent.flow.target x.ev x.nowMs = some j
    · have hslot : (w.step (.event x)).agent.flow.table j = _ :=
        CpeFlowState.applyEvent_slot htarget
      rw [hslot] at hj ⊢
      cases hd : w.agent.flow.releases x.ev with
      | true =>
        rw [CpeFlowState.settle_used_of_releases hd] at hj
        exact absurd hj Bool.false_ne_true
      | false =>
        rw [CpeFlowState.settle_of_not_releases hd]
        rw [h.releases_eq, decide_eq_false_iff_not] at hd
        cases hused : (w.agent.flow.table j).used with
        | false => rw [storeEvent_of_unused hused, entryFromEvent_alive, decide_eq_true hd]
        | true => rw [(merged_storeEvent hused x.ev x.nowMs).alive_eq, h.alive j hused]
    · have hslot : (w.step (.event x)).agent.flow.table j = _ :=
        CpeFlowState.applyEvent_slot_of_ne htarget
      rw [hslot] at hj ⊢
      exact h.alive j hj

/-! ## Runs -/

/-- The law holds in every state of the run. -/
def AllFollow (w : Watched) (ops : List FlowOp) : Prop := AllStates step Follows w ops

/-- Every step of the run meets the condition. -/
def AllStepsFollow (w : Watched) (ops : List FlowOp) : Prop := AllSteps step StepFollows w ops

/-- While teardowns are printed, a run meets the condition exactly when every teardown finds all of
its flow in one slot. -/
theorem Lively.allStepsFollow_iff {w : Watched} (h : w.Lively) (xs : List FlowInput) :
    w.AllStepsFollow (xs.map .event) ↔
      AllSteps (fun v x ↦ v.step (.event x)) SoleTeardown w xs := by
  induction xs generalizing w with
  | nil => exact Iff.rfl
  | cons x xs ih => exact and_congr (h.stepFollows_iff x) (ih (h.step x))

/-- From an empty table, the flag follows the events in every state of the run if and only if every
step meets the condition. -/
theorem allFollow_run_iff (a : CpeAgent) (hempty : ∀ i, a.flow.table i = CpeFlowEntry.zero)
    (ops : List FlowOp) :
    AllFollow ⟨a, fun _ ↦ .other⟩ ops ↔ AllStepsFollow ⟨a, fun _ ↦ .other⟩ ops := by
  refine allStates_iff_allSteps (fun _ h op ↦ follows_step_iff h op)
    ((follows_iff _).mpr fun i hused ↦ ?_) ops
  rw [hempty i] at hused
  exact absurd hused Bool.false_ne_true

/-- A flow opened, torn down and opened again, with teardown lines on. -/
theorem allFollow_run_reopened :
    AllFollow ⟨CpeAgent.twoSlotAgent, fun _ ↦ .other⟩
      [.event (eventOf .new 6 1000), .event (eventOf .destroy 6 2000),
        .event (eventOf .new 6 3000)] := by
  refine (allFollow_run_iff CpeAgent.twoSlotAgent (fun _ ↦ rfl) _).mpr ?_
  have hlively : Lively ⟨CpeAgent.twoSlotAgent, fun _ ↦ .other⟩ :=
    ⟨rfl, fun j hj ↦ absurd hj Bool.false_ne_true⟩
  refine (hlively.allStepsFollow_iff [eventOf .new 6 1000, eventOf .destroy 6 2000,
    eventOf .new 6 3000]).mpr ⟨fun hd ↦ absurd hd (by decide), fun _ ↦ ?_,
      fun hd ↦ absurd hd (by decide), trivial⟩
  decide +kernel

/-- An event of `eventOf` with a conntrack id. -/
def eventWithId (id : UInt32) (type : NfctEventType) (protocol : UInt8) (nowMs : UInt64) :
    FlowInput :=
  { eventOf type protocol nowMs with
    ev := { (eventOf type protocol nowMs).ev with hasId := true, id := id } }

/-- With teardown lines off, a flow that is torn down is still in the table, and alive. With
teardown lines on, so is the second slot of a flow whose other slot is released. -/
theorem not_allFollow_destroyed :
    ¬ AllFollow ⟨{ CpeAgent.create with
        flow := { cpeFlowStateInit with maxFlows := 1, emitDestroy := false } }, fun _ ↦ .other⟩
      [.event (eventOf .new 6 1000), .event (eventOf .destroy 6 2000)] ∧
    ¬ AllFollow ⟨CpeAgent.twoSlotAgent, fun _ ↦ .other⟩
      [.event (eventWithId 1 .new 6 1000), .event (eventWithId 2 .new 17 2000),
        .event (eventWithId 1 .update 17 3000), .event (eventWithId 1 .destroy 17 4000)] := by
  constructor
  · intro h
    have hslot := ((h.2.2 0).1 (by decide +kernel)).1
    revert hslot
    decide +kernel
  · intro h
    have hslot := ((h.2.2.2.2 1).1 (by decide +kernel)).1
    revert hslot
    decide +kernel

end Watched

end NetForensics

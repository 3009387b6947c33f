import NetForensics.Flow.History

/-!
# One slot for each flow

No two occupied slots should carry the same tuple, nor the same conntrack id. An event is stored in
one slot and rewrites both keys of it, so the table stays free of duplicates exactly when no other
slot, in the searched window or beyond it, answers the event: `unique_iff_target`. Runs
interleave events with configurations, which move the window and leave the table alone.
-/

namespace NetForensics

/-- A step of a run: an event, or a configuration. -/
inductive FlowOp where
  | event (x : FlowInput)
  | configure (cfg : CpeAgentConfig) (env : ApplyEnv)

namespace CpeAgent

def flowStep (a : CpeAgent) : FlowOp → CpeAgent
  | .event x => (a.applyEvent x).1
  | .configure cfg env => (a.applyConfig cfg env).1

def flowRun (a : CpeAgent) (ops : List FlowOp) : CpeAgent := ops.foldl flowStep a

/-! ## Configurations leave the table alone -/

theorem rebindFlow_table (old cfg : CpeAgentConfig) (st : CpeFlowState) (res dump : OpenResult) :
    (rebindFlow old cfg st res dump).table = st.table := by
  unfold rebindFlow
  dsimp only
  split
  · split
    · unfold cpeAgentFlowOpen
      split
      · rfl
      · split <;> rfl
    · rfl
  · split <;> rfl

theorem installConfig_table (a : CpeAgent) (cfg : CpeAgentConfig) (env : ApplyEnv) :
    (a.installConfig cfg env).flow.table = a.flow.table := by
  rw [installConfig, eqPush_flow]
  exact rebindFlow_table _ _ _ _ _

theorem applyConfig_table (a : CpeAgent) (cfg : CpeAgentConfig) (env : ApplyEnv) :
    (a.applyConfig cfg env).1.flow.table = a.flow.table := by
  rcases a.applyConfig_cases cfg env with ⟨err, -, hres⟩ | ⟨-, -, -, bytes, hres⟩ |
    ⟨-, -, hres⟩ | ⟨-, -, -, cap, slots, hres⟩
  · rw [hres, eqPush_flow]
  · rw [hres, eqPush_flow, eqPush_flow]
    rfl
  · rw [hres, installConfig_table]
  · rw [hres, installConfig_table]

end CpeAgent

/-! ## Duplicates -/

/-- Two records that would be taken for the same flow. -/
def CpeFlowEntry.Clash (e e' : CpeFlowEntry) : Prop :=
  e.tuple = e'.tuple ∨ (e.hasCtId = true ∧ e'.hasCtId = true ∧ e.ctId = e'.ctId)

theorem CpeFlowEntry.Clash.symm {e e' : CpeFlowEntry} (h : e.Clash e') : e'.Clash e :=
  h.imp Eq.symm fun ⟨h₁, h₂, h₃⟩ ↦ ⟨h₂, h₁, h₃.symm⟩

/-- No two occupied slots clash, anywhere in the table. -/
def CpeFlowState.Unique (st : CpeFlowState) : Prop :=
  ∀ i j, i ≠ j → (st.table i).used = true → (st.table j).used = true →
    ¬ (st.table i).Clash (st.table j)

/-- The event brings no duplicate: it is ignored or released at once, or the only occupied slot of
the whole table that can answer it is the first one the search meets, or nothing is stored because
no slot of the window is free, answers, or can be evicted. -/
def CpeFlowState.Distinct (st : CpeFlowState) (x : FlowInput) : Prop :=
  x.ev.ignored = true ∨ st.releases x.ev = true ∨
    (∀ j, (st.table j).used = true → (st.table j).answers (entryFromEvent x.ev x.nowMs) = true →
      (scanned st.maxFlows).find? (fun i ↦ (st.table i).used &&
        (st.table i).answers (entryFromEvent x.ev x.nowMs)) = some j) ∨
    ∀ i ∈ scanned st.maxFlows, (st.table i).used = true ∧
      (st.table i).answers (entryFromEvent x.ev x.nowMs) = false ∧
      ¬ (st.table i).lastSeenMs < UInt64.ofNat (2 ^ 64 - 1)

/-- A stored event clashes with a slot it could have been stored in; or the slot it is stored in
clashed before. -/
theorem clash_storeEvent {slot e : CpeFlowEntry} (x : FlowInput)
    (h : (storeEvent slot x.ev x.nowMs).Clash e) :
    e.answers (entryFromEvent x.ev x.nowMs) = true ∨ (slot.used = true ∧ slot.Clash e) := by
  rw [answers_entryFromEvent]
  rcases h with htuple | ⟨hhas, hhas', hct⟩
  · rw [storeEvent_tuple] at htuple
    exact Or.inl (Or.inr htuple.symm)
  · cases hid : x.ev.hasId with
    | true =>
      rw [(storeEvent_ctId slot hid x.nowMs).2] at hct
      exact Or.inl (Or.inl ⟨rfl, hhas', hct.symm⟩)
    | false =>
      have hkey : (entryFromEvent x.ev x.nowMs).hasCtId = false := by
        rw [entryFromEvent_hasCtId, hid]
      cases hused : slot.used with
      | false =>
        rw [storeEvent_of_unused hused, hkey] at hhas
        exact absurd hhas Bool.false_ne_true
      | true =>
        have hm := merged_storeEvent hused x.ev x.nowMs
        rw [hm.hasCtId_eq, hkey] at hhas
        rw [hm.ctId_eq, hkey] at hct
        exact Or.inr ⟨rfl, Or.inr ⟨hhas, hhas', hct⟩⟩

theorem clash_of_answers {slot e : CpeFlowEntry} (x : FlowInput)
    (h : e.answers (entryFromEvent x.ev x.nowMs) = true) :
    (storeEvent slot x.ev x.nowMs).Clash e := by
  rcases answers_entryFromEvent.mp h with ⟨hid, hhas, hct⟩ | htuple
  · obtain ⟨hhas', hct'⟩ := storeEvent_ctId slot hid x.nowMs
    exact Or.inr ⟨hhas', hhas, by rw [hct', hct]⟩
  · exact Or.inl (by rw [storeEvent_tuple, htuple])

/-! ## Changing one slot -/

namespace CpeFlowState

variable {st st' : CpeFlowState} {i : FlowSlot}

theorem Unique.of_released (h : st.Unique) (hi : (st'.table i).used = false)
    (hother : ∀ j, j ≠ i → st'.table j = st.table j) : st'.Unique := by
  intro j k hjk hj hk
  have hji : j ≠ i := fun hji ↦ by
    rw [hji, hi] at hj
    exact Bool.false_ne_true hj
  have hki : k ≠ i := fun hki ↦ by
    rw [hki, hi] at hk
    exact Bool.false_ne_true hk
  rw [hother j hji] at hj ⊢
  rw [hother k hki] at hk ⊢
  exact h j k hjk hj hk

/-- Filling a slot brings no duplicate if and only if no other slot clashes with it. -/
theorem Unique.filled_iff (h : st.Unique) (hi : (st'.table i).used = true)
    (hother : ∀ j, j ≠ i → st'.table j = st.table j) :
    st'.Unique ↔
      ∀ j, j ≠ i → (st.table j).used = true → ¬ (st'.table i).Clash (st.table j) := by
  constructor
  · intro hnew j hj hused
    rw [← hother j hj] at hused ⊢
    exact hnew i j hj.symm hi hused
  · intro hno j k hjk hj hk hclash
    by_cases hji : j = i
    · subst hji
      rw [hother k hjk.symm] at hk hclash
      exact hno k hjk.symm hk hclash
    · by_cases hki : k = i
      · subst hki
        rw [hother j hji] at hj hclash
        exact hno j hji hj hclash.symm
      · rw [hother j hji] at hj hclash
        rw [hother k hki] at hk hclash
        exact h j k hjk hj hk hclash

end CpeFlowState

/-! ## One event -/

variable {a : CpeAgent}

/-- A table without duplicates stays so if and only if no slot but the one the event is stored in
answers it. -/
theorem unique_iff_target (h : a.flow.Unique) (x : FlowInput) :
    (a.applyEvent x).1.flow.Unique ↔
      (a.flow.releases x.ev = true ∨ ∀ i, a.flow.target x.ev x.nowMs = some i → ∀ j, j ≠ i →
        (a.flow.table j).used = true →
        (a.flow.table j).answers (entryFromEvent x.ev x.nowMs) = false) := by
  cases htarget : a.flow.target x.ev x.nowMs with
  | none =>
    have htable := a.applyEvent_table x
    rw [CpeFlowState.tableStep_of_target_none htarget] at htable
    refine iff_of_true ?_ (Or.inr fun i hi ↦ absurd hi (by simp))
    rw [CpeFlowState.Unique, htable]
    exact h
  | some i =>
    have hslot := CpeFlowState.applyEvent_slot htarget
    have hother : ∀ j, j ≠ i → (a.applyEvent x).1.flow.table j = a.flow.table j := fun j hj ↦
      CpeFlowState.applyEvent_slot_of_ne (by
        rw [htarget]
        exact fun hij ↦ hj (Option.some.inj hij).symm)
    cases hrel : a.flow.releases x.ev with
    | true =>
      refine iff_of_true (h.of_released ?_ hother) (Or.inl rfl)
      rw [hslot, CpeFlowState.settle_used_of_releases hrel]
    | false =>
      rw [CpeFlowState.settle_of_not_releases hrel] at hslot
      rw [or_iff_right Bool.false_ne_true,
        h.filled_iff (by rw [hslot, storeEvent_used]) hother, hslot]
      constructor
      · intro hno i' hi' j hj hused
        cases hi'
        by_contra hans
        exact hno j hj hused (clash_of_answers x (Bool.not_eq_false _ ▸ hans))
      · intro hno j hj hused hclash
        -- the slot's own keys did not clash before; what it took from the event does not either
        rcases clash_storeEvent x hclash with hans | ⟨hui, hold⟩
        · rw [hno i rfl j hj hused] at hans
          exact Bool.false_ne_true hans
        · exact h i j hj.symm hui hused hold

/-- With no answer in the window, for a slot that is free or does not answer. -/
private theorem unanswered_iff {st : CpeFlowState} {x : FlowInput} {i : FlowSlot}
    (hi : (st.table i).used = true →
      (st.table i).answers (entryFromEvent x.ev x.nowMs) = false) :
    (∀ j, (st.table j).used = true → (st.table j).answers (entryFromEvent x.ev x.nowMs) = true →
        (none : Option FlowSlot) = some j) ↔
      ∀ i', some i = some i' → ∀ j, j ≠ i' → (st.table j).used = true →
        (st.table j).answers (entryFromEvent x.ev x.nowMs) = false := by
  constructor
  · intro h i' _ j _ hu
    by_contra hans
    exact absurd (h j hu (Bool.not_eq_false _ ▸ hans)) (by simp)
  · intro h j hu hans
    by_cases hji : j = i
    · rw [hji] at hu hans
      rw [hi hu] at hans
      exact absurd hans Bool.false_ne_true
    · rw [h i rfl j hji hu] at hans
      exact absurd hans Bool.false_ne_true

theorem distinct_iff_target (st : CpeFlowState) (x : FlowInput) :
    st.Distinct x ↔ (st.releases x.ev = true ∨ ∀ i, st.target x.ev x.nowMs = some i → ∀ j, j ≠ i →
      (st.table j).used = true →
      (st.table j).answers (entryFromEvent x.ev x.nowMs) = false) := by
  by_cases hign : x.ev.ignored = true
  · refine iff_of_true (Or.inl hign) (Or.inr fun i htarget ↦ ?_)
    exact absurd (CpeFlowState.ignored_of_target htarget) (by simp [hign])
  by_cases hrel : st.releases x.ev = true
  · exact iff_of_true (Or.inr (Or.inl hrel)) (Or.inl hrel)
  rw [CpeFlowState.Distinct, or_iff_right hign, or_iff_right hrel, or_iff_right hrel]
  rw [Bool.not_eq_true] at hign
  have hscan := scanResult_target st hign x.nowMs
  generalize st.target x.ev x.nowMs = target at hscan
  cases hscan with
  | @known i hmem hused hown hfirst =>
    rw [hfirst]
    constructor
    · rintro (h | h) i' hi' j hj hu
      · cases hi'
        by_contra hans
        exact hj (Option.some.inj (h j hu (Bool.not_eq_false _ ▸ hans))).symm
      · exact absurd (h i hmem).2.1 (by simp [hown])
    · refine fun h ↦ Or.inl fun j hu hans ↦ ?_
      by_contra hne
      have hji : j ≠ i := fun hji ↦ hne (by rw [hji])
      rw [h i rfl j hji hu] at hans
      exact Bool.false_ne_true hans
  | @free i hmem hfree hno =>
    rw [find?_answer_eq_none.mpr hno, or_iff_left fun h ↦ absurd (h i hmem).1 (by simp [hfree])]
    exact unanswered_iff fun hu ↦ absurd hu (by simp [hfree])
  | @evict i hmem hused hfull hno hvictims =>
    obtain ⟨k, hk, hyoung⟩ := hvictims
    rw [find?_answer_eq_none.mpr fun j hj _ ↦ hno j hj,
      or_iff_left fun h ↦ (h k hk).2.2 hyoung]
    exact unanswered_iff fun _ ↦ hno i hmem
  | stuck hfull hno hstamp =>
    refine iff_of_true (Or.inr fun j hj ↦ ⟨hfull j hj, hno j hj, hstamp j hj⟩) fun i hi ↦ ?_
    exact absurd hi (by simp)

/-! ## Runs -/

namespace CpeAgent

/-- The condition on a step; configurations are free. -/
def StepDistinct (a : CpeAgent) : FlowOp → Prop
  | .event x => a.flow.Distinct x
  | .configure _ _ => True

/-- No step of the run brings a duplicate. -/
def AllDistinct (a : CpeAgent) (ops : List FlowOp) : Prop := AllSteps flowStep StepDistinct a ops

/-- No state of the run has a duplicate. -/
def AllUnique (a : CpeAgent) (ops : List FlowOp) : Prop :=
  AllStates flowStep (fun a ↦ a.flow.Unique) a ops

theorem unique_flowStep_iff (h : a.flow.Unique) (op : FlowOp) :
    (a.flowStep op).flow.Unique ↔ a.StepDistinct op := by
  cases op with
  | event x => exact (unique_iff_target h x).trans (distinct_iff_target a.flow x).symm
  | configure cfg env =>
    refine iff_of_true ?_ trivial
    rw [flowStep, CpeFlowState.Unique, applyConfig_table]
    exact h

/-- From an empty table, no state of the run has two occupied slots with the same tuple or the same
conntrack id, if and only if no step of the run brings a duplicate. -/
theorem allUnique_run_iff (a : CpeAgent) (hempty : ∀ i, a.flow.table i = CpeFlowEntry.zero)
    (ops : List FlowOp) : a.AllUnique ops ↔ a.AllDistinct ops := by
  refine allStates_iff_allSteps (fun _ h op ↦ unique_flowStep_iff h op) (fun i j _ hi _ ↦ ?_) ops
  rw [hempty i] at hi
  exact absurd hi Bool.false_ne_true

def twoSlotAgent : CpeAgent := { create with flow := { cpeFlowStateInit with maxFlows := 2 } }

/-- One flow, opened and updated. -/
theorem allUnique_run_updated :
    twoSlotAgent.AllUnique [.event (eventOf .new 6 1000), .event (eventOf .update 6 3000)] := by
  refine (allUnique_run_iff twoSlotAgent (fun _ ↦ rfl) _).mpr
    ⟨Or.inr (Or.inr (Or.inl fun j hj ↦ ?_)), Or.inr (Or.inr (Or.inl fun j hj _ ↦ ?_)), trivial⟩
  · exact absurd hj Bool.false_ne_true
  · have hzero : twoSlotAgent.flow.target (eventOf .new 6 1000).ev 1000 = some 0 := by
      decide +kernel
    by_cases h0 : j = 0
    · rw [h0]
      decide +kernel
    · have hne : twoSlotAgent.flow.target (eventOf .new 6 1000).ev 1000 ≠ some j := by
        rw [hzero]
        exact fun h ↦ h0 (Option.some.inj h).symm
      have hslot := CpeFlowState.applyEvent_slot_of_ne (x := eventOf .new 6 1000) hne
      rw [flowStep, hslot] at hj
      exact absurd hj Bool.false_ne_true

/-- Two flows, a configuration that halves the window, and an update of the flow that is now outside
it: the flow has two slots. -/
theorem not_allUnique_shrink :
    ¬ twoSlotAgent.AllUnique [.event (eventOf .new 6 1000), .event (eventOf .new 17 2000),
      .configure { cpeAgentConfigDefaults with flowMaxFlows := 1 } ⟨true, .ok 3, .ok 4, .ok 5⟩,
      .event (eventOf .update 17 3000)] := by
  intro h
  refine h.2.2.2.2 0 1 (by decide) (by decide +kernel) (by decide +kernel) (Or.inl ?_)
  decide +kernel

end CpeAgent

end NetForensics

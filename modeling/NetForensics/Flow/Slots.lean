import NetForensics.Flow.Identity

/-!
# Slots and their number

`find_slot` looks for three slots in one pass: the first that answers, the first that is free, and
the one unseen for longest. `CpeFlowState.Picks` says which of them it is to return.

`table_used` counts the occupied slots of the whole table, those outside the searched window
included. It goes up where an event takes a free slot and down where a teardown releases one, with
a guard at zero; the count is right at every step of a run in which the window moves.
-/

namespace NetForensics

namespace CpeFlowState

/-! ## The search -/

def window (st : CpeFlowState) : Set FlowSlot := {i | i.val < st.maxFlows.toNat}

def matching (st : CpeFlowState) (key : CpeFlowEntry) : Set FlowSlot :=
  {i | i ∈ st.window ∧ (st.table i).used = true ∧ (st.table i).answers key = true}

def vacant (st : CpeFlowState) : Set FlowSlot := {i | i ∈ st.window ∧ (st.table i).used = false}

/-- What a search for `key` is to return. -/
structure Picks (st : CpeFlowState) (key : CpeFlowEntry) (res : Option FlowSlot) : Prop where
  known : (st.matching key).Nonempty → ∃ i, res = some i ∧ IsLeast (st.matching key) i
  free : st.matching key = ∅ → st.vacant.Nonempty → ∃ i, res = some i ∧ IsLeast st.vacant i
  /-- The stamp that no slot may have is the one the search starts with. -/
  oldest : st.matching key = ∅ → st.vacant = ∅ →
    (∃ j ∈ st.window, (st.table j).lastSeenMs.toNat < 2 ^ 64 - 1) →
    ∃ i ∈ st.window, res = some i ∧
      ∀ j ∈ st.window, (st.table i).lastSeenMs.toNat ≤ (st.table j).lastSeenMs.toNat

variable (st : CpeFlowState) (key : CpeFlowEntry)

theorem mem_window_iff {i : FlowSlot} : i ∈ st.window ↔ i ∈ scanned st.maxFlows := mem_scanned.symm

/-- The three candidates of the pass, in the order of their priority. -/
theorem findSlot_eq : findSlot st key =
    ((scanned st.maxFlows).find? fun i ↦ (st.table i).used && (st.table i).answers key).or
      (((scanned st.maxFlows).find? fun i ↦ !(st.table i).used).or
        (NetForensics.oldest (fun i ↦ (st.table i).used) (fun i ↦ (st.table i).lastSeenMs)
          (scanned st.maxFlows) (UInt64.ofNat (2 ^ 64 - 1)) none)) := by
  rw [findSlot, scan_eq, Option.none_or]

/-- The first element found in the window is the least of its kind. -/
theorem isLeast_of_find?_scanned {p : FlowSlot → Bool} {s : Set FlowSlot}
    (hs : ∀ i, i ∈ s ↔ i ∈ scanned st.maxFlows ∧ p i = true) (hne : s.Nonempty) :
    ∃ i, (scanned st.maxFlows).find? p = some i ∧ IsLeast s i := by
  obtain ⟨k, hk⟩ := hne
  obtain ⟨i, hi⟩ := Option.isSome_iff_exists.mp
    (List.find?_isSome.mpr ⟨k, ((hs k).mp hk).1, ((hs k).mp hk).2⟩)
  refine ⟨i, hi, ?_⟩
  have hset : s = {j | j ∈ scanned st.maxFlows ∧ p j = true} := Set.ext hs
  rw [hset]
  exact isLeast_of_find? (pairwise_scanned _) hi

theorem find?_scanned_eq_none {p : FlowSlot → Bool} {s : Set FlowSlot}
    (hs : ∀ i, i ∈ s ↔ i ∈ scanned st.maxFlows ∧ p i = true) (hempty : s = ∅) :
    (scanned st.maxFlows).find? p = none := by
  refine List.find?_eq_none.mpr fun i hi hp ↦ ?_
  have hmem := (hs i).mpr ⟨hi, hp⟩
  rw [hempty] at hmem
  exact hmem

theorem mem_matching_iff (i : FlowSlot) : i ∈ st.matching key ↔
    i ∈ scanned st.maxFlows ∧ ((st.table i).used && (st.table i).answers key) = true := by
  rw [← mem_window_iff, Bool.and_eq_true]
  exact Iff.rfl

theorem mem_vacant_iff (i : FlowSlot) : i ∈ st.vacant ↔
    i ∈ scanned st.maxFlows ∧ (!(st.table i).used) = true := by
  rw [← mem_window_iff, Bool.not_eq_true']
  exact Iff.rfl

theorem picks_findSlot : st.Picks key (findSlot st key) where
  known hne := by
    obtain ⟨i, hi, hleast⟩ := st.isLeast_of_find?_scanned (st.mem_matching_iff key) hne
    exact ⟨i, by rw [findSlot_eq, hi, Option.some_or], hleast⟩
  free hempty hne := by
    obtain ⟨i, hi, hleast⟩ := st.isLeast_of_find?_scanned st.mem_vacant_iff hne
    refine ⟨i, ?_, hleast⟩
    rw [findSlot_eq, st.find?_scanned_eq_none (st.mem_matching_iff key) hempty, hi,
      Option.none_or, Option.some_or]
  oldest hmatching hvacant hyoung := by
    obtain ⟨k, hk, hlt⟩ := hyoung
    have hfull : ∀ j ∈ st.window, (st.table j).used = true := by
      intro j hj
      by_contra hfree
      exact Set.eq_empty_iff_forall_notMem.mp hvacant j ⟨hj, Bool.not_eq_true _ ▸ hfree⟩
    have hsome : (NetForensics.oldest (fun i ↦ (st.table i).used)
        (fun i ↦ (st.table i).lastSeenMs) (scanned st.maxFlows) (UInt64.ofNat (2 ^ 64 - 1))
        none).isSome = true :=
      oldest_isSome_iff.mpr (.inr ⟨k, (st.mem_window_iff).mp hk, hfull k hk,
        UInt64.lt_iff_toNat_lt.mpr hlt⟩)
    obtain ⟨i, hi⟩ := Option.isSome_iff_exists.mp hsome
    have hmem : i ∈ scanned st.maxFlows := by
      rcases oldest_eq_some hi with ⟨hmem, -⟩ | habs
      · exact hmem
      · exact absurd habs (Option.some_ne_none i).symm
    have hleast := (oldest_le (fun s t ↦ UInt64.lt_iff_toNat_lt) (fun k hk ↦
      absurd hk (Option.some_ne_none k).symm) hi).2
    refine ⟨i, (st.mem_window_iff).mpr hmem, ?_, fun j hj ↦
      hleast j ((st.mem_window_iff).mp hj) (hfull j hj)⟩
    rw [findSlot_eq, st.find?_scanned_eq_none (st.mem_matching_iff key) hmatching,
      st.find?_scanned_eq_none st.mem_vacant_iff hvacant, hi, Option.none_or, Option.none_or]

/-- One slot of the window with an ordinary stamp is enough for the search not to fail. -/
theorem Picks.ne_none {st : CpeFlowState} {key : CpeFlowEntry} {res : Option FlowSlot}
    (h : st.Picks key res)
    (hyoung : ∃ j ∈ st.window, (st.table j).lastSeenMs.toNat < 2 ^ 64 - 1) : res ≠ none := by
  rcases (st.matching key).eq_empty_or_nonempty with hmatching | hmatching
  · rcases st.vacant.eq_empty_or_nonempty with hvacant | hvacant
    · obtain ⟨i, -, hi, -⟩ := h.oldest hmatching hvacant hyoung
      exact hi ▸ Option.some_ne_none i
    · obtain ⟨i, hi, -⟩ := h.free hmatching hvacant
      exact hi ▸ Option.some_ne_none i
  · obtain ⟨i, hi, -⟩ := h.known hmatching
    exact hi ▸ Option.some_ne_none i

end CpeFlowState

/-! ## The count -/

/-- The occupied slots of a table, in the window or not. -/
def occupied (table : FlowSlot → CpeFlowEntry) : Finset FlowSlot :=
  Finset.univ.filter fun i ↦ (table i).used = true

theorem mem_occupied {table : FlowSlot → CpeFlowEntry} {i : FlowSlot} :
    i ∈ occupied table ↔ (table i).used = true := by
  rw [occupied, Finset.mem_filter_univ]

theorem occupied_update_of_used (table : FlowSlot → CpeFlowEntry) (i : FlowSlot)
    {e : CpeFlowEntry} (he : e.used = true) :
    occupied (Function.update table i e) = insert i (occupied table) := by
  ext j
  rw [mem_occupied, Finset.mem_insert, mem_occupied]
  by_cases hji : j = i
  · rw [hji, Function.update_self]
    exact iff_of_true he (.inl rfl)
  · rw [Function.update_of_ne hji, or_iff_right hji]

theorem occupied_update_of_unused (table : FlowSlot → CpeFlowEntry) (i : FlowSlot)
    {e : CpeFlowEntry} (he : e.used = false) :
    occupied (Function.update table i e) = (occupied table).erase i := by
  ext j
  rw [mem_occupied, Finset.mem_erase, mem_occupied]
  by_cases hji : j = i
  · rw [hji, Function.update_self, he]
    exact iff_of_false Bool.false_ne_true fun h ↦ h.1 rfl
  · rw [Function.update_of_ne hji, and_iff_right hji]

theorem card_occupied_le (table : FlowSlot → CpeFlowEntry) : (occupied table).card ≤ cpeFlowMax :=
  (Finset.card_le_univ _).trans_eq (Fintype.card_fin _)

/-- `table_used` is the number of occupied slots. -/
def CpeFlowState.Counted (st : CpeFlowState) : Prop :=
  st.tableUsed.toNat = (occupied st.table).card

namespace CpeAgent

variable (a : CpeAgent)

theorem warnNoAcct_tableUsed (ev : NfctEvent) :
    (a.warnNoAcct ev).flow.tableUsed = a.flow.tableUsed := by
  rw [warnNoAcct]
  split <;> rfl

theorem emitDestroyLine_tableUsed (clock : Option WallClock) (e : CpeFlowEntry) :
    (a.emitDestroyLine clock e).flow.tableUsed = a.flow.tableUsed := by
  rw [emitDestroyLine]
  split
  · rfl
  · dsimp only
    split <;> rw [spoolPushLine_flow]

theorem counted_storeInSlot (h : a.flow.Counted) (i : FlowSlot) (x : FlowInput) :
    (a.storeInSlot i x).flow.Counted := by
  have hle := card_occupied_le a.flow.table
  have htable := (a.retabled_storeInSlot i x).table_eq
  have hused : (a.storeInSlot i x).flow.tableUsed =
      if (a.flow.table i).used then a.flow.tableUsed else a.flow.tableUsed + 1 := rfl
  rw [CpeFlowState.Counted] at h ⊢
  rw [htable, hused, occupied_update_of_used _ i (storeEvent_used _ x.ev x.nowMs)]
  cases hi : (a.flow.table i).used with
  | true =>
    rw [if_pos rfl, h, Finset.insert_eq_of_mem (mem_occupied.mpr hi)]
  | false =>
    have hnot : i ∉ occupied a.flow.table := by rw [mem_occupied, hi]; exact Bool.false_ne_true
    have hadd : (a.flow.tableUsed + 1).toNat = a.flow.tableUsed.toNat + 1 := by
      rw [UInt32.toNat_add]
      exact Nat.mod_eq_of_lt (by rw [h]; exact (Nat.succ_le_succ hle).trans_lt (by decide))
    rw [if_neg Bool.false_ne_true, hadd, h, Finset.card_insert_of_notMem hnot]

/-- A slot that is released was occupied, and the guard at zero does not come into play. -/
theorem counted_releaseSlot (h : a.flow.Counted) {i : FlowSlot}
    (hi : (a.flow.table i).used = true) : (a.releaseSlot i).flow.Counted := by
  have hmem : i ∈ occupied a.flow.table := mem_occupied.mpr hi
  have hpos : 0 < (occupied a.flow.table).card := Finset.card_pos.mpr ⟨i, hmem⟩
  have htable : (a.releaseSlot i).flow.table =
      Function.update a.flow.table i (a.flow.table i).released := rfl
  have hused : (a.releaseSlot i).flow.tableUsed =
      if 0 < a.flow.tableUsed then a.flow.tableUsed - 1 else a.flow.tableUsed := rfl
  rw [CpeFlowState.Counted] at h ⊢
  have hlt : 0 < a.flow.tableUsed := by
    rw [UInt32.lt_iff_toNat_lt, h]
    exact hpos
  rw [htable, hused, if_pos hlt, occupied_update_of_unused _ i rfl, Finset.card_erase_of_mem hmem,
    UInt32.toNat_sub_of_le _ _ (by rw [UInt32.le_iff_toNat_le, h]; exact hpos), h]
  rfl

theorem counted_teardown (h : a.flow.Counted) {i : FlowSlot} (hi : (a.flow.table i).used = true)
    (clock : Option WallClock) : (a.teardown i clock).flow.Counted := by
  -- marking the record and printing it leave it occupied
  have hmark : (a.setSlot i (a.flow.table i).destroyed).flow.Counted := by
    have hdestroyed : (a.flow.table i).destroyed.used = true := hi
    rw [CpeFlowState.Counted] at h ⊢
    rw [(a.retabled_setSlot i _).table_eq, occupied_update_of_used _ i hdestroyed,
      Finset.insert_eq_of_mem (mem_occupied.mpr hi)]
    exact h
  have hprint := (a.setSlot i (a.flow.table i).destroyed).retabled_emitDestroyLine clock
    ((a.setSlot i (a.flow.table i).destroyed).flow.table i)
  refine counted_releaseSlot _ ?_ ?_
  · rw [CpeFlowState.Counted, emitDestroyLine_tableUsed, hprint.table_eq]
    exact hmark
  · rw [hprint.table_eq, setSlot_table_self]
    exact hi

theorem counted_applyEvent (h : a.flow.Counted) (x : FlowInput) :
    (a.applyEvent x).1.flow.Counted := by
  have hwarn : (a.warnNoAcct x.ev).flow.Counted := by
    rw [CpeFlowState.Counted, warnNoAcct_tableUsed, (a.retabled_warnNoAcct x.ev).table_eq]
    exact h
  cases htarget : a.flow.target x.ev x.nowMs with
  | none =>
    rw [applyEvent_of_target_none htarget]
    split
    · exact h
    · exact hwarn
  | some i =>
    have hstored := counted_storeInSlot _ hwarn i x
    rw [applyEvent_of_target htarget]
    split
    · refine counted_teardown _ hstored ?_ x.clock
      rw [(a.retabled_stored i x).table_eq, Function.update_self, storeEvent_used]
    · split
      · rw [emitNewLine_flow]
        exact hstored
      · exact hstored

end CpeAgent

/-! ## Runs -/

/-- A step of a run: an event, a configuration, or another bound on the slots that are searched. -/
inductive SlotOp where
  | event (x : FlowInput)
  | configure (cfg : CpeAgentConfig) (env : ApplyEnv)
  | resize (maxFlows : UInt32) (inRange : 1 ≤ maxFlows.toNat ∧ maxFlows.toNat ≤ cpeFlowMax)

theorem flowSettings_maxFlows (cfg : CpeAgentConfig) (st : CpeFlowState) :
    1 ≤ (flowSettings cfg st).maxFlows.toNat ∧
      (flowSettings cfg st).maxFlows.toNat ≤ cpeFlowMax := by
  have hpos : ∀ n : UInt32, n ≠ 0 → 1 ≤ n.toNat := fun n hn ↦
    Nat.one_le_iff_ne_zero.mpr fun h0 ↦ hn (UInt32.toNat_inj.mp h0)
  rw [flowSettings]
  dsimp only
  split_ifs with hne hcap
  · exact ⟨by decide, le_rfl⟩
  · rw [UInt32.lt_iff_toNat_lt, not_lt] at hcap
    exact ⟨hpos _ hne, hcap⟩
  · exact ⟨by decide, le_rfl⟩
  · exact ⟨by decide, le_rfl⟩

/-- Apart from the settings, a configuration changes nothing that is counted. -/
theorem rebindFlow_kept (old cfg : CpeAgentConfig) (st : CpeFlowState) (res dump : OpenResult) :
    (rebindFlow old cfg st res dump).tableUsed = st.tableUsed ∧
      (rebindFlow old cfg st res dump).maxFlows = (flowSettings cfg st).maxFlows := by
  unfold rebindFlow
  dsimp only
  split
  · split
    · unfold cpeAgentFlowOpen
      split
      · exact ⟨rfl, rfl⟩
      · split <;> exact ⟨rfl, rfl⟩
    · exact ⟨rfl, rfl⟩
  · split <;> exact ⟨rfl, rfl⟩

namespace CpeAgent

def slotStep (a : CpeAgent) : SlotOp → CpeAgent
  | .event x => (a.applyEvent x).1
  | .configure cfg env => (a.applyConfig cfg env).1
  | .resize maxFlows _ => { a with flow := { a.flow with maxFlows := maxFlows } }

/-- The count is right, and the bound is in range. -/
structure Sound (a : CpeAgent) : Prop where
  counted : a.flow.Counted
  pos : 1 ≤ a.flow.maxFlows.toNat
  le : a.flow.maxFlows.toNat ≤ cpeFlowMax

variable {a : CpeAgent}

theorem Sound.installConfig (h : a.Sound) (cfg : CpeAgentConfig) (env : ApplyEnv) :
    (a.installConfig cfg env).Sound := by
  obtain ⟨hused, hmax⟩ := rebindFlow_kept a.cfg cfg a.flow env.nfctOpen env.nfctOpenDump
  obtain ⟨hpos, hle⟩ := flowSettings_maxFlows cfg a.flow
  refine ⟨?_, ?_, ?_⟩
  · rw [CpeFlowState.Counted, installConfig_table, CpeAgent.installConfig, eqPush_flow]
    exact (congrArg UInt32.toNat hused).trans h.counted
  · rw [CpeAgent.installConfig, eqPush_flow]
    exact hmax ▸ hpos
  · rw [CpeAgent.installConfig, eqPush_flow]
    exact hmax ▸ hle

theorem Sound.of_flow_eq {b : CpeAgent} (h : a.Sound) (heq : b.flow = a.flow) : b.Sound :=
  ⟨by rw [heq]; exact h.counted, by rw [heq]; exact h.pos, by rw [heq]; exact h.le⟩

theorem Sound.applyConfig (h : a.Sound) (cfg : CpeAgentConfig) (env : ApplyEnv) :
    (a.applyConfig cfg env).1.Sound := by
  rcases a.applyConfig_cases cfg env with ⟨err, -, hres⟩ | ⟨-, -, -, bytes, hres⟩ |
    ⟨-, -, hres⟩ | ⟨-, -, -, cap, slots, hres⟩
  · rw [hres]
    exact h.of_flow_eq (eqPush_flow _ _ _ _ _)
  · rw [hres]
    refine h.of_flow_eq ?_
    rw [eqPush_flow, eqPush_flow]
    rfl
  · rw [hres]
    exact h.installConfig _ env
  · rw [hres]
    have hnew : ({ a with
        spool := ⟨true, Ring.blank [] cap, a.spool.drops⟩
        slots := slots } : CpeAgent).Sound := h.of_flow_eq rfl
    exact hnew.installConfig _ env

theorem Sound.slotStep (h : a.Sound) (op : SlotOp) : (a.slotStep op).Sound := by
  cases op with
  | event x =>
    have hmax := (a.retabled_applyEvent x).maxFlows_eq
    exact ⟨a.counted_applyEvent h.counted x, hmax ▸ h.pos, hmax ▸ h.le⟩
  | configure cfg env => exact h.applyConfig cfg env
  | resize maxFlows inRange => exact ⟨h.counted, inRange.1, inRange.2⟩

/-! ## Stamps -/

/-- The stamp of a stored event is the time it was applied at. -/
theorem storeEvent_lastSeenMs (slot : CpeFlowEntry) (ev : NfctEvent) (nowMs : UInt64) :
    (storeEvent slot ev nowMs).lastSeenMs = nowMs := by
  have hid : ∀ e : CpeFlowEntry, e.ensureFlowId.lastSeenMs = e.lastSeenMs := fun e ↦ by
    obtain ⟨flowId, heq, -⟩ := e.ensureFlowId_eq
    rw [heq]
  have htuple : ∀ e tmp : CpeFlowEntry, (e.takeTuple tmp).lastSeenMs = e.lastSeenMs :=
    fun e tmp ↦ by
      rw [CpeFlowEntry.takeTuple]
      split <;> rfl
  rw [storeEvent]
  split
  · have htouched : ((slot.touch (entryFromEvent ev nowMs) nowMs).takeTuple
        (entryFromEvent ev nowMs)).lastSeenMs = nowMs := htuple _ _
    rw [mergeSlot, hid]
    cases ev.hasCounters with
    | true => exact htouched
    | false => exact htouched
  · rw [entryFromEvent]
    dsimp only
    split <;> rfl

/-- No slot has the stamp that the search starts with. -/
def Young (a : CpeAgent) : Prop := ∀ i, (a.flow.table i).lastSeenMs.toNat < 2 ^ 64 - 1

/-- An event is not applied at the very end of the clock. -/
def InTime : SlotOp → Prop
  | .event x => x.nowMs.toNat < 2 ^ 64 - 1
  | .configure _ _ => True
  | .resize _ _ => True

theorem Young.slotStep (h : a.Young) {op : SlotOp} (hop : InTime op) : (a.slotStep op).Young := by
  cases op with
  | event x =>
    intro i
    by_cases htarget : a.flow.target x.ev x.nowMs = some i
    · have hsettle : (a.flow.settle (a.flow.table i) x.ev x.nowMs).lastSeenMs = x.nowMs := by
        rw [CpeFlowState.settle]
        split
        · exact storeEvent_lastSeenMs _ x.ev x.nowMs
        · exact storeEvent_lastSeenMs _ x.ev x.nowMs
      rw [CpeAgent.slotStep, CpeFlowState.applyEvent_slot htarget, hsettle]
      exact hop
    · rw [CpeAgent.slotStep, CpeFlowState.applyEvent_slot_of_ne htarget]
      exact h i
  | configure cfg env =>
    intro i
    rw [CpeAgent.slotStep, applyConfig_table]
    exact h i
  | resize maxFlows inRange => exact h

/-! ## Every state of a run -/

/-- What holds of the slots of an agent. -/
structure SlotsRight (a : CpeAgent) : Prop where
  /-- `table_used` is the number of occupied slots of the whole table. -/
  counted : a.flow.tableUsed.toNat = (occupied a.flow.table).card
  picks : ∀ key, a.flow.Picks key (findSlot a.flow key)
  /-- The search fails at most where every slot of the window has the last of all stamps. -/
  found : ∀ key, (∀ i ∈ a.flow.window, (a.flow.table i).lastSeenMs.toNat < 2 ^ 64 - 1) →
    findSlot a.flow key ≠ none
  frame : ∀ x i, findSlot a.flow (entryFromEvent x.ev x.nowMs) ≠ some i →
    (a.applyEvent x).1.flow.table i = a.flow.table i

theorem Sound.zero_mem_window (h : a.Sound) : (0 : FlowSlot) ∈ a.flow.window := h.pos

theorem Sound.slotsRight (h : a.Sound) : a.SlotsRight where
  counted := h.counted
  picks := a.flow.picks_findSlot
  found key hyoung :=
    (a.flow.picks_findSlot key).ne_none ⟨0, h.zero_mem_window, hyoung 0 h.zero_mem_window⟩
  frame x i hne := by
    refine CpeFlowState.applyEvent_slot_of_ne fun htarget ↦ hne ?_
    rw [CpeFlowState.target] at htarget
    split_ifs at htarget
    exact htarget

/-- From an empty table, through events and changes of the window: the count is right, the search
returns the slot it should, and an event changes no other. Where no event comes at the very end of
the clock, the search never fails. -/
theorem slotsRight_run (a : CpeAgent) (hempty : ∀ i, a.flow.table i = CpeFlowEntry.zero)
    (hused : a.flow.tableUsed = 0)
    (hmax : 1 ≤ a.flow.maxFlows.toNat ∧ a.flow.maxFlows.toNat ≤ cpeFlowMax) (ops : List SlotOp) :
    AllStates slotStep SlotsRight a ops ∧
      ((∀ op ∈ ops, InTime op) →
        AllStates slotStep (fun a ↦ ∀ key, findSlot a.flow key ≠ none) a ops) := by
  have hnone : occupied a.flow.table = ∅ := by
    ext i
    rw [mem_occupied, hempty i]
    exact iff_of_false Bool.false_ne_true (Finset.notMem_empty i)
  have hcounted : a.flow.Counted := by
    rw [CpeFlowState.Counted, hused, hnone]
    rfl
  have hsound : a.Sound := ⟨hcounted, hmax.1, hmax.2⟩
  have hyoung : a.Young := fun i ↦ by
    rw [hempty i]
    decide
  refine ⟨?_, fun hops ↦ ?_⟩
  · exact (allStates_of_invariant (fun _ op hb ↦ hb.slotStep op) hsound ops).imp
      fun _ ↦ Sound.slotsRight
  · have hall : AllSteps slotStep (fun _ op ↦ InTime op) a ops :=
      allSteps_of_invariant (P := fun _ ↦ True) (fun _ _ op hop ↦ ⟨hops op hop, trivial⟩) trivial
    exact allStates_of_allSteps (Q := fun b ↦ Sound b ∧ Young b)
      (fun b hb key ↦ hb.1.slotsRight.found key fun i _ ↦ hb.2 i)
      (fun b op hb hop ↦ ⟨hb.1.slotStep op, hb.2.slotStep hop⟩) ⟨hsound, hyoung⟩ hall

/-- Two flows, a window of one slot, and an update of the flow outside it. -/
def resizedRun : List SlotOp :=
  [.event (eventOf .new 6 1000), .event (eventOf .new 17 2000), .resize 1 ⟨le_rfl, by decide⟩,
    .event (eventOf .update 17 3000)]

theorem slotsRight_run_resized :
    AllStates slotStep SlotsRight twoSlotAgent resizedRun ∧
      AllStates slotStep (fun a ↦ ∀ key, findSlot a.flow key ≠ none) twoSlotAgent resizedRun := by
  have hrun := slotsRight_run twoSlotAgent (fun _ ↦ rfl) rfl ⟨by decide, by decide⟩ resizedRun
  have htime : ∀ op ∈ resizedRun, InTime op := by
    simp [resizedRun, InTime, eventOf]
  exact ⟨hrun.1, hrun.2 htime⟩

end CpeAgent

end NetForensics

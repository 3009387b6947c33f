import NetForensics.Agent.Apply

/-!
# Applying conntrack events

`apply_event` on the whole agent: the table, its counters, and the lines pushed to the spool. What
it does to the table is `CpeFlowState.tableStep`, whatever becomes of the lines; what a search can
return is `scanResult_target`. The proofs about the table start from these two.

A run is a list of inputs, each an event with the clock readings it was applied under, interleaved
with configuration changes.
-/

namespace NetForensics

/-- An event as it is applied: with the monotonic clock and the wall clock at that moment. -/
structure FlowInput where
  ev : NfctEvent
  nowMs : UInt64
  clock : Option WallClock

namespace CpeAgent

/-- The counters of `apply_event` around a stored event. -/
def countEvent (a : CpeAgent) (wasUsed : Bool) : CpeAgent :=
  { a with flow := { a.flow with
    tableUsed := if wasUsed then a.flow.tableUsed else a.flow.tableUsed + 1
    eventsIn := a.flow.eventsIn + 1 } }

def warnNoAcct (a : CpeAgent) (ev : NfctEvent) : CpeAgent :=
  if ev.hasLan && !ev.hasCounters && !a.flow.warnedNoAcct &&
      (ev.type == .destroy || ev.type == .update) then
    { a with flow := { a.flow with warnedNoAcct := true } }
  else a

/-- `slot->… = …` for the slot `i`. -/
def setSlot (a : CpeAgent) (i : FlowSlot) (e : CpeFlowEntry) : CpeAgent :=
  { a with flow := { a.flow with table := Function.update a.flow.table i e } }

/-- The line `apply_event` prints for a record, in its buffer of `CPE_NDJSON_LINE_MAX` bytes. -/
def flowLine (a : CpeAgent) (clock : Option WallClock) (event : String) (e : CpeFlowEntry) :
    Option CStr :=
  cpeFlowFormatNdjson clock a.cfg.routerId (ascii event) e cpeNdjsonLineMax

/-- The `destroy` line: formatted, pushed, and counted when the push succeeds. -/
def emitDestroyLine (a : CpeAgent) (clock : Option WallClock) (e : CpeFlowEntry) : CpeAgent :=
  match a.flowLine clock "destroy" e with
  | none => a
  | some line =>
    let (a, rc) := a.spoolPushLine line
    if rc = 0 then
      { a with flow := { a.flow with destroysEmitted := a.flow.destroysEmitted + 1 } }
    else a

/-- The `new` line. -/
def emitNewLine (a : CpeAgent) (clock : Option WallClock) (e : CpeFlowEntry) : CpeAgent :=
  match a.flowLine clock "new" e with
  | none => a
  | some line => (a.spoolPushLine line).1

/-- `slot->used = 0` and its effect on the count of occupied slots. -/
def releaseSlot (a : CpeAgent) (i : FlowSlot) : CpeAgent :=
  let a := a.setSlot i (a.flow.table i).released
  { a with flow := { a.flow with
    tableUsed := if 0 < a.flow.tableUsed then a.flow.tableUsed - 1 else a.flow.tableUsed } }

/-- The first half of `apply_event`: the event goes into the slot and is counted. -/
def storeInSlot (a : CpeAgent) (idx : FlowSlot) (x : FlowInput) : CpeAgent :=
  (a.setSlot idx (storeEvent (a.flow.table idx) x.ev x.nowMs)).countEvent (a.flow.table idx).used

/-- The branch of `apply_event` for a teardown: mark, print, release. -/
def teardown (a : CpeAgent) (idx : FlowSlot) (clock : Option WallClock) : CpeAgent :=
  let a := a.setSlot idx (a.flow.table idx).destroyed
  (a.emitDestroyLine clock (a.flow.table idx)).releaseSlot idx

/-- `apply_event` -/
def applyEvent (a : CpeAgent) (x : FlowInput) : CpeAgent × ℤ :=
  if x.ev.ignored then (a, 0)
  else
    let a := a.warnNoAcct x.ev
    match findSlot a.flow (entryFromEvent x.ev x.nowMs) with
    | none => (a, -1)
    | some idx =>
      let a := a.storeInSlot idx x
      if x.ev.type = .destroy ∧ a.flow.emitDestroy then (a.teardown idx x.clock, 1)
      else if x.ev.type = .new ∧ a.flow.emitNew then
        (a.emitNewLine x.clock (a.flow.table idx), 0)
      else (a, 0)

/-! ## What printing a line leaves alone -/

theorem emitNewLine_flow (a : CpeAgent) (clock : Option WallClock) (e : CpeFlowEntry) :
    (a.emitNewLine clock e).flow = a.flow := by
  unfold emitNewLine
  split
  · rfl
  · exact spoolPushLine_flow a _

end CpeAgent

/-! ## The effect on the flow state -/

/-- The second state is the first with another table; of the rest, only the occupancy, two counters
and the warning flag may differ. Settings and descriptors are the same. -/
def CpeFlowState.Retabled (st : CpeFlowState) (table : FlowSlot → CpeFlowEntry)
    (st' : CpeFlowState) : Prop :=
  ∃ used events destroys warned, st' =
    { st with
      table := table
      tableUsed := used
      eventsIn := events
      destroysEmitted := destroys
      warnedNoAcct := warned }

namespace CpeFlowState

theorem Retabled.trans {st st' st'' : CpeFlowState} {t t' : FlowSlot → CpeFlowEntry}
    (h : st.Retabled t st') (h' : st'.Retabled t' st'') : st.Retabled t' st'' := by
  obtain ⟨_, _, _, _, rfl⟩ := h
  obtain ⟨_, _, _, _, rfl⟩ := h'
  exact ⟨_, _, _, _, rfl⟩

theorem Retabled.table_eq {st st' : CpeFlowState} {t : FlowSlot → CpeFlowEntry}
    (h : st.Retabled t st') : st'.table = t := by
  obtain ⟨_, _, _, _, rfl⟩ := h
  rfl

theorem Retabled.maxFlows_eq {st st' : CpeFlowState} {t : FlowSlot → CpeFlowEntry}
    (h : st.Retabled t st') : st'.maxFlows = st.maxFlows := by
  obtain ⟨_, _, _, _, rfl⟩ := h
  rfl

theorem Retabled.emitDestroy_eq {st st' : CpeFlowState} {t : FlowSlot → CpeFlowEntry}
    (h : st.Retabled t st') : st'.emitDestroy = st.emitDestroy := by
  obtain ⟨_, _, _, _, rfl⟩ := h
  rfl

theorem Retabled.emitNew_eq {st st' : CpeFlowState} {t : FlowSlot → CpeFlowEntry}
    (h : st.Retabled t st') : st'.emitNew = st.emitNew := by
  obtain ⟨_, _, _, _, rfl⟩ := h
  rfl

theorem ignored_of_target {st : CpeFlowState} {ev : NfctEvent} {nowMs : UInt64} {i : FlowSlot}
    (h : st.target ev nowMs = some i) : ev.ignored = false := by
  by_contra hign
  rw [target, if_pos (Bool.not_eq_false _ ▸ hign)] at h
  exact absurd h (by simp)

end CpeFlowState

namespace CpeAgent

theorem retabled_warnNoAcct (a : CpeAgent) (ev : NfctEvent) :
    a.flow.Retabled a.flow.table (a.warnNoAcct ev).flow := by
  unfold warnNoAcct
  split <;> exact ⟨_, _, _, _, rfl⟩

theorem retabled_storeInSlot (a : CpeAgent) (idx : FlowSlot) (x : FlowInput) :
    a.flow.Retabled (Function.update a.flow.table idx (storeEvent (a.flow.table idx) x.ev x.nowMs))
      (a.storeInSlot idx x).flow :=
  ⟨_, _, _, _, rfl⟩

theorem retabled_emitDestroyLine (a : CpeAgent) (clock : Option WallClock) (e : CpeFlowEntry) :
    a.flow.Retabled a.flow.table (a.emitDestroyLine clock e).flow := by
  unfold emitDestroyLine
  split
  · exact ⟨_, _, _, _, rfl⟩
  · dsimp only
    split <;> rw [spoolPushLine_flow] <;> exact ⟨_, _, _, _, rfl⟩

theorem retabled_setSlot (a : CpeAgent) (idx : FlowSlot) (e : CpeFlowEntry) :
    a.flow.Retabled (Function.update a.flow.table idx e) (a.setSlot idx e).flow :=
  ⟨_, _, _, _, rfl⟩

theorem retabled_releaseSlot {st : CpeFlowState} {t : FlowSlot → CpeFlowEntry} {a : CpeAgent}
    (h : st.Retabled t a.flow) (idx : FlowSlot) :
    st.Retabled (Function.update t idx (t idx).released) (a.releaseSlot idx).flow := by
  have hrelease : a.flow.Retabled (Function.update a.flow.table idx (a.flow.table idx).released)
      (a.releaseSlot idx).flow := ⟨_, _, _, _, rfl⟩
  rw [h.table_eq] at hrelease
  exact h.trans hrelease

theorem retabled_emitDestroyLine_of {st : CpeFlowState} {t : FlowSlot → CpeFlowEntry}
    {a : CpeAgent} (h : st.Retabled t a.flow) (clock : Option WallClock) (e : CpeFlowEntry) :
    st.Retabled t (a.emitDestroyLine clock e).flow := by
  have hprint := a.retabled_emitDestroyLine clock e
  rw [h.table_eq] at hprint
  exact h.trans hprint

theorem retabled_teardown (a : CpeAgent) (idx : FlowSlot) (clock : Option WallClock) :
    a.flow.Retabled (Function.update a.flow.table idx (a.flow.table idx).destroyed.released)
      (a.teardown idx clock).flow := by
  have hmark := a.retabled_setSlot idx (a.flow.table idx).destroyed
  have hprint := retabled_emitDestroyLine_of hmark clock
    ((a.setSlot idx (a.flow.table idx).destroyed).flow.table idx)
  have hrelease := retabled_releaseSlot hprint idx
  rw [Function.update_self, Function.update_idem] at hrelease
  exact hrelease

theorem setSlot_table_self (a : CpeAgent) (i : FlowSlot) (e : CpeFlowEntry) :
    (a.setSlot i e).flow.table i = e := by
  rw [(a.retabled_setSlot i e).table_eq, Function.update_self]

/-- The warning does not change where an event goes. -/
theorem findSlot_warnNoAcct (a : CpeAgent) (ev : NfctEvent) (tmp : CpeFlowEntry) :
    findSlot (a.warnNoAcct ev).flow tmp = findSlot a.flow tmp := by
  have hwarn := a.retabled_warnNoAcct ev
  rw [findSlot, findSlot, hwarn.table_eq, hwarn.maxFlows_eq]

theorem retabled_stored (a : CpeAgent) (i : FlowSlot) (x : FlowInput) :
    a.flow.Retabled (Function.update a.flow.table i (storeEvent (a.flow.table i) x.ev x.nowMs))
      ((a.warnNoAcct x.ev).storeInSlot i x).flow := by
  have hwarn := a.retabled_warnNoAcct x.ev
  have hstore := (a.warnNoAcct x.ev).retabled_storeInSlot i x
  rw [hwarn.table_eq] at hstore
  exact hwarn.trans hstore

theorem applyEvent_of_target_none {a : CpeAgent} {x : FlowInput}
    (h : a.flow.target x.ev x.nowMs = none) :
    a.applyEvent x = if x.ev.ignored then (a, 0) else (a.warnNoAcct x.ev, -1) := by
  rw [applyEvent]
  by_cases hign : x.ev.ignored = true
  · rw [if_pos hign, if_pos hign]
  · rw [CpeFlowState.target, if_neg hign] at h
    rw [if_neg hign, if_neg hign]
    dsimp only
    rw [findSlot_warnNoAcct, h]

/-- An event that goes to the slot `i`; the settings that are asked do not change on the way. -/
theorem applyEvent_of_target {a : CpeAgent} {x : FlowInput} {i : FlowSlot}
    (h : a.flow.target x.ev x.nowMs = some i) :
    a.applyEvent x =
      if x.ev.type = .destroy ∧ a.flow.emitDestroy then
        (((a.warnNoAcct x.ev).storeInSlot i x).teardown i x.clock, 1)
      else if x.ev.type = .new ∧ a.flow.emitNew then
        (((a.warnNoAcct x.ev).storeInSlot i x).emitNewLine x.clock
          (((a.warnNoAcct x.ev).storeInSlot i x).flow.table i), 0)
      else ((a.warnNoAcct x.ev).storeInSlot i x, 0) := by
  have hign : ¬ x.ev.ignored = true := Bool.not_eq_true _ ▸ CpeFlowState.ignored_of_target h
  have hstored := a.retabled_stored i x
  rw [CpeFlowState.target, if_neg hign] at h
  rw [applyEvent, if_neg hign]
  dsimp only
  rw [findSlot_warnNoAcct, h]
  dsimp only
  rw [hstored.emitDestroy_eq, hstored.emitNew_eq]

theorem retabled_applyEvent (a : CpeAgent) (x : FlowInput) :
    a.flow.Retabled (a.flow.tableStep x.ev x.nowMs) (a.applyEvent x).1.flow := by
  cases htarget : a.flow.target x.ev x.nowMs with
  | none =>
    rw [applyEvent_of_target_none htarget, CpeFlowState.tableStep, htarget]
    dsimp only
    split
    · exact ⟨_, _, _, _, rfl⟩
    · exact a.retabled_warnNoAcct x.ev
  | some i =>
    have hstored := a.retabled_stored i x
    rw [applyEvent_of_target htarget, CpeFlowState.tableStep, htarget]
    dsimp only
    rw [CpeFlowState.settle, CpeFlowState.releases]
    by_cases hrel : x.ev.type = .destroy ∧ a.flow.emitDestroy = true
    · have hdown := ((a.warnNoAcct x.ev).storeInSlot i x).retabled_teardown i x.clock
      rw [hstored.table_eq, Function.update_self, Function.update_idem] at hdown
      rw [if_pos hrel, if_pos (by simp [hrel])]
      exact hstored.trans hdown
    · rw [if_neg hrel, if_neg (by simpa using hrel)]
      split
      · rw [emitNewLine_flow]
        exact hstored
      · exact hstored

theorem applyEvent_table (a : CpeAgent) (x : FlowInput) :
    (a.applyEvent x).1.flow.table = a.flow.tableStep x.ev x.nowMs :=
  (a.retabled_applyEvent x).table_eq

end CpeAgent

/-! ## Which slot an event goes to -/

namespace CpeFlowState

variable {st : CpeFlowState}

theorem tableStep_of_target {i : FlowSlot} {x : FlowInput}
    (h : st.target x.ev x.nowMs = some i) :
    st.tableStep x.ev x.nowMs
      = Function.update st.table i (st.settle (st.table i) x.ev x.nowMs) := by
  rw [tableStep, h]

theorem tableStep_of_target_none {x : FlowInput} (h : st.target x.ev x.nowMs = none) :
    st.tableStep x.ev x.nowMs = st.table := by
  rw [tableStep, h]

theorem applyEvent_slot_of_ne {a : CpeAgent} {x : FlowInput} {j : FlowSlot}
    (h : a.flow.target x.ev x.nowMs ≠ some j) :
    (a.applyEvent x).1.flow.table j = a.flow.table j := by
  rw [a.applyEvent_table]
  cases htarget : a.flow.target x.ev x.nowMs with
  | none => rw [tableStep_of_target_none htarget]
  | some i =>
    rw [tableStep_of_target htarget]
    refine Function.update_of_ne (fun hji ↦ ?_) _ _
    rw [hji] at h
    exact h htarget

theorem applyEvent_slot {a : CpeAgent} {x : FlowInput} {i : FlowSlot}
    (h : a.flow.target x.ev x.nowMs = some i) :
    (a.applyEvent x).1.flow.table i = a.flow.settle (a.flow.table i) x.ev x.nowMs := by
  rw [a.applyEvent_table, tableStep_of_target h, Function.update_self]

theorem settle_of_not_releases {ev : NfctEvent} (h : st.releases ev = false) (slot : CpeFlowEntry)
    (nowMs : UInt64) : st.settle slot ev nowMs = storeEvent slot ev nowMs := by
  rw [settle, h]
  rfl

theorem settle_used_of_releases {ev : NfctEvent} (h : st.releases ev = true) (slot : CpeFlowEntry)
    (nowMs : UInt64) : (st.settle slot ev nowMs).used = false := by
  rw [settle, h]
  rfl

theorem Retabled.releases_eq {st' : CpeFlowState} {t : FlowSlot → CpeFlowEntry}
    (h : st.Retabled t st') (ev : NfctEvent) : st'.releases ev = st.releases ev := by
  rw [releases, releases, h.emitDestroy_eq]

end CpeFlowState

/-- The four ways the slot search of an event that is not ignored can end. -/
theorem scanResult_target (st : CpeFlowState) {ev : NfctEvent} (hign : ev.ignored = false)
    (nowMs : UInt64) :
    ScanResult (fun i ↦ (st.table i).used)
      (fun i ↦ (st.table i).answers (entryFromEvent ev nowMs))
      (fun i ↦ (st.table i).lastSeenMs < UInt64.ofNat (2 ^ 64 - 1)) (scanned st.maxFlows)
      (st.target ev nowMs) := by
  rw [CpeFlowState.target, if_neg (by rw [hign]; exact Bool.false_ne_true), findSlot]
  exact scanResult_scan _ _ _ _ _

end NetForensics
